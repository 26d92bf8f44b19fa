import ZeroRPC.Library.LockOrder

/-!
# What the functions do with locks

Each function of the library, as far as locks go: the blocks it runs under a lock, in their
order, with the functions it calls inside them, its branches, its early returns and its loops.
Tasks run on the pool, timers hand their callbacks to the pool, and a callback or a handler
may use the library again.

A thread may hold `_timer_lock` or `_send_lock` and take another lock; under any other lock
none is taken.

Main facts:
* `Runs.ordered`: so it is for whatever a thread can run;
* `locks_never_deadlock`: in every reachable state of any number of threads, as long as one
  of them has something left to do, one of them can go on.
-/

namespace ZeroRPC
namespace Rpc
namespace Locking

open Library

/-- The mutexes; timers, channels, clients and servers are numbered. -/
inductive Lock
  | timerLock (timer : Nat)
  | poolLock
  | sendLock (channel : Nat)
  | readBuffer (channel : Nat)
  | readMessages (channel : Nat)
  | sendMessages (channel : Nat)
  | hashLock (client : Nat)
  | usersLock (server : Nat)
deriving DecidableEq

def rank : Lock → Nat
  | .timerLock _ => 0
  | .sendLock _ => 0
  | _ => 1

open Routine

/-- A member function of a queue, of a buffer or of the users, under its own lock. -/
def locking (l : Lock) : Routine Lock := locked l work

/-! ### `Thread_Pool` -/

def commit : Routine Lock := locking .poolLock

/-- The test of `_isStop`, a round under the lock, the pause. -/
def daemonTask : Routine Lock := loop (seq work (seq (locking .poolLock) work))

/-- The lock is given back before the task runs; a worker may also return. -/
def workTask (task : Routine Lock) : Routine Lock :=
  loop (seq (locked .poolLock (seq (loop (seq (wait .poolLock) work)) work))
    (either work (seq task (locking .poolLock))))

/-! ### `Timer` -/

def createTimer (timer : Nat) : Routine Lock := seq work (locking (.timerLock timer))

def removeTimer (timer : Nat) : Routine Lock := locking (.timerLock timer)

/-- Each pass holds the lock and hands the due callbacks to the executor. -/
def timerRun (timer : Nat) (executor : Routine Lock) : Routine Lock :=
  loop (locked (.timerLock timer) (seq work (loop (either work executor))))

/-! ### `Socket_Channel` -/

def writeData (channel : Nat) (onSendMessage : Routine Lock) : Routine Lock :=
  seq work (seq (locking (.sendMessages channel)) onSendMessage)

/-- The loop over the buffer, and the loop over the messages. -/
def parseMessage (channel : Nat) (onReadMessage : Routine Lock) : Routine Lock :=
  seq
    (loop (seq (either work (seq (locking (.readBuffer channel))
        (either work (locking (.readBuffer channel)))))
      (seq (locking (.readBuffer channel))
        (either work (seq (locking (.readBuffer channel)) (locking (.readMessages channel)))))))
    (seq (loop (seq (locking (.readMessages channel))
        (seq (locking (.readMessages channel)) onReadMessage)))
      (locking (.readMessages channel)))

/-! ### `Rpc_User_Manager` -/

def createUser (server : Nat) : Routine Lock := seq work (locking (.usersLock server))

def updateHeartbeat (server : Nat) : Routine Lock := locking (.usersLock server)

def checkInvalidUser (server : Nat) : Routine Lock := locking (.usersLock server)

def removeUser (server : Nat) : Routine Lock := locking (.usersLock server)

/-! ### `Tcp_Server` and `Rpc_Server` -/

/-- `_on_disconnection` removes the user. -/
def closeConnection (server : Nat) : Routine Lock := seq work (removeUser server)

/-- After a fatal error the connection is closed under `_send_lock`. -/
def trySend (server channel : Nat) : Routine Lock :=
  locked (.sendLock channel)
    (seq
      (loop (seq (locking (.sendMessages channel)) (seq (locking (.sendMessages channel))
        (either work (either (locking (.sendMessages channel)) (closeConnection server))))))
      (either work (seq (locking (.sendMessages channel)) work)))

def serverWriteData (server channel : Nat) : Routine Lock :=
  writeData channel (seq work (trySend server channel))

/-- The callback that the constructor of `Rpc_Server` sets; what the handler throws is
caught. -/
def serverOnReadMessage (server channel : Nat) (handler : Routine Lock) : Routine Lock :=
  seq work (seq (updateHeartbeat server)
    (seq (attempt handler) (serverWriteData server channel)))

/-- The chunks; then the connection is closed and nothing is parsed, or the rest is. -/
def serverReadData (server channel : Nat) (handler : Routine Lock) : Routine Lock :=
  seq
    (loop (seq (locking (.readBuffer channel))
      (parseMessage channel (serverOnReadMessage server channel handler))))
    (either (closeConnection server)
      (parseMessage channel (serverOnReadMessage server channel handler)))

def subReactorRun : Routine Lock := loop (seq work (loop (either work commit)))

def handleNewConnections (server : Nat) : Routine Lock := loop (seq work (createUser server))

def serverRun (server : Nat) : Routine Lock :=
  seq commit (seq (loop commit) (loop (seq work (loop (handleNewConnections server)))))

/-- The callback of the server's own timer. -/
def sweep (server : Nat) : Routine Lock :=
  seq (checkInvalidUser server) (loop (closeConnection server))

/-! ### `Tcp_Client` and `Rpc_Client` -/

def clientSendCallback (channel : Nat) : Routine Lock :=
  locked (.sendLock channel)
    (seq work (seq (loop (seq (locking (.sendMessages channel))
        (seq (locking (.sendMessages channel)) work)))
      (locking (.sendMessages channel))))

def sendMessage (channel : Nat) : Routine Lock :=
  writeData channel (clientSendCallback channel)

/-- The promise goes into the table, the request is sent, the future is awaited. -/
def call (client channel : Nat) : Routine Lock :=
  seq work (seq (locking (.hashLock client)) (seq (sendMessage channel) work))

def clientOnReadMessage (client : Nat) : Routine Lock :=
  seq work (locking (.hashLock client))

def clientReadData (client channel : Nat) : Routine Lock :=
  loop (seq work (either work (seq (locking (.readBuffer channel))
    (parseMessage channel (clientOnReadMessage client)))))

def clientRun : Routine Lock := seq work (seq commit commit)

/-! ### What threads run -/

/-- What a thread can run: the functions of the library, in any order, with handlers, tasks
and callbacks that use them in turn. -/
inductive Runs : Routine Lock → Prop
  | work : Runs work
  | seq {a b : Routine Lock} (ha : Runs a) (hb : Runs b) : Runs (seq a b)
  | either {a b : Routine Lock} (ha : Runs a) (hb : Runs b) : Runs (either a b)
  | loop {body : Routine Lock} (hbody : Runs body) : Runs (loop body)
  | attempt {body : Routine Lock} (hbody : Runs body) : Runs (attempt body)
  | commit : Runs commit
  | daemonTask : Runs daemonTask
  | workTask {task : Routine Lock} (htask : Runs task) : Runs (workTask task)
  | createTimer (timer : Nat) : Runs (createTimer timer)
  | removeTimer (timer : Nat) : Runs (removeTimer timer)
  | timerRun (timer : Nat) : Runs (timerRun timer Locking.commit)
  | serverRun (server : Nat) : Runs (serverRun server)
  | subReactorRun : Runs subReactorRun
  | serverReadData (server channel : Nat) {handler : Routine Lock} (hhandler : Runs handler) :
      Runs (serverReadData server channel handler)
  | serverWriteData (server channel : Nat) : Runs (serverWriteData server channel)
  | closeConnection (server : Nat) : Runs (closeConnection server)
  | sweep (server : Nat) : Runs (sweep server)
  | clientRun : Runs clientRun
  | clientReadData (client channel : Nat) : Runs (clientReadData client channel)
  | sendMessage (channel : Nat) : Runs (sendMessage channel)
  | call (client channel : Nat) : Runs (call client channel)

/-- A single lock may be taken where only smaller ones are held. -/
theorem locking_ordered
    {top : Option Lock}
    {l : Lock}
    (h : ∀ k, top = some k → rank k < rank l) :
    (locking l).Ordered rank top :=
  ⟨h, trivial⟩

theorem free_ordered (l : Lock) : (locking l).Ordered rank none :=
  locking_ordered (by rintro k ⟨⟩)

/-- Under `_send_lock` the lock of the queue may be taken, and that of the users. -/
theorem sending_ordered
    (channel : Nat)
    {l : Lock}
    (h : rank l = 1) :
    (locking l).Ordered rank (some (.sendLock channel)) := by
  refine locking_ordered ?_
  rintro k ⟨⟩
  rw [h]
  exact Nat.zero_lt_one

theorem closeConnection_ordered (server : Nat) : (closeConnection server).Ordered rank none :=
  ⟨trivial, free_ordered _⟩

theorem trySend_ordered (server channel : Nat) : (trySend server channel).Ordered rank none := by
  refine ⟨by rintro k ⟨⟩, ?_⟩
  have hqueue : (locking (.sendMessages channel)).Ordered rank (some (.sendLock channel)) :=
    sending_ordered channel rfl
  have husers : (locking (.usersLock server)).Ordered rank (some (.sendLock channel)) :=
    sending_ordered channel rfl
  exact ⟨⟨hqueue, hqueue, trivial, hqueue, trivial, husers⟩, trivial, hqueue, trivial⟩

theorem writeData_ordered
    {channel : Nat}
    {onSendMessage : Routine Lock}
    (h : onSendMessage.Ordered rank none) :
    (writeData channel onSendMessage).Ordered rank none :=
  ⟨trivial, free_ordered _, h⟩

theorem parseMessage_ordered
    (channel : Nat)
    {onReadMessage : Routine Lock}
    (h : onReadMessage.Ordered rank none) :
    (parseMessage channel onReadMessage).Ordered rank none := by
  have hbuffer := free_ordered (.readBuffer channel)
  have hqueue := free_ordered (.readMessages channel)
  exact ⟨⟨⟨trivial, hbuffer, trivial, hbuffer⟩, hbuffer, trivial, hbuffer, hqueue⟩,
    ⟨hqueue, hqueue, h⟩, hqueue⟩

theorem serverOnReadMessage_ordered
    (server channel : Nat)
    {handler : Routine Lock}
    (h : handler.Ordered rank none) :
    (serverOnReadMessage server channel handler).Ordered rank none :=
  ⟨trivial, free_ordered _, h, writeData_ordered ⟨trivial, trySend_ordered server channel⟩⟩

theorem clientSendCallback_ordered (channel : Nat) :
    (clientSendCallback channel).Ordered rank none := by
  refine ⟨by rintro k ⟨⟩, ?_⟩
  have hqueue : (locking (.sendMessages channel)).Ordered rank (some (.sendLock channel)) :=
    sending_ordered channel rfl
  exact ⟨trivial, ⟨hqueue, hqueue, trivial⟩, hqueue⟩

/-- Under `_timer_lock` the lock of the pool is taken. -/
theorem timerRun_ordered (timer : Nat) : (timerRun timer commit).Ordered rank none := by
  refine ⟨by rintro k ⟨⟩, trivial, trivial, locking_ordered ?_⟩
  rintro k ⟨⟩
  exact Nat.zero_lt_one

/-- A callback that runs under `_timer_lock` cannot set a timer. -/
example : ¬ (timerRun 0 (createTimer 0)).Ordered rank none := by
  rintro ⟨-, -, -, -, habove, -⟩
  exact lt_irrefl _ (habove _ rfl)

/-- **Whatever a thread can run keeps to the order of the locks.** -/
theorem Runs.ordered
    {r : Routine Lock}
    (h : Runs r) :
    r.Ordered rank none := by
  induction h with
  | work => trivial
  | seq _ _ ha hb => exact ⟨ha, hb⟩
  | either _ _ ha hb => exact ⟨ha, hb⟩
  | loop _ hbody => exact hbody
  | attempt _ hbody => exact hbody
  | commit => exact free_ordered _
  | daemonTask => exact ⟨trivial, free_ordered _, trivial⟩
  | workTask _ htask =>
      exact ⟨⟨by rintro k ⟨⟩, ⟨rfl, trivial⟩, trivial⟩, trivial, htask, free_ordered _⟩
  | createTimer timer => exact ⟨trivial, free_ordered _⟩
  | removeTimer timer => exact free_ordered _
  | timerRun timer => exact timerRun_ordered timer
  | serverRun server =>
      exact ⟨free_ordered _, free_ordered _, trivial, trivial, trivial, free_ordered _⟩
  | subReactorRun => exact ⟨trivial, trivial, free_ordered _⟩
  | serverReadData server channel _ hhandler =>
      have hparse := parseMessage_ordered channel
        (serverOnReadMessage_ordered server channel hhandler)
      exact ⟨⟨free_ordered _, hparse⟩, closeConnection_ordered server, hparse⟩
  | serverWriteData server channel =>
      exact writeData_ordered ⟨trivial, trySend_ordered server channel⟩
  | closeConnection server => exact closeConnection_ordered server
  | sweep server => exact ⟨free_ordered _, closeConnection_ordered server⟩
  | clientRun => exact ⟨trivial, free_ordered _, free_ordered _⟩
  | clientReadData client channel =>
      exact ⟨trivial, trivial, free_ordered _,
        parseMessage_ordered channel ⟨trivial, free_ordered _⟩⟩
  | sendMessage channel => exact writeData_ordered (clientSendCallback_ordered channel)
  | call client channel =>
      exact ⟨trivial, free_ordered _, writeData_ordered (clientSendCallback_ordered channel),
        trivial⟩

theorem rank_lt (l : Lock) : rank l < 2 := by
  cases l with
  | timerLock timer => exact Nat.zero_lt_two
  | sendLock channel => exact Nat.zero_lt_two
  | _ => exact Nat.one_lt_two

/-- **The locks never deadlock.**  Whichever threads there are, a thread with something left
to do can go on, or waits for locks one of whose owners can. -/
theorem locks_never_deadlock
    (programs : Nat → Routine Lock)
    (hprograms : ∀ t, Runs (programs t))
    (s : Threads Lock)
    (h : (Threads.system programs).Reachable System.anyStep s)
    (t : Nat)
    (ht : s.todo t ≠ []) :
    s.CanStep t ∨ ∃ u, s.CanStep u ∧ ∃ l, s.owner l = some u :=
  (reachable_disciplined (fun u => (hprograms u).ordered) h).progress rank_lt ht

/-- A client's timer thread inside `_timer_lock`, and a worker that has a call to make. -/
def clientPrograms : Nat → Routine Lock
  | 0 => timerRun 0 commit
  | 1 => workTask (call 0 0)
  | _ => work

theorem clientPrograms_run (t : Nat) : Runs (clientPrograms t) := by
  rcases t with _ | _ | t
  · exact .timerRun 0
  · exact .workTask (.call 0 0)
  · exact .work

/-- The timer thread is about to commit a callback when the worker has taken `_pool_lock`. -/
def clientTurns : List Turn :=
  [.go 0 true, .go 0 true, .go 0 true, .go 0 true, .go 0 true, .go 0 false,
    .go 1 true, .go 1 true, .go 1 true]

def waiting : Threads Lock :=
  ((Threads.system clientPrograms).run clientTurns).getD (Threads.init clientPrograms)

theorem waiting_progress :
    ¬ waiting.CanStep 0 ∧ ∃ u, waiting.CanStep u ∧ ∃ l, waiting.owner l = some u := by
  have hblocked : ¬ waiting.CanStep 0 := by
    rintro ⟨branch, hgo⟩
    cases branch <;> cases hgo
  have hrun : (Threads.system clientPrograms).run clientTurns = some waiting := rfl
  have hprogress := locks_never_deadlock clientPrograms clientPrograms_run waiting
    (System.run_reachable hrun) 0 (List.cons_ne_nil _ _)
  exact ⟨hblocked, hprogress.resolve_left hblocked⟩

end Locking
end Rpc
end ZeroRPC
