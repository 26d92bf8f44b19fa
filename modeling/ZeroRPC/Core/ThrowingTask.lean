import ZeroRPC.Core.PoolCounts
import ZeroRPC.Core.Readers

/-!
# Tasks that throw

The pool of a server and one of its connections.  The sub-reactor commits `read_data`, and
the steps of that task are taken by the worker that runs it.  Everything else the pool
runs, the tasks of other connections too, is some task that returns or throws.  What the
peer sends is any string of bytes.

`work_task` has no `try`: what leaves a task leaves the worker, and ends the process.
After an operation the language does not define, nothing can be said about it.

Main facts:
* `parseStep_ok_iff`, `advance_ok_iff`: when an operation of `read_data` goes well;
* `goesOn_iff`: what one step makes of the pool;
* `tasks_survive_iff`: in a run of a server the workers go on, with exact counters, exactly
  when no task fails;
* `empty_payload_ends_process`: a frame of one byte, the tag of Brotli, ends it.
-/

namespace ZeroRPC
namespace Core

open Library

/-- `decode` of the body gives a message: the tag is known, and a payload under the tag of
Brotli decompresses. -/
def Decodes (brotli : Brotli) (body : Bytes) : Prop :=
  match decodeString brotli body with
  | .error _ => False
  | .ok _ => True

instance (brotli : Brotli) (body : Bytes) : Decidable (Decodes brotli body) :=
  match h : decodeString brotli body with
  | .error _ => isFalse (by simp [Decodes, h])
  | .ok _ => isTrue (by simp [Decodes, h])

/-- The next operation of a `read_data` task finds what it needs: room for the chunk, the
bytes it dequeues, a body that decodes, a message to pop. -/
def FindsWhatItNeeds (brotli : Brotli) (channel : SocketChannel) : Task → Prop
  | .enqueuing chunk => chunk.length ≤ BUFFER_SIZE - channel.readBuffer.size
  | .parsing .takeHeader _ => HEAD_LENGTH ≤ channel.readBuffer.size
  | .parsing (.storeLength temp) _ => HEAD_LENGTH ≤ temp.length
  | .parsing .takeBody _ => channel.readBufferLength ≤ channel.readBuffer.size
  | .parsing (.pushMessage body) _ => Decodes brotli body
  | .parsing .pop _ => channel.readMessages ≠ []
  | _ => True

instance (brotli : Brotli) (channel : SocketChannel) :
    DecidablePred (FindsWhatItNeeds brotli channel)
  | .absent | .reading | .finished => isTrue trivial
  | .enqueuing _ => inferInstanceAs (Decidable (_ ≤ _))
  | .parsing .takeHeader _ => inferInstanceAs (Decidable (_ ≤ _))
  | .parsing (.storeLength _) _ => inferInstanceAs (Decidable (_ ≤ _))
  | .parsing .takeBody _ => inferInstanceAs (Decidable (_ ≤ _))
  | .parsing (.pushMessage body) _ => inferInstanceAs (Decidable (Decodes brotli body))
  | .parsing .pop _ => inferInstanceAs (Decidable (_ ≠ _))
  | .parsing .head _ | .parsing .sizeHeader _ | .parsing .sizeBody _
  | .parsing (.clearLength _) _ | .parsing .drain _ | .parsing (.handOver _) _
  | .parsing .returned _ => isTrue trivial

/-- A pool, and a connection whose `read_data` tasks are known by the numbers of their
commits. -/
structure ServedPool where
  pool : Pool
  connection : Connection

/-- `helperThrows` is an exception in a `read_data` task from outside the buffer and the
parser: from the callback, or from `remove_fd` in `close_connection`. -/
inductive ServedEvent
  | pool (e : PoolEvent)
  | arrive (n : Nat)
  | modify
  | dispatch
  | advance (w n : Nat)
  | hangUp (w : Nat)
  | helperThrows (w : Nat)
deriving DecidableEq

namespace ServedPool

def init (config : PoolConfig) (type : CompressionType) (data : Nat → UInt8) (stream : Bytes) :
    ServedPool where
  pool := .init config
  connection := .init type data stream

/-- The number of the task a worker is in. -/
def taskOf (s : ServedPool) (w : Nat) : Option Nat :=
  match s.pool.workers[w]? with
  | some (.running task) => task.task
  | _ => none

/-- `read_data` returns when it is finished; any other task ends either way. -/
def Allows (s : ServedPool) : PoolEvent → Prop
  | .finish w threw =>
      ∀ k ∈ s.taskOf w,
        s.connection.tasks k = .absent ∨ s.connection.tasks k = .finished ∧ threw = false
  | _ => True

instance (s : ServedPool) : DecidablePred s.Allows
  | .finish w threw =>
      inferInstanceAs (Decidable (∀ k ∈ s.taskOf w,
        s.connection.tasks k = .absent ∨ s.connection.tasks k = .finished ∧ threw = false))
  | .spawn | .construct | .commit _ | .notify _ | .enter _ | .wake _ | .spurious _ | .check _ =>
      isTrue trivial

/-- The task of a worker stands at a call that leaves the buffer and the parser. -/
def InHelper : Task → Prop
  | .reading => True
  | .parsing (.handOver _) _ => True
  | _ => False

instance : DecidablePred InHelper
  | .reading | .parsing (.handOver _) _ => isTrue trivial
  | .absent | .finished | .enqueuing _ => isFalse id
  | .parsing .head _ | .parsing .sizeHeader _ | .parsing .takeHeader _
  | .parsing (.storeLength _) _ | .parsing .sizeBody _ | .parsing .takeBody _
  | .parsing (.clearLength _) _ | .parsing (.pushMessage _) _ | .parsing .drain _
  | .parsing .pop _ | .parsing .returned _ => isFalse id

/-- The pool takes a step. -/
def onPool (config : PoolConfig) (s : ServedPool) (e : PoolEvent) : Option ServedPool :=
  match Pool.step config s.pool e with
  | none => none
  | some pool => some { s with pool := pool }

/-- The connection takes a step, by a worker if it is one of a task.  An exception leaves
the task. -/
def onConnection (config : PoolConfig) (host : Endian) (brotli : Brotli) (s : ServedPool)
    (worker : Option Nat) (e : ConnectionEvent) : Option ServedPool :=
  match Connection.step host brotli s.connection e with
  | none => none
  | some connection =>
      match worker, connection.ended with
      | some w, some (.runtimeError _) =>
          onPool config { s with connection := connection } (.finish w true)
      | _, _ => some { s with connection := connection }

def step (config : PoolConfig) (host : Endian) (brotli : Brotli) (s : ServedPool)
    (e : ServedEvent) : Option ServedPool :=
  if s.pool.ended ∨ s.connection.ended ≠ none then
    none
  else
    match e with
    | .pool e => if s.Allows e then s.onPool config e else none
    | .arrive n => s.onConnection config host brotli none (.arrive n)
    | .modify => s.onConnection config host brotli none .modify
    | .dispatch =>
        match s.onConnection config host brotli none (.dispatch s.pool.committed.length) with
        | none => none
        | some t => t.onPool config (.commit false)
    | .advance w n =>
        match s.taskOf w with
        | none => none
        | some k => s.onConnection config host brotli (some w) (.advance k n)
    | .hangUp w =>
        match s.taskOf w with
        | none => none
        | some k => s.onConnection config host brotli (some w) (.hangUp k)
    | .helperThrows w =>
        match s.taskOf w with
        | none => none
        | some k =>
            if InHelper (s.connection.tasks k) then s.onPool config (.finish w true) else none

def system (config : PoolConfig) (host : Endian) (brotli : Brotli) (type : CompressionType)
    (data : Nat → UInt8) (stream : Bytes) : System ServedPool ServedEvent where
  init := init config type data stream
  step := step config host brotli

end ServedPool

/-- The process is alive, and the counters count the tasks that still run. -/
structure Counts (s : Pool) : Prop where
  alive : s.ended = false
  working : s.workingThreadNum = s.running.length
  io : s.ioTaskNum = s.running.countP Handle.isIOTask

/-- After the step the pool counts, and nothing undefined was done; if with the step a task
ended, the worker that ran it is at the head of its loop, and the others run on. -/
def GoesOn (config : PoolConfig) (host : Endian) (brotli : Brotli) (s : ServedPool)
    (e : ServedEvent) : Prop :=
  ∀ t, ServedPool.step config host brotli s e = some t →
    Counts t.pool ∧ t.connection.ended = none ∧
      ∀ w task threw, e = .pool (.finish w threw) → s.pool.workers[w]? = some (.running task) →
        t.pool.workers[w]? = some .ready ∧ s.pool.running.Perm (task :: t.pool.running)

/-- No task fails: `read_data` finds what it needs, and what it calls beside the buffer and
the parser returns, as do all other tasks. -/
def NoneFails (brotli : Brotli) (s : ServedPool) : ServedEvent → Prop
  | .pool (.finish _ threw) => threw = false
  | .advance w _ =>
      ∀ k ∈ s.taskOf w, FindsWhatItNeeds brotli s.connection.channel (s.connection.tasks k)
  | .helperThrows _ => False
  | _ => True

/-! ### When an operation goes well -/

section Operations

variable {host : Endian} {brotli : Brotli} {channel : SocketChannel}

/-- An operation of `parse_message`. -/
theorem parseStep_ok_iff
    (onReadMessage last : Bool)
    (point : Point) :
    (∃ p, parseStep host brotli onReadMessage channel point = .ok p) ↔
      FindsWhatItNeeds brotli channel (.parsing point last) := by
  cases point with
  | takeHeader =>
      simp only [parseStep, FindsWhatItNeeds, Buffer.dequeue]
      by_cases hshort : HEAD_LENGTH > channel.readBuffer.size
      · simp [hshort]
      · simp [hshort, Nat.le_of_not_gt hshort]
  | storeLength temp =>
      simp only [parseStep, FindsWhatItNeeds, readLength, mem2variant]
      by_cases hshort : temp.length < HEAD_LENGTH
      · simp [hshort]
      · cases host <;> simp [hshort, Nat.le_of_not_gt hshort]
  | takeBody =>
      simp only [parseStep, FindsWhatItNeeds, Buffer.dequeue]
      by_cases hshort : channel.readBufferLength > channel.readBuffer.size
      · simp [hshort]
      · simp [hshort, Nat.le_of_not_gt hshort]
  | pushMessage body =>
      simp only [parseStep, FindsWhatItNeeds, Decodes]
      cases hdecode : decodeString brotli body with
      | error e => simp
      | ok message => simp
  | pop =>
      simp only [parseStep, FindsWhatItNeeds]
      cases hmessages : channel.readMessages with
      | nil => simp
      | cons message messages => simp
  | head =>
      simp only [parseStep, FindsWhatItNeeds]
      split <;> simp
  | sizeHeader =>
      simp only [parseStep, FindsWhatItNeeds]
      split <;> simp
  | sizeBody =>
      simp only [parseStep, FindsWhatItNeeds]
      split <;> simp
  | drain =>
      simp only [parseStep, FindsWhatItNeeds]
      split <;> simp
  | clearLength body => simp [parseStep, FindsWhatItNeeds]
  | handOver message => simp [parseStep, FindsWhatItNeeds]
  | returned => simp [parseStep, FindsWhatItNeeds]

theorem reorder_ended
    (t : Nat)
    (before after : Point)
    (s : Connection) :
    (Connection.reorder t before after s).ended = s.ended := by
  unfold Connection.reorder
  split <;> rfl

/-- A step of a `read_data` task. -/
theorem advance_ok_iff
    {s c : Connection}
    {k n : Nat}
    (hlive : s.ended = none)
    (h : Connection.advance host brotli s k n = some c) :
    c.ended = none ↔ FindsWhatItNeeds brotli s.channel (s.tasks k) := by
  cases htask : s.tasks k with
  | absent =>
      simp only [Connection.advance, htask] at h
      cases h
  | finished =>
      simp only [Connection.advance, htask] at h
      cases h
  | reading =>
      simp only [Connection.advance, htask] at h
      refine iff_of_true ?_ trivial
      split at h
      · obtain rfl := Option.some.inj h
        exact hlive
      · split at h
        · obtain rfl := Option.some.inj h
          exact hlive
        · cases h
  | enqueuing chunk =>
      simp only [Connection.advance, htask, Buffer.enqueue] at h
      by_cases hfull : chunk.length > BUFFER_SIZE - s.channel.readBuffer.size
      · simp only [hfull, if_true] at h
        obtain rfl := Option.some.inj h
        simp [FindsWhatItNeeds, hfull]
      · simp only [hfull, if_false] at h
        obtain rfl := Option.some.inj h
        simp [FindsWhatItNeeds, hlive, Nat.le_of_not_gt hfull]
  | parsing point last =>
      have hoperation : (∃ p, parseStep host brotli true s.channel point = .ok p) ↔ _ :=
        parseStep_ok_iff true last point
      rw [← hoperation]
      simp only [Connection.advance, htask] at h
      cases hparse : parseStep host brotli true s.channel point with
      | error e =>
          rw [hparse] at h
          obtain rfl := Option.some.inj h
          simp
      | ok p =>
          rw [hparse] at h
          obtain rfl := Option.some.inj h
          simp [reorder_ended, hlive]

end Operations

/-! ### What a step makes of the pool -/

/-- The pool after a step of the server, and how the connection has failed. -/
inductive PoolMoves (config : PoolConfig) (brotli : Brotli) (s : ServedPool) :
    ServedEvent → Pool → Option Fault → Prop
  | pool {e : PoolEvent} {pool : Pool} (h : Pool.step config s.pool e = some pool) :
      PoolMoves config brotli s (.pool e) pool none
  | arrive {n : Nat} : PoolMoves config brotli s (.arrive n) s.pool none
  | modify : PoolMoves config brotli s .modify s.pool none
  | dispatch {pool : Pool} (h : Pool.step config s.pool (.commit false) = some pool) :
      PoolMoves config brotli s .dispatch pool none
  | advance {w n : Nat}
      (hfinds : ∀ k ∈ s.taskOf w,
        FindsWhatItNeeds brotli s.connection.channel (s.connection.tasks k)) :
      PoolMoves config brotli s (.advance w n) s.pool none
  | throws {w n : Nat} {pool : Pool} {what : String}
      (hmisses : ¬ ∀ k ∈ s.taskOf w,
        FindsWhatItNeeds brotli s.connection.channel (s.connection.tasks k))
      (h : Pool.step config s.pool (.finish w true) = some pool) :
      PoolMoves config brotli s (.advance w n) pool (some (.runtimeError what))
  | undefined {w n : Nat}
      (hmisses : ¬ ∀ k ∈ s.taskOf w,
        FindsWhatItNeeds brotli s.connection.channel (s.connection.tasks k)) :
      PoolMoves config brotli s (.advance w n) s.pool (some .undefined)
  | hangUp {w : Nat} : PoolMoves config brotli s (.hangUp w) s.pool none
  | helperThrows {w : Nat} {pool : Pool}
      (h : Pool.step config s.pool (.finish w true) = some pool) :
      PoolMoves config brotli s (.helperThrows w) pool none

section Steps

variable {config : PoolConfig} {host : Endian} {brotli : Brotli} {s t : ServedPool}

theorem onPool_eq
    {e : PoolEvent}
    (h : s.onPool config e = some t) :
    Pool.step config s.pool e = some t.pool ∧ t.connection = s.connection := by
  rw [ServedPool.onPool] at h
  cases hpool : Pool.step config s.pool e with
  | none =>
      rw [hpool] at h
      cases h
  | some pool =>
      rw [hpool] at h
      obtain rfl := Option.some.inj h
      exact ⟨rfl, rfl⟩

/-- Nothing fails outside the operations of a task. -/
theorem connection_quiet
    {s c : Connection}
    {e : ConnectionEvent}
    (he : ∀ k n, e ≠ .advance k n)
    (h : Connection.step host brotli s e = some c) :
    c.ended = none := by
  simp only [Connection.step, Option.ite_none_left_eq_some, not_not] at h
  obtain ⟨hlive, h⟩ := h
  cases e with
  | arrive n =>
      simp only [Option.ite_none_right_eq_some, Option.some.injEq] at h
      obtain ⟨-, rfl⟩ := h
      exact hlive
  | modify =>
      simp only [Option.ite_none_left_eq_some, Option.some.injEq] at h
      obtain ⟨-, rfl⟩ := h
      exact hlive
  | dispatch k =>
      simp only [Option.ite_none_right_eq_some, Option.some.injEq] at h
      obtain ⟨-, rfl⟩ := h
      exact hlive
  | advance k n => exact absurd rfl (he k n)
  | hangUp k =>
      simp only [Option.ite_none_right_eq_some, Option.some.injEq] at h
      obtain ⟨-, rfl⟩ := h
      exact hlive

theorem onConnection_quiet
    {worker : Option Nat}
    {e : ConnectionEvent}
    (he : ∀ k n, e ≠ .advance k n)
    (h : s.onConnection config host brotli worker e = some t) :
    t.pool = s.pool ∧ t.connection.ended = none := by
  rw [ServedPool.onConnection] at h
  cases hconnection : Connection.step host brotli s.connection e with
  | none =>
      rw [hconnection] at h
      cases h
  | some c =>
      have hended := connection_quiet he hconnection
      rw [hconnection] at h
      simp only [hended] at h
      obtain rfl := Option.some.inj h
      exact ⟨rfl, hended⟩

/-- An operation of a task. -/
theorem advance_poolMoves
    {w k n : Nat}
    (htask : s.taskOf w = some k)
    (h : s.onConnection config host brotli (some w) (.advance k n) = some t) :
    PoolMoves config brotli s (.advance w n) t.pool t.connection.ended := by
  have hall : (∀ k ∈ s.taskOf w,
        FindsWhatItNeeds brotli s.connection.channel (s.connection.tasks k)) ↔
      FindsWhatItNeeds brotli s.connection.channel (s.connection.tasks k) := by
    rw [htask]
    simp
  rw [ServedPool.onConnection] at h
  cases hconnection : Connection.step host brotli s.connection (.advance k n) with
  | none =>
      rw [hconnection] at h
      cases h
  | some c =>
      have hoperation := hconnection
      simp only [Connection.step, Option.ite_none_left_eq_some, not_not] at hoperation
      have hok := advance_ok_iff hoperation.1 hoperation.2
      rw [hconnection] at h
      cases hended : c.ended with
      | none =>
          simp only [hended] at h
          obtain rfl := Option.some.inj h
          rw [hended]
          exact .advance (hall.mpr (hok.mp hended))
      | some fault =>
          have hmisses := mt hall.mp (mt hok.mpr (by simp [hended]))
          simp only [hended] at h
          cases fault with
          | runtimeError what =>
              obtain ⟨hpool, hconnected⟩ := onPool_eq h
              rw [hconnected, hended]
              exact .throws hmisses hpool
          | undefined =>
              obtain rfl := Option.some.inj h
              rw [hended]
              exact .undefined hmisses

theorem step_poolMoves
    {e : ServedEvent}
    (h : ServedPool.step config host brotli s e = some t) :
    s.pool.ended = false ∧ PoolMoves config brotli s e t.pool t.connection.ended := by
  simp only [ServedPool.step, Option.ite_none_left_eq_some, not_or, not_not] at h
  obtain ⟨⟨hlive, hdefined⟩, h⟩ := h
  refine ⟨Bool.eq_false_iff.mpr hlive, ?_⟩
  cases e with
  | pool e =>
      simp only [Option.ite_none_right_eq_some] at h
      obtain ⟨hpool, hconnected⟩ := onPool_eq h.2
      rw [hconnected, hdefined]
      exact .pool hpool
  | arrive n =>
      obtain ⟨hpool, hended⟩ := onConnection_quiet (by simp) h
      rw [hpool, hended]
      exact .arrive
  | modify =>
      obtain ⟨hpool, hended⟩ := onConnection_quiet (by simp) h
      rw [hpool, hended]
      exact .modify
  | dispatch =>
      cases hdispatch : s.onConnection config host brotli none
          (.dispatch s.pool.committed.length) with
      | none => simp [hdispatch] at h
      | some u =>
          simp only [hdispatch] at h
          obtain ⟨hpool, hended⟩ := onConnection_quiet (by simp) hdispatch
          obtain ⟨hcommit, hconnected⟩ := onPool_eq h
          rw [hpool] at hcommit
          rw [hconnected, hended]
          exact .dispatch hcommit
  | advance w n =>
      cases htask : s.taskOf w with
      | none => simp [htask] at h
      | some k =>
          simp only [htask] at h
          exact advance_poolMoves htask h
  | hangUp w =>
      cases htask : s.taskOf w with
      | none => simp [htask] at h
      | some k =>
          simp only [htask] at h
          obtain ⟨hpool, hended⟩ := onConnection_quiet (by simp) h
          rw [hpool, hended]
          exact .hangUp
  | helperThrows w =>
      cases htask : s.taskOf w with
      | none => simp [htask] at h
      | some k =>
          simp only [htask, Option.ite_none_right_eq_some] at h
          obtain ⟨hpool, hconnected⟩ := onPool_eq h.2
          rw [hconnected, hdefined]
          exact .helperThrows hpool

/-- What a step of the pool leaves of the process. -/
theorem ended_of_moves
    {s t : Pool}
    {e : PoolEvent}
    (hlive : s.ended = false)
    (hmoves : Pool.Moves config s e t) :
    t.ended = false ↔ ∀ w, e ≠ .finish w true := by
  cases hmoves with
  | spawn _ hspawn =>
      obtain ⟨-, rfl⟩ := Pool.spawn_eq hspawn
      exact iff_of_true hlive (by simp)
  | @enter w =>
      refine iff_of_true ?_ (by simp)
      rw [Pool.test]
      split
      · exact hlive
      · exact hlive
  | @retest w =>
      refine iff_of_true ?_ (by simp)
      rw [Pool.test]
      split
      · exact hlive
      · exact hlive
  | @threw w =>
      refine iff_of_false (by simp) fun hnone => ?_
      exact hnone w rfl
  | expend _ hexpend =>
      rw [Accounted.expendThreadPool_eq hexpend]
      exact iff_of_true hlive (by simp)
  | _ => exact iff_of_true hlive (by simp)

theorem Accounted.counts
    {s : Pool}
    (h : Accounted s)
    (hlive : s.ended = false) :
    Counts s :=
  ⟨hlive, h.working, h.io⟩

/-- After its task has returned a worker is back at the head of its loop. -/
theorem finish_back
    {s : Pool}
    {w : Nat}
    {task : Handle}
    (hw : s.workers[w]? = some (.running task)) :
    (s.finish w task).workers[w]? = some .ready ∧
      s.running.Perm (task :: (s.finish w task).running) := by
  obtain ⟨hlt, -⟩ := List.getElem?_eq_some_iff.mp hw
  refine ⟨List.getElem?_set_self hlt, ?_⟩
  have hbefore : s.running.Perm (task :: (s.workers.eraseIdx w).filterMap WorkerPoint.task?) :=
    Slots.filterMap_eraseIdx hw
  have hafter : (s.finish w task).running.Perm
      ((s.workers.eraseIdx w).filterMap WorkerPoint.task?) :=
    Slots.filterMap_set hw .ready
  exact hbefore.trans (hafter.symm.cons task)

theorem PoolMoves.account
    {e : ServedEvent}
    {pool : Pool}
    {ended : Option Fault}
    (h : Accounted s.pool)
    (hmoves : PoolMoves config brotli s e pool ended) :
    Accounted pool := by
  cases hmoves with
  | pool hstep => exact h.step hstep
  | dispatch hstep => exact h.step hstep
  | throws _ hstep => exact h.step hstep
  | helperThrows hstep => exact h.step hstep
  | _ => exact h

/-- **What one step makes of the pool.** -/
theorem goesOn_iff
    {e : ServedEvent}
    (h : Accounted s.pool)
    (hstep : ServedPool.step config host brotli s e = some t) :
    GoesOn config host brotli s e ↔ NoneFails brotli s e := by
  obtain ⟨hlive, hmoves⟩ := step_poolMoves hstep
  have haccount := hmoves.account h
  have hafter : GoesOn config host brotli s e ↔
      Counts t.pool ∧ t.connection.ended = none ∧
        ∀ w task threw, e = .pool (.finish w threw) →
          s.pool.workers[w]? = some (.running task) →
            t.pool.workers[w]? = some .ready ∧ s.pool.running.Perm (task :: t.pool.running) := by
    constructor
    · exact fun hgoes => hgoes t hstep
    · intro hgoes t' hstep'
      obtain rfl : t = t' := Option.some.inj (hstep.symm.trans hstep')
      exact hgoes
  have hthrown : ∀ w pool, Pool.step config s.pool (.finish w true) = some pool →
      ¬ Counts pool := by
    intro w pool hpool hcounts
    have halive := hcounts.alive
    cases Pool.step_moves hpool with
    | threw => cases halive
  rw [hafter]
  generalize t.pool = pool at hmoves haccount
  generalize t.connection.ended = ended at hmoves
  cases hmoves with
  | @pool e' _ hpool =>
      have hended := ended_of_moves hlive (Pool.step_moves hpool)
      cases e' with
      | finish w threw =>
          cases threw with
          | true =>
              refine iff_of_false (fun hgoes => hthrown w pool hpool hgoes.1) ?_
              simp [NoneFails]
          | false =>
              refine iff_of_true ⟨haccount.counts (hended.mpr (by simp)), rfl, ?_⟩ rfl
              rintro v task threw ⟨⟩ hv
              cases Pool.step_moves hpool with
              | finish hw =>
                  obtain rfl := WorkerPoint.running.inj (Option.some.inj (hw.symm.trans hv))
                  exact finish_back hw
      | _ =>
          exact iff_of_true ⟨haccount.counts (hended.mpr (by simp)), rfl, by simp⟩ trivial
  | arrive => exact iff_of_true ⟨haccount.counts hlive, rfl, by simp⟩ trivial
  | modify => exact iff_of_true ⟨haccount.counts hlive, rfl, by simp⟩ trivial
  | dispatch hpool =>
      have hended := ended_of_moves hlive (Pool.step_moves hpool)
      exact iff_of_true ⟨haccount.counts (hended.mpr (by simp)), rfl, by simp⟩ trivial
  | advance hfinds => exact iff_of_true ⟨haccount.counts hlive, rfl, by simp⟩ hfinds
  | throws hmisses hpool => exact iff_of_false (fun hgoes => hthrown _ pool hpool hgoes.1) hmisses
  | undefined hmisses =>
      refine iff_of_false ?_ hmisses
      rintro ⟨-, hdefined, -⟩
      cases hdefined
  | hangUp => exact iff_of_true ⟨haccount.counts hlive, rfl, by simp⟩ trivial
  | helperThrows hpool => exact iff_of_false (fun hgoes => hthrown _ pool hpool hgoes.1) id

end Steps

/-- **When the workers go on.**  In every run of the server, whatever its peer sends, after
each step the process is alive and the counters count the tasks that run, and each worker
whose task ended is ready for another, exactly when no task fails. -/
theorem tasks_survive_iff
    (config : PoolConfig)
    (host : Endian)
    (brotli : Brotli)
    (type : CompressionType)
    (data : Nat → UInt8)
    (stream : Bytes)
    (events : List ServedEvent) :
    (ServedPool.system config host brotli type data stream).Every
        (GoesOn config host brotli) (.init config type data stream) events ↔
      (ServedPool.system config host brotli type data stream).Every
        (NoneFails brotli) (.init config type data stream) events := by
  refine System.every_congr (I := fun s => Accounted s.pool) ?_ ?_ ?_ events
  · intro s e t hs hstep
    exact (step_poolMoves hstep).2.account hs
  · intro s e t hs hstep
    exact goesOn_iff hs hstep
  · exact accounted_init config

/-! ### One byte -/

/-- A compressor that puts a byte in front; to decompress nothing is an error. -/
def Brotli.framed : Brotli where
  compress data := .ok (0 :: data)
  decompress
    | [] => .error (.runtimeError "Brotli decompression failed")
    | _ :: data => .ok data

/-- One worker runs `read_data` for a frame with the tag of Brotli and no payload. -/
def emptyPayload : List ServedEvent :=
  [.pool .spawn, .pool .construct, .arrive 5, .dispatch, .pool (.notify none), .pool (.enter 0),
    .advance 0 5, .advance 0 0, .advance 0 0, .advance 0 0, .advance 0 0, .advance 0 0,
    .advance 0 0, .advance 0 0, .advance 0 0, .advance 0 0]

theorem empty_payload_ends_process :
    ¬ ∀ (config : PoolConfig) (host : Endian) (brotli : Brotli) (type : CompressionType)
        (data : Nat → UInt8) (stream : Bytes) (events : List ServedEvent),
      (ServedPool.system config host brotli type data stream).Every
        (GoesOn config host brotli) (.init config type data stream) events := by
  intro h
  let oneWorker : PoolConfig := ⟨1, 1, 1, 1, by decide, by decide, by decide, by decide⟩
  have hgoes := h oneWorker .little .framed .none (fun _ => 0) [1, 0, 0, 0, 1] emptyPayload
  have hended :
      ((ServedPool.system oneWorker .little .framed .none (fun _ => 0) [1, 0, 0, 0, 1]).runFrom
        (.init oneWorker .none (fun _ => 0) [1, 0, 0, 0, 1]) emptyPayload).map
          (fun s => s.pool.ended) = some true := by
    decide +kernel
  obtain ⟨s, hrun, hs⟩ := Option.map_eq_some_iff.mp hended
  have halive := hgoes.throughout (P := fun s => s.pool.ended = false)
    (fun _ _ t _ hgoes hstep => (hgoes t hstep).1.alive) rfl
  have hnot := halive.last hrun
  rw [hs] at hnot
  cases hnot

end Core
end ZeroRPC
