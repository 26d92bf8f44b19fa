import ZeroRPC.Rpc.Watch

/-!
# A client that is there is kept

The periodic task of `Rpc_Client` calls `HEARTBEAT_SIG`, which the server answers with an
update of the user of the connection.  The task is run when the call arrives, so its delay is
that of the pool and of the call together; a call that arrives when the descriptor has no user
goes through a null pointer and ends the run.  Checks are made at any time, by the sweep or by anybody else.

Main facts:
* `Beating.step`: every step in time keeps the account of the heartbeats;
* `heartbeats_keep`: if the period of the heartbeat, two passes and one delay fit into the
  time after which a user is inactive, no check returns the client.
-/

namespace ZeroRPC
namespace Rpc

open Library
open ZeroRPC.Core
open PeriodicTask (Setting)

/-- In seconds. -/
def HEARTBEAT_REPEAT_TIME : Int := 5

namespace Watch

/-- `std::chrono::seconds(HEARTBEAT_REPEAT_TIME)`, in milliseconds. -/
def heartbeatPeriod : Int := HEARTBEAT_REPEAT_TIME * 1000

/-- The heartbeat of a client updates its user, if there is one. -/
def heartbeatSignal (fd : Nat) (m : RpcUserManager) (now : Int) : Option UserOp :=
  if (m.userStore.lookup fd).join = none then none else some (.updateHeartbeat fd now)

/-- The constructor of `Rpc_Client` sets the timer of the heartbeat; the server has been
running. -/
def client (fd : Nat) (start : Int) (before : List UserOp) : System Watch WatchEvent :=
  system (heartbeatSignal fd) start heartbeatPeriod before

/-- The descriptor was last seen when the last heartbeat came, or later. -/
def Heard (fd : Nat) (start : Int) (before : List UserOp) (s : Watch) : Prop :=
  ∀ last, Registered (before ++ s.history) fd → LastSeen (before ++ s.history) fd last →
    start ≤ last ∧ ∀ job ∈ s.task.ran, job.time ≤ last

/-- No check has returned the descriptor. -/
def Spared (fd : Nat) (before history : List UserOp) : Prop :=
  ∀ earlier now later ret, history = earlier ++ .checkInvalidUser now :: later →
    (RpcUserManager.after (before ++ earlier)).checkInvalidUser now = .ok ret →
      fd ∉ ret.map Prod.fst

/-- The invariant of a client. -/
structure Beating (fd : Nat) (start ε δ : Int) (before : List UserOp) (s : Watch) : Prop where
  onTime : s.task.OnTime (Setting.first start heartbeatPeriod).handler ε δ
  followed : Followed before s
  heard : s.Heard fd start before
  spared : Spared fd before s.history

namespace Beating

variable {fd : Nat} {start ε δ : Int} {before : List UserOp} {s t : Watch}

theorem init
    (hε : 0 ≤ ε)
    (hstart : CreateFits start heartbeatPeriod)
    (hvalid : UpdatesRegistered before)
    (hnew : ¬ Registered before fd) :
    Beating fd start ε δ before (Watch.init start heartbeatPeriod before) where
  onTime := .init hε (Setting.first_inTime hε (by decide) hstart)
  followed := by
    refine ⟨?_, ?_⟩
    · show RpcUserManager.after before = RpcUserManager.after (before ++ [])
      rw [List.append_nil]
    · show UpdatesRegistered (before ++ [])
      rwa [List.append_nil]
  heard := by
    intro last hregistered _
    rw [Watch.init, List.append_nil] at hregistered
    exact absurd hregistered hnew
  spared := by
    intro earlier now later ret heq
    simp [Watch.init] at heq

/-- The user of the client was heard in time. -/
theorem inTime
    {last : Int}
    (h : Beating fd start ε δ before s)
    (hδ : 0 ≤ δ)
    (hfits : HEARTBEAT_REPEAT_TIME * 1000000000 + MILLISECOND + 2 * ε + δ ≤
      HEARTBEAT_TIMEOUT * 1000000000)
    (hregistered : Registered (before ++ s.history) fd)
    (hseen : LastSeen (before ++ s.history) fd last) :
    s.task.clock ≤ last + HEARTBEAT_TIMEOUT * 1000000000 := by
  obtain ⟨hbegun, hran⟩ := h.heard last hregistered hseen
  by_contra hlate
  have hperiod : (Setting.first start heartbeatPeriod).handler.period =
      HEARTBEAT_REPEAT_TIME * 1000000000 := by
    show heartbeatPeriod * MILLISECOND = _
    decide
  have hmilli : (0 : Int) < MILLISECOND := by decide
  -- the next heartbeat would have come by now
  have hlater : start + MILLISECOND ≤ last + MILLISECOND := by linarith
  obtain ⟨k, hk, hafter, hbefore⟩ := PeriodicTask.next_deadline h.onTime.positive hlater
  rw [hperiod] at hbefore
  have hmem := h.onTime.deadline_mem hδ hk (by linarith)
  obtain ⟨job, hjob, heq⟩ := List.mem_map.mp hmem
  obtain ⟨hdue, -, -⟩ := h.onTime.done job hjob
  have hearlier := hran job hjob
  linarith

/-- A call comes, perhaps from the task. -/
theorem heard_record
    {op : UserOp}
    {task : PeriodicTask}
    (h : Beating fd start ε δ before s)
    (hread : ReadAt s.task.clock op)
    (hran : (∀ job ∈ task.ran, job ∈ s.task.ran) ∨
      (∀ job ∈ task.ran, job.time ≤ s.task.clock) ∧ op.Starts fd) :
    Heard fd start before { s.record op with task := task } := by
  intro last hregistered hseen
  have hassoc : before ++ (s.history ++ [op]) = (before ++ s.history) ++ [op] :=
    (List.append_assoc ..).symm
  have hbegun := h.onTime.begun
  rw [Watch.record, hassoc] at hregistered hseen
  rcases lastSeen_concat.mp hseen with hstarts | ⟨hquiet, hseen⟩
  · obtain rfl := hread.start fd last hstarts
    refine ⟨hbegun, ?_⟩
    rcases hran with hsame | ⟨hpast, -⟩
    · exact fun job hjob => (h.onTime.done job (hsame job hjob)).2.2
    · exact hpast
  · rcases registered_concat.mp hregistered with hcreates | ⟨-, hregistered⟩
    · exact absurd hcreates.starts hquiet
    · obtain ⟨hle, hold⟩ := h.heard last hregistered hseen
      rcases hran with hsame | ⟨-, hstarts⟩
      · exact ⟨hle, fun job hjob => hold job (hsame job hjob)⟩
      · exact absurd hstarts hquiet

theorem spared_record
    {op : UserOp}
    (h : Beating fd start ε δ before s)
    (hδ : 0 ≤ δ)
    (hfits : HEARTBEAT_REPEAT_TIME * 1000000000 + MILLISECOND + 2 * ε + δ ≤
      HEARTBEAT_TIMEOUT * 1000000000)
    (hread : ReadAt s.task.clock op) :
    Spared fd before (s.history ++ [op]) := by
  intro earlier now later ret heq hret hmem
  rcases List.eq_nil_or_concat later with rfl | ⟨later, last, rfl⟩
  · obtain ⟨rfl, hsame⟩ := List.append_inj' heq rfl
    obtain rfl := List.singleton_inj.mp hsame
    obtain ⟨hregistered, last, hseen, hover⟩ :=
      (mem_inactive_iff h.followed.valid hret fd).mp hmem
    rw [hread.check now rfl fd] at hover
    have hle := h.inTime hδ hfits hregistered hseen
    linarith
  · rw [List.concat_eq_append] at heq
    have hassoc : s.history ++ [op] = (earlier ++ .checkInvalidUser now :: later) ++ [last] := by
      simpa using heq
    exact h.spared earlier now later ret (List.append_inj' hassoc rfl).1 hret hmem

/-- **Every step in time keeps the account of the heartbeats.** -/
theorem step
    {e : WatchEvent}
    (h : Beating fd start ε δ before s)
    (hε : 0 ≤ ε)
    (hδ : 0 ≤ δ)
    (hfits : HEARTBEAT_REPEAT_TIME * 1000000000 + MILLISECOND + 2 * ε + δ ≤
      HEARTBEAT_TIMEOUT * 1000000000)
    (hok : Timely ε δ s e)
    (hstep : s.step (heartbeatSignal fd) e = some t) :
    Beating fd start ε δ before t := by
  have hallowed : ∀ m now op, heartbeatSignal fd m now = some op → Allowed m op := by
    intro m now op hop
    rw [heartbeatSignal, Option.ite_none_left_eq_some] at hop
    obtain ⟨hthere, hop⟩ := hop
    cases hop
    exact hthere
  have hfollowed := h.followed.step hallowed hok hstep
  cases step_moves hstep with
  | task hother htask =>
      refine ⟨h.onTime.step hε hδ hok htask, hfollowed, ?_, h.spared⟩
      intro last hregistered hseen
      obtain ⟨hle, hold⟩ := h.heard last hregistered hseen
      refine ⟨hle, ?_⟩
      show ∀ job ∈ _, _
      rw [(PeriodicTask.step_other hother htask).1]
      exact hold
  | @run i task op hop htask =>
      have honTime := h.onTime.step (e := .run i) hε hδ trivial htask
      obtain ⟨deadline, -, hclock⟩ := PeriodicTask.step_run htask
      rw [heartbeatSignal, Option.ite_none_left_eq_some] at hop
      obtain rfl := Option.some.inj hop.2
      have hread := readAt_request s.task.clock (.updateHeartbeat fd)
      refine ⟨honTime, hfollowed, h.heard_record hread (.inr ⟨?_, ?_⟩),
        h.spared_record hδ hfits hread⟩
      · intro job hjob
        rw [← hclock]
        exact (honTime.done job hjob).2.2
      · exact ⟨s.task.clock, rfl, rfl⟩
  | @call request =>
      have hread := readAt_request s.task.clock request
      exact ⟨h.onTime, hfollowed, h.heard_record hread (.inl fun _ hjob => hjob),
        h.spared_record hδ hfits hread⟩

end Beating

/-- **No check returns a client whose heartbeats come in time.** -/
theorem heartbeats_keep
    (fd : Nat)
    (start ε δ : Int)
    (hε : 0 ≤ ε)
    (hδ : 0 ≤ δ)
    (hfits : HEARTBEAT_REPEAT_TIME * 1000000000 + MILLISECOND + 2 * ε + δ ≤
      HEARTBEAT_TIMEOUT * 1000000000)
    (hstart : CreateFits start heartbeatPeriod)
    (before : List UserOp)
    (hvalid : UpdatesRegistered before)
    (hnew : ¬ Registered before fd)
    (s : Watch)
    (h : (client fd start before).Reachable (Timely ε δ) s)
    (earlier later : List UserOp)
    (now : Nat → Int)
    (hcheck : s.history = earlier ++ .checkInvalidUser now :: later) :
    ∃ ret, (RpcUserManager.after (before ++ earlier)).checkInvalidUser now = .ok ret ∧
      fd ∉ ret.map Prod.fst := by
  have hs : Beating fd start ε δ before s :=
    h.invariant (.init hε hstart hvalid hnew) fun _ _ _ hs hok hstep => hs.step hε hδ hfits hok hstep
  have hvalid' := hs.followed.valid
  rw [hcheck, ← List.append_assoc] at hvalid'
  obtain ⟨ret, hret⟩ :=
    RpcUserManager.checkInvalidUser_ok (recorded_after hvalid'.of_append).notNull now
  exact ⟨ret, hret, hs.spared earlier now later ret hcheck hret⟩

/-- A client that was accepted at 0 and called three times, with a pass every 4 seconds, when
a check is made at 20 seconds. -/
def threeBeats : Watch where
  task :=
    { id := 1
      clock := 20000000000
      timer :=
        { timers := [⟨1, 0, 15001000000, 20001000000, 5000, true⟩]
          removedTimerID := []
          nextID := 2
          clock := 16000000000
          pass := none
          created := [⟨1, 0, 0, 5001000000, 5000, true⟩]
          fired := [⟨1, 5001000000, 0⟩, ⟨1, 10001000000, 0⟩, ⟨1, 15001000000, 0⟩]
          passFired := [⟨1, 15001000000, 0⟩] }
      pending := []
      ran := [⟨5001000000, 8000000000⟩, ⟨10001000000, 12000000000⟩, ⟨15001000000, 16000000000⟩] }
  users := RpcUserManager.init.createUser 3 0 16000000000
  history :=
    [.createUser 3 0 0, .updateHeartbeat 3 8000000000, .updateHeartbeat 3 12000000000,
      .updateHeartbeat 3 16000000000, .checkInvalidUser fun _ => 20000000000]

theorem threeBeats_keep :
    ∃ ret, (RpcUserManager.after (threeBeats.history.take 4)).checkInvalidUser
        (fun _ => 20000000000) = .ok ret ∧
      3 ∉ ret.map Prod.fst := by
  let beatAt : Int → List WatchEvent := fun now =>
    [.task (.tick now), .task (.timer (.beginPass now)), .task (.timer (.pop 0)),
      .task (.timer .endPass), .task (.run 0)]
  let events : List WatchEvent :=
    .call (.createUser 3 0) :: .task (.tick 4000000000) ::
      .task (.timer (.beginPass 4000000000)) :: .task (.timer .endPass) ::
      beatAt 8000000000 ++ beatAt 12000000000 ++ beatAt 16000000000 ++
      [.task (.tick 20000000000), .call .checkInvalidUser]
  have hrun : (client 3 0 []).runFrom (client 3 0 []).init events = some threeBeats := rfl
  have hok : (client 3 0 []).Every (Timely 4000000000 1000000000) (client 3 0 []).init events := by
    decide
  have hvalid : UpdatesRegistered [] := by
    intro before fd now rest heq
    simp at heq
  exact heartbeats_keep 3 0 4000000000 1000000000 (by decide) (by decide) (by decide)
    (by decide) [] hvalid
    not_since_nil threeBeats (hok.reachable .init hrun) (threeBeats.history.take 4) [] _ rfl

end Watch

end Rpc
end ZeroRPC
