import ZeroRPC.Core.PeriodicTask
import ZeroRPC.Rpc.Inactivity

/-!
# The server notices who is silent

The store of the users beside a periodic task, with one clock for both: what the task does to
the store when it is run is a parameter (nothing, if it goes through a null pointer), and
everybody else may call the store at any time.  The sweep of the server is such a task, with
the time after which a user is inactive for its period.

Main facts:
* `Followed.step`: the store is what its calls make of it;
* `Sweeping.step`: every step in time keeps the account of the sweeps;
* `silence_noticed`: a user that stays silent is returned by a sweep before two periods, two
  passes and one delay are over.
-/

namespace ZeroRPC
namespace Rpc

open Library
open ZeroRPC.Core
open PeriodicTask (Setting)

/-! ### The system -/

/-- A task, and the users with the calls since the task was set. -/
structure Watch where
  task : PeriodicTask
  users : RpcUserManager
  history : List UserOp

inductive UserRequest
  | createUser (fd connection : Nat)
  | updateHeartbeat (fd : Nat)
  | removeUser (fd : Nat)
  | checkInvalidUser

/-- The call reads the clock. -/
def UserRequest.at (now : Int) : UserRequest → UserOp
  | .createUser fd connection => .createUser fd connection now
  | .updateHeartbeat fd => .updateHeartbeat fd now
  | .removeUser fd => .removeUser fd
  | .checkInvalidUser => .checkInvalidUser fun _ => now

inductive WatchEvent
  | task (e : TaskEvent)
  | call (request : UserRequest)

namespace Watch

/-- The call is an update for a user, or no update. -/
def Allowed (m : RpcUserManager) : UserOp → Prop
  | .updateHeartbeat fd _ => (m.userStore.lookup fd).join ≠ none
  | _ => True

instance (m : RpcUserManager) : DecidablePred (Allowed m)
  | .updateHeartbeat fd _ => inferInstanceAs (Decidable ((m.userStore.lookup fd).join ≠ none))
  | .createUser _ _ _ => isTrue trivial
  | .removeUser _ => isTrue trivial
  | .checkInvalidUser _ => isTrue trivial

def init (start waitTime : Int) (before : List UserOp) : Watch where
  task := .init (.first start waitTime)
  users := .after before
  history := []

def record (s : Watch) (op : UserOp) : Watch :=
  { s with
    users := s.users.apply op
    history := s.history ++ [op] }

section System

variable (job : RpcUserManager → Int → Option UserOp)

/-- A task that goes through the null pointer of a user that is not there ends the run. -/
def step (s : Watch) : WatchEvent → Option Watch
  | .task e =>
      match s.task.step e with
      | none => none
      | some task =>
          match e with
          | .run _ =>
              match job s.users s.task.clock with
              | none => none
              | some op => some { s.record op with task := task }
          | _ => some { s with task := task }
  | .call request => some (s.record (request.at s.task.clock))

def system (start waitTime : Int) (before : List UserOp) : System Watch WatchEvent where
  init := init start waitTime before
  step := step job

end System

/-- The task is in time, and updates are for users. -/
def Timely (ε δ : Int) (s : Watch) : WatchEvent → Prop
  | .task e => PeriodicTask.Timely ε δ s.task e
  | .call request => Allowed s.users (request.at s.task.clock)

instance (ε δ : Int) (s : Watch) : DecidablePred (Timely ε δ s)
  | .task e => inferInstanceAs (Decidable (PeriodicTask.Timely ε δ s.task e))
  | .call request => inferInstanceAs (Decidable (Allowed s.users (request.at s.task.clock)))

/-- What a step can be. -/
inductive Moves (job : RpcUserManager → Int → Option UserOp) (s : Watch) :
    WatchEvent → Watch → Prop
  | task {e : TaskEvent} {task : PeriodicTask}
      (hother : ∀ i, e ≠ .run i)
      (hstep : s.task.step e = some task) :
      Moves job s (.task e) { s with task := task }
  | run {i : Nat} {task : PeriodicTask} {op : UserOp}
      (hjob : job s.users s.task.clock = some op)
      (hstep : s.task.step (.run i) = some task) :
      Moves job s (.task (.run i)) { s.record op with task := task }
  | call {request : UserRequest} :
      Moves job s (.call request) (s.record (request.at s.task.clock))

theorem step_moves
    {job : RpcUserManager → Int → Option UserOp}
    {s t : Watch}
    {e : WatchEvent}
    (h : s.step job e = some t) :
    Moves job s e t := by
  cases e with
  | call request =>
      obtain rfl := Option.some.inj h
      exact .call
  | task e =>
      cases hstep : s.task.step e with
      | none => simp [step, hstep] at h
      | some task =>
          simp only [step, hstep] at h
          cases e with
          | tick now =>
              obtain rfl := Option.some.inj h
              exact .task (fun _ heq => by cases heq) hstep
          | timer e =>
              obtain rfl := Option.some.inj h
              exact .task (fun _ heq => by cases heq) hstep
          | run i =>
              cases hjob : job s.users s.task.clock with
              | none => simp [hjob] at h
              | some op =>
                  simp only [hjob, Option.some.injEq] at h
                  subst h
                  exact .run hjob hstep

/-! ### The store follows its calls -/

/-- The store is what the calls make of it, and updates are for registered descriptors. -/
structure Followed (before : List UserOp) (s : Watch) : Prop where
  users : s.users = .after (before ++ s.history)
  valid : UpdatesRegistered (before ++ s.history)

namespace Followed

variable {before : List UserOp} {s : Watch}

theorem recorded
    (h : Followed before s) :
    Recorded (before ++ s.history) s.users := by
  rw [h.users]
  exact recorded_after h.valid

theorem record
    {op : UserOp}
    (h : Followed before s)
    (hok : Allowed s.users op) :
    Followed before (s.record op) where
  users := by
    show s.users.apply op = _
    rw [Watch.record, ← List.append_assoc, RpcUserManager.after_concat, ← h.users]
  valid := by
    show UpdatesRegistered (before ++ (s.history ++ [op]))
    rw [← List.append_assoc]
    cases op with
    | updateHeartbeat fd now =>
        obtain ⟨user, huser⟩ := Option.ne_none_iff_exists'.mp hok
        have hlookup := Option.join_eq_some_iff.mp huser
        exact h.valid.concat_update (h.recorded.user fd user hlookup).1
    | createUser fd connection now => exact h.valid.concat fun _ _ heq => by cases heq
    | removeUser fd => exact h.valid.concat fun _ _ heq => by cases heq
    | checkInvalidUser now => exact h.valid.concat fun _ _ heq => by cases heq

theorem withTask
    (h : Followed before s)
    (task : PeriodicTask) :
    Followed before { s with task := task } :=
  ⟨h.users, h.valid⟩

/-- **Every step keeps the store what its calls make of it.** -/
theorem step
    {job : RpcUserManager → Int → Option UserOp}
    {ε δ : Int}
    {e : WatchEvent}
    {t : Watch}
    (h : Followed before s)
    (hjob : ∀ m now op, job m now = some op → Allowed m op)
    (hok : Timely ε δ s e)
    (hstep : s.step job e = some t) :
    Followed before t := by
  cases step_moves hstep with
  | task => exact h.withTask _
  | run hop => exact (h.record (hjob _ _ _ hop)).withTask _
  | call => exact h.record hok

end Followed

/-! ### Calls in the order of the clock -/

/-- What a call reads is the clock. -/
structure ReadAt (clock : Int) (op : UserOp) : Prop where
  check : ∀ now, op = .checkInvalidUser now → ∀ fd, now fd = clock
  start : ∀ fd t, op.StartsAt fd t → t = clock

theorem readAt_request
    (clock : Int)
    (request : UserRequest) :
    ReadAt clock (request.at clock) where
  check := by
    intro now heq fd
    cases request with
    | createUser other connection => cases heq
    | updateHeartbeat other => cases heq
    | removeUser other => cases heq
    | checkInvalidUser =>
        cases heq
        rfl
  start := by
    intro fd t hstart
    cases request with
    | createUser other connection => exact hstart.2.symm
    | updateHeartbeat other => exact hstart.2.symm
    | removeUser other => exact hstart.elim
    | checkInvalidUser => exact hstart.elim

/-- The check was made before the call. -/
def Before (op op' : UserOp) : Prop :=
  ∀ now, op = .checkInvalidUser now → ∀ fd t, op'.StartsAt fd t → now fd ≤ t

/-- The calls were made one after another, from a time on up to another. -/
structure Chronological (start clock : Int) (history : List UserOp) : Prop where
  sorted : history.Pairwise Before
  checked : ∀ now, .checkInvalidUser now ∈ history → ∀ fd, now fd ≤ clock
  started : ∀ op ∈ history, ∀ fd t, op.StartsAt fd t → start ≤ t

namespace Chronological

variable {start clock : Int} {history : List UserOp}

theorem nil : Chronological start clock [] :=
  ⟨.nil, fun _ hmem => absurd hmem List.not_mem_nil, fun _ hmem => absurd hmem List.not_mem_nil⟩

theorem later
    {clock' : Int}
    (h : Chronological start clock history)
    (hle : clock ≤ clock') :
    Chronological start clock' history :=
  { h with checked := fun now hmem fd => (h.checked now hmem fd).trans hle }

theorem concat
    {op : UserOp}
    (h : Chronological start clock history)
    (hbegun : start ≤ clock)
    (hread : ReadAt clock op) :
    Chronological start clock (history ++ [op]) where
  sorted := by
    refine List.pairwise_append.mpr ⟨h.sorted, List.pairwise_singleton _ _, ?_⟩
    rintro earlier hearlier last hlast now rfl fd t hstart
    obtain rfl := List.mem_singleton.mp hlast
    rw [hread.start fd t hstart]
    exact h.checked now hearlier fd
  checked := by
    intro now hmem fd
    rcases List.mem_append.mp hmem with hmem | hmem
    · exact h.checked now hmem fd
    · exact (hread.check now (List.mem_singleton.mp hmem).symm fd).le
  started := by
    intro other hmem fd t hstart
    rcases List.mem_append.mp hmem with hmem | hmem
    · exact h.started other hmem fd t hstart
    · obtain rfl := List.mem_singleton.mp hmem
      rwa [hread.start fd t hstart]

end Chronological

/-! ### The sweeps -/

/-- `std::chrono::seconds(HEARTBEAT_TIMEOUT)`, in milliseconds. -/
def sweepPeriod : Int := HEARTBEAT_TIMEOUT * 1000

/-- The sweep checks the users. -/
def sweep (_ : RpcUserManager) (now : Int) : Option UserOp := some (.checkInvalidUser fun _ => now)

/-- The constructor of `Rpc_Server` sets the timer of the sweep. -/
def server (start : Int) : System Watch WatchEvent := system sweep start sweepPeriod []

/-- The invariant of the server. -/
structure Sweeping (start ε δ : Int) (s : Watch) : Prop where
  onTime : s.task.OnTime (Setting.first start sweepPeriod).handler ε δ
  followed : Followed [] s
  chronological : Chronological start s.task.clock s.history
  checks : ∀ job ∈ s.task.ran, .checkInvalidUser (fun _ => job.time) ∈ s.history

namespace Sweeping

variable {start ε δ : Int} {s t : Watch}

theorem init
    (hε : 0 ≤ ε)
    (hstart : CreateFits start sweepPeriod) :
    Sweeping start ε δ (Watch.init start sweepPeriod []) where
  onTime := .init hε (Setting.first_inTime hε (by decide) hstart)
  followed := ⟨rfl, fun _ _ _ _ heq => by simp [Watch.init] at heq⟩
  chronological := .nil
  checks := fun _ hmem => absurd hmem List.not_mem_nil

/-- **Every step in time keeps the account of the sweeps.** -/
theorem step
    {e : WatchEvent}
    (h : Sweeping start ε δ s)
    (hε : 0 ≤ ε)
    (hδ : 0 ≤ δ)
    (hok : Timely ε δ s e)
    (hstep : s.step sweep e = some t) :
    Sweeping start ε δ t := by
  have hfollowed := h.followed.step (fun _ _ _ hop => by cases hop; trivial) hok hstep
  cases step_moves hstep with
  | task hother htask =>
      obtain ⟨hran, hle⟩ := PeriodicTask.step_other hother htask
      refine ⟨h.onTime.step hε hδ hok htask, hfollowed, h.chronological.later hle, ?_⟩
      show ∀ job ∈ _, _
      rw [hran]
      exact h.checks
  | @run i task op hop htask =>
      cases hop
      obtain ⟨deadline, hran, hclock⟩ := PeriodicTask.step_run htask
      refine ⟨h.onTime.step (e := .run i) hε hδ trivial htask, hfollowed, ?_, ?_⟩
      · have hread := readAt_request s.task.clock .checkInvalidUser
        exact (h.chronological.concat h.onTime.begun hread).later hclock.ge
      · show ∀ job ∈ _, _
        rw [hran]
        intro job hjob
        rcases List.mem_append.mp hjob with hjob | hjob
        · exact List.mem_append_left _ (h.checks job hjob)
        · obtain rfl := List.mem_singleton.mp hjob
          exact List.mem_append_right _ (List.mem_singleton_self _)
  | @call request =>
      refine ⟨h.onTime, hfollowed, ?_, ?_⟩
      · exact h.chronological.concat h.onTime.begun (readAt_request _ request)
      · exact fun job hjob => List.mem_append_left _ (h.checks job hjob)

/-- A check that comes after the period of a user is over finds it, if it has not been heard
since. -/
theorem found
    {fd : Nat}
    {time last : Int}
    (h : Sweeping start ε δ s)
    (hcheck : .checkInvalidUser (fun _ => time) ∈ s.history)
    (hregistered : Registered s.history fd)
    (hseen : LastSeen s.history fd last)
    (hover : last + HEARTBEAT_TIMEOUT * 1000000000 < time) :
    ∃ before rest ret, s.history = before ++ .checkInvalidUser (fun _ => time) :: rest ∧
      (∀ op ∈ rest, ¬ op.Starts fd ∧ ¬ op.Removes fd) ∧
      (RpcUserManager.after before).checkInvalidUser (fun _ => time) = .ok ret ∧
      fd ∈ ret.map Prod.fst := by
  obtain ⟨before, rest, heq⟩ := List.append_of_mem hcheck
  have hsorted := h.chronological.sorted
  have hvalid : UpdatesRegistered s.history := h.followed.valid
  rw [heq] at hregistered hseen hsorted hvalid
  have hafter := (List.pairwise_cons.mp (List.pairwise_append.mp hsorted).2.1).1
  have hperiod : (0 : Int) ≤ HEARTBEAT_TIMEOUT * 1000000000 := by decide
  -- what was last heard of the user is not after the check
  rcases since_append.mp hseen with ⟨a, op, b, hsplit, hstarts, -⟩ | ⟨hquiet, hseen⟩
  · have hmem : op ∈ UserOp.checkInvalidUser (fun _ => time) :: rest := by simp [hsplit]
    rcases List.mem_cons.mp hmem with rfl | hmem
    · cases hstarts
    · have hle := hafter op hmem (fun _ => time) rfl fd last hstarts
      linarith
  · have hregistered' : Registered before fd ∧ ∀ op ∈ rest, ¬ op.Removes fd := by
      rcases since_append.mp hregistered with ⟨a, op, b, hsplit, hcreates, -⟩ | ⟨hkept, hbefore⟩
      · have hmem : op ∈ UserOp.checkInvalidUser (fun _ => time) :: rest := by simp [hsplit]
        exact absurd hcreates.starts (hquiet op hmem)
      · exact ⟨hbefore, fun op hop => hkept op (List.mem_cons_of_mem _ hop)⟩
    have hvalid' : UpdatesRegistered before := hvalid.of_append
    obtain ⟨ret, hret⟩ :=
      RpcUserManager.checkInvalidUser_ok (recorded_after hvalid').notNull fun _ => time
    refine ⟨before, rest, ret, heq, ?_, hret, ?_⟩
    · intro op hop
      exact ⟨hquiet op (List.mem_cons_of_mem _ hop), hregistered'.2 op hop⟩
    · exact (mem_inactive_iff hvalid' hret fd).mpr ⟨hregistered'.1, last, hseen, hover⟩

end Sweeping

/-- **A user that stays silent is returned by a sweep.** -/
theorem silence_noticed
    (start ε δ : Int)
    (hε : 0 ≤ ε)
    (hδ : 0 ≤ δ)
    (hstart : CreateFits start sweepPeriod)
    (s : Watch)
    (h : (server start).Reachable (Timely ε δ) s)
    (fd : Nat)
    (last : Int)
    (hregistered : Registered s.history fd)
    (hseen : LastSeen s.history fd last)
    (hsilent : last + 2 * (HEARTBEAT_TIMEOUT * 1000000000) + 2 * ε + δ < s.task.clock) :
    ∃ before time rest ret, s.history = before ++ .checkInvalidUser (fun _ => time) :: rest ∧
      time ≤ last + 2 * (HEARTBEAT_TIMEOUT * 1000000000) + 2 * ε + δ ∧
      (∀ op ∈ rest, ¬ op.Starts fd ∧ ¬ op.Removes fd) ∧
      (RpcUserManager.after before).checkInvalidUser (fun _ => time) = .ok ret ∧
      fd ∈ ret.map Prod.fst := by
  have hs : Sweeping start ε δ s :=
    h.invariant (.init hε hstart) fun _ _ _ hs hok hstep => hs.step hε hδ hok hstep
  have hperiod : (Setting.first start sweepPeriod).handler.period =
      HEARTBEAT_TIMEOUT * 1000000000 := by
    show sweepPeriod * MILLISECOND = _
    decide
  have hlong : MILLISECOND ≤ HEARTBEAT_TIMEOUT * 1000000000 := by decide
  have hbegun : start ≤ last := by
    obtain ⟨a, op, b, heq, hstarts, -⟩ := hseen
    exact hs.chronological.started op (by simp [heq]) fd last hstarts
  -- the first deadline after the period is over
  have hlater : start + MILLISECOND ≤ last + HEARTBEAT_TIMEOUT * 1000000000 := by linarith
  obtain ⟨k, hk, hafter, hbefore⟩ := PeriodicTask.next_deadline hs.onTime.positive hlater
  rw [hperiod] at hbefore
  have hran := hs.onTime.deadline_mem hδ hk (by linarith)
  obtain ⟨job, hjob, heq⟩ := List.mem_map.mp hran
  obtain ⟨hdue, hlate, -⟩ := hs.onTime.done job hjob
  rw [heq] at hdue hlate
  obtain ⟨before, rest, ret, hhistory, hquiet, hret, hmem⟩ :=
    hs.found (hs.checks job hjob) hregistered hseen (by linarith)
  exact ⟨before, job.time, rest, ret, hhistory, by linarith, hquiet, hret, hmem⟩

/-- A user that came at 0 and was never heard again, with a pass every 15 seconds: the sweep
for 15.001 seconds was run at 30 seconds and returned it. -/
def unheard : Watch where
  task :=
    { id := 1
      clock := 61000000001
      timer :=
        { timers := [⟨1, 0, 45001000000, 60001000000, 15000, true⟩]
          removedTimerID := []
          nextID := 2
          clock := 60000000000
          pass := none
          created := [⟨1, 0, 0, 15001000000, 15000, true⟩]
          fired := [⟨1, 15001000000, 0⟩, ⟨1, 30001000000, 0⟩, ⟨1, 45001000000, 0⟩]
          passFired := [⟨1, 45001000000, 0⟩] }
      pending := []
      ran := [⟨15001000000, 30000000000⟩, ⟨30001000000, 45000000000⟩, ⟨45001000000, 60000000000⟩] }
  users := RpcUserManager.init.createUser 3 0 0
  history :=
    [.createUser 3 0 0, .checkInvalidUser fun _ => 30000000000,
      .checkInvalidUser fun _ => 45000000000, .checkInvalidUser fun _ => 60000000000]

theorem unheard_noticed :
    ∃ before time rest ret,
      unheard.history = before ++ .checkInvalidUser (fun _ => time) :: rest ∧
      (RpcUserManager.after before).checkInvalidUser (fun _ => time) = .ok ret ∧
      3 ∈ ret.map Prod.fst := by
  let sweepAt : Int → List WatchEvent := fun now =>
    [.task (.tick now), .task (.timer (.beginPass now)), .task (.timer (.pop 0)),
      .task (.timer .endPass), .task (.run 0)]
  let events : List WatchEvent :=
    .call (.createUser 3 0) :: .task (.tick 15000000000) ::
      .task (.timer (.beginPass 15000000000)) :: .task (.timer .endPass) ::
      sweepAt 30000000000 ++ sweepAt 45000000000 ++ sweepAt 60000000000 ++
      [.task (.tick 61000000001)]
  have hrun : (server 0).runFrom (server 0).init events = some unheard := rfl
  have hok : (server 0).Every (Timely 15000000000 1000000000) (server 0).init events := by decide
  have hregistered : Registered unheard.history 3 :=
    ⟨[], .createUser 3 0 0, _, rfl, rfl, by simp [UserOp.Removes]⟩
  have hseen : LastSeen unheard.history 3 0 :=
    ⟨[], .createUser 3 0 0, _, rfl, ⟨rfl, rfl⟩, by simp [UserOp.Starts, UserOp.StartsAt]⟩
  obtain ⟨before, time, rest, ret, hhistory, -, -, hret, hmem⟩ :=
    silence_noticed 0 15000000000 1000000000 (by decide) (by decide) (by decide) unheard
      (hok.reachable .init hrun) 3 0 hregistered hseen (by decide)
  exact ⟨before, time, rest, ret, hhistory, hret, hmem⟩

end Watch

end Rpc
end ZeroRPC
