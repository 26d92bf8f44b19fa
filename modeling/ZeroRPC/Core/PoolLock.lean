import ZeroRPC.Core.PoolCounts

/-!
# The lock of the thread pool

The workers of a `Thread_Pool`, its daemon and its destructor, with `_pool_lock` and
`_isStop`.  A worker that has the lock takes it through several steps: the test of the
inner loop, then `wait` or the test of `_isStop`.  The destructor writes `_isStop` and
calls `notify_all` without the lock; reads and writes of `_isStop` happen in some order.
The critical sections of the other threads are one step each, taken when the lock is free.

Once the destructor has begun, only a task commits.

Main facts:
* `LockedPool.step_moves`: what a step can be;
* `LockInv.of_reachable`: where the holder of the lock stands, and the account of the pool;
* `LockedPool.refines`: up to the write of `_isStop` these are the steps of a `Pool`.
-/

namespace ZeroRPC
namespace Core

open Library

/-- Where the worker with the lock stands: at the test of the inner loop, before
`_taskCV.wait`, or at `if (_isStop)`. -/
inductive Inside
  | testing
  | blocking
  | leaving
deriving DecidableEq

/-- Where the daemon stands: at its test of `_isStop`, past it, or joined. -/
inductive DaemonPoint
  | head
  | due
  | ended
deriving DecidableEq

/-- A pool with its lock and its stop flag.  `destroying` and `notifiedAll` say how far the
destructor is. -/
structure LockedPool where
  pool : Pool
  holder : Option (Nat × Inside)
  isStop : Bool
  daemon : DaemonPoint
  destroying : Bool
  notifiedAll : Bool
deriving DecidableEq

/-- `outside` is a step that is not split.  `advance` is the next step of the worker with
the lock. -/
inductive LockedEvent
  | outside (e : PoolEvent)
  | acquire (w : Nat)
  | advance
  | daemonTest
  | check (choices : List (Option Nat))
  | stop
  | destroy
  | notifyAll
deriving DecidableEq

namespace LockedPool

def init (config : PoolConfig) : LockedPool where
  pool := .init config
  holder := none
  isStop := false
  daemon := .head
  destroying := false
  notifiedAll := false

/-- `if (_isStop) { _threadNum --; return; }`.  The thread stays in `_threads`, to be
joined. -/
def leave (s : Pool) (w : Nat) : Pool :=
  { s with
    workers := s.workers.eraseIdx w
    threadNum := u32Sub s.threadNum 1 }

/-- Every worker in `wait` is notified. -/
def wakeAll (workers : List WorkerPoint) : List WorkerPoint :=
  workers.map fun p => if p = .waiting then .woken else p

/-- When a step that is not split can happen: a commit and the end of a task take the
lock. -/
def Allows (s : LockedPool) : PoolEvent → Prop
  | .spawn | .construct | .notify _ | .spurious _ => True
  | .commit _ => s.holder = none ∧ (s.destroying = true → s.pool.running ≠ [])
  | .finish _ threw => threw = true ∨ s.holder = none
  | .enter _ | .wake _ | .check _ => False

instance (s : LockedPool) : DecidablePred s.Allows
  | .spawn | .construct | .notify _ | .spurious _ => inferInstanceAs (Decidable True)
  | .commit _ => inferInstanceAs (Decidable (_ ∧ (_ → _)))
  | .finish _ _ => inferInstanceAs (Decidable (_ ∨ _))
  | .enter _ | .wake _ | .check _ => inferInstanceAs (Decidable False)

/-- The worker has the lock, at the head of its loop or back from `wait`. -/
def acquire (s : LockedPool) (w : Nat) : Option LockedPool :=
  match s.holder, s.pool.workers[w]? with
  | none, some .ready => some { s with holder := some (w, .testing) }
  | none, some .woken =>
      if 0 < s.pool.destroyedThreadNum then
        some { s with pool := s.pool.exit w }
      else
        some { s with holder := some (w, .testing) }
  | _, _ => none

/-- The next step of the worker with the lock.  `front` of an empty queue is undefined. -/
def advance (s : LockedPool) : Option LockedPool :=
  match s.holder with
  | none => none
  | some (w, .testing) =>
      if s.pool.taskQueue = [] ∧ s.isStop = false then
        some { s with holder := some (w, .blocking) }
      else
        some { s with holder := some (w, .leaving) }
  | some (w, .blocking) =>
      some { s with
        pool := { s.pool with workers := s.pool.workers.set w .waiting }
        holder := none }
  | some (w, .leaving) =>
      if s.isStop then
        some { s with pool := leave s.pool w, holder := none }
      else if s.pool.taskQueue = [] then
        none
      else
        some { s with pool := s.pool.test w, holder := none }

def step (config : PoolConfig) (s : LockedPool) (e : LockedEvent) : Option LockedPool :=
  if s.pool.ended then
    none
  else
    match e with
    | .outside e =>
        if s.Allows e then
          match Pool.step config s.pool e with
          | none => none
          | some pool => some { s with pool := pool }
        else
          none
    | .acquire w => s.acquire w
    | .advance => s.advance
    | .daemonTest =>
        if s.daemon = .head then
          some { s with daemon := if s.isStop then .ended else .due }
        else
          none
    | .check choices =>
        if s.daemon = .due ∧ s.holder = none then
          match s.pool.daemonTask config choices with
          | none => none
          | some pool => some { s with pool := pool, daemon := .head }
        else
          none
    | .stop =>
        if s.pool.constructed = true ∧ s.destroying = false then
          some { s with isStop := true }
        else
          none
    | .destroy =>
        if s.pool.constructed = true ∧ s.destroying = false then
          some { s with isStop := true, destroying := true }
        else
          none
    | .notifyAll =>
        if s.destroying = true ∧ s.notifiedAll = false then
          some { s with
            pool := { s.pool with workers := wakeAll s.pool.workers }
            notifiedAll := true }
        else
          none

def system (config : PoolConfig) : System LockedPool LockedEvent where
  init := init config
  step := step config

/-- A call of `notify_one` or `notify_all`. -/
def Notifies : LockedEvent → Prop
  | .outside (.notify _) | .notifyAll => True
  | .check choices => choices ≠ []
  | _ => False

/-- What a step can be. -/
inductive Moves (config : PoolConfig) (s : LockedPool) : LockedEvent → LockedPool → Prop
  | outside {e : PoolEvent} {pool : Pool} (hallowed : s.Allows e)
      (h : Pool.step config s.pool e = some pool) :
      Moves config s (.outside e) { s with pool := pool }
  | acquire {w : Nat} {p : WorkerPoint} (hfree : s.holder = none)
      (hw : s.pool.workers[w]? = some p)
      (hp : p = .ready ∨ p = .woken ∧ s.pool.destroyedThreadNum = 0) :
      Moves config s (.acquire w) { s with holder := some (w, .testing) }
  | exit {w : Nat} (hfree : s.holder = none) (hw : s.pool.workers[w]? = some .woken)
      (h : 0 < s.pool.destroyedThreadNum) :
      Moves config s (.acquire w) { s with pool := s.pool.exit w }
  | sleepy {w : Nat} (hholder : s.holder = some (w, .testing)) (hqueue : s.pool.taskQueue = [])
      (hstop : s.isStop = false) :
      Moves config s .advance { s with holder := some (w, .blocking) }
  | through {w : Nat} (hholder : s.holder = some (w, .testing))
      (htest : ¬ (s.pool.taskQueue = [] ∧ s.isStop = false)) :
      Moves config s .advance { s with holder := some (w, .leaving) }
  | block {w : Nat} (hholder : s.holder = some (w, .blocking)) :
      Moves config s .advance
        { s with
          pool := { s.pool with workers := s.pool.workers.set w .waiting }
          holder := none }
  | leave {w : Nat} (hholder : s.holder = some (w, .leaving)) (hstop : s.isStop = true) :
      Moves config s .advance { s with pool := leave s.pool w, holder := none }
  | take {w : Nat} (hholder : s.holder = some (w, .leaving)) (hstop : s.isStop = false)
      (hqueue : s.pool.taskQueue ≠ []) :
      Moves config s .advance { s with pool := s.pool.test w, holder := none }
  | daemonTest (hdaemon : s.daemon = .head) :
      Moves config s .daemonTest { s with daemon := if s.isStop then .ended else .due }
  | check {choices : List (Option Nat)} {pool : Pool} (hdaemon : s.daemon = .due)
      (hfree : s.holder = none) (h : s.pool.daemonTask config choices = some pool) :
      Moves config s (.check choices) { s with pool := pool, daemon := .head }
  | stop (hconstructed : s.pool.constructed = true) (hdestroying : s.destroying = false) :
      Moves config s .stop { s with isStop := true }
  | destroy (hconstructed : s.pool.constructed = true) (hdestroying : s.destroying = false) :
      Moves config s .destroy { s with isStop := true, destroying := true }
  | notifyAll (hdestroying : s.destroying = true) (hnotified : s.notifiedAll = false) :
      Moves config s .notifyAll
        { s with
          pool := { s.pool with workers := wakeAll s.pool.workers }
          notifiedAll := true }

theorem acquire_moves
    {config : PoolConfig}
    {s t : LockedPool}
    {w : Nat}
    (h : s.acquire w = some t) :
    Moves config s (.acquire w) t := by
  unfold acquire at h
  split at h
  case h_1 hfree hw =>
    obtain rfl := Option.some.inj h
    exact .acquire hfree hw (.inl rfl)
  case h_2 hfree hw =>
    split at h
    case isTrue hdestroyed =>
      obtain rfl := Option.some.inj h
      exact .exit hfree hw hdestroyed
    case isFalse hdestroyed =>
      obtain rfl := Option.some.inj h
      exact .acquire hfree hw (.inr ⟨rfl, Nat.eq_zero_of_not_pos hdestroyed⟩)
  case h_3 => cases h

theorem advance_moves
    {config : PoolConfig}
    {s t : LockedPool}
    (h : s.advance = some t) :
    Moves config s .advance t := by
  unfold advance at h
  split at h
  case h_1 => cases h
  case h_2 w hholder =>
    split at h
    case isTrue htest =>
      obtain rfl := Option.some.inj h
      exact .sleepy hholder htest.1 htest.2
    case isFalse htest =>
      obtain rfl := Option.some.inj h
      exact .through hholder htest
  case h_3 w hholder =>
    obtain rfl := Option.some.inj h
    exact .block hholder
  case h_4 w hholder =>
    split at h
    case isTrue hstop =>
      obtain rfl := Option.some.inj h
      exact .leave hholder hstop
    case isFalse hstop =>
      split at h
      case isTrue => cases h
      case isFalse hqueue =>
        obtain rfl := Option.some.inj h
        exact .take hholder (Bool.eq_false_iff.mpr hstop) hqueue

theorem step_moves
    {config : PoolConfig}
    {s t : LockedPool}
    {e : LockedEvent}
    (h : step config s e = some t) :
    Moves config s e t := by
  unfold step at h
  split at h
  · cases h
  cases e with
  | outside e =>
      simp only at h
      split at h
      case isFalse => cases h
      case isTrue hallowed =>
        cases hpool : Pool.step config s.pool e with
        | none =>
            rw [hpool] at h
            cases h
        | some pool =>
            rw [hpool] at h
            obtain rfl := Option.some.inj h
            exact .outside hallowed hpool
  | acquire w => exact acquire_moves h
  | advance => exact advance_moves h
  | daemonTest =>
      simp only at h
      split at h
      case isFalse => cases h
      case isTrue hdaemon =>
        obtain rfl := Option.some.inj h
        exact .daemonTest hdaemon
  | check choices =>
      simp only at h
      split at h
      case isFalse => cases h
      case isTrue hready =>
        cases hpool : s.pool.daemonTask config choices with
        | none =>
            rw [hpool] at h
            cases h
        | some pool =>
            rw [hpool] at h
            obtain rfl := Option.some.inj h
            exact .check hready.1 hready.2 hpool
  | stop =>
      simp only at h
      split at h
      case isFalse => cases h
      case isTrue hready =>
        obtain rfl := Option.some.inj h
        exact .stop hready.1 hready.2
  | destroy =>
      simp only at h
      split at h
      case isFalse => cases h
      case isTrue hready =>
        obtain rfl := Option.some.inj h
        exact .destroy hready.1 hready.2
  | notifyAll =>
      simp only at h
      split at h
      case isFalse => cases h
      case isTrue hready =>
        obtain rfl := Option.some.inj h
        exact .notifyAll hready.1 hready.2

end LockedPool

/-! ### The holder of the lock -/

/-- The holder was at the head of its loop or notified, with no exit owed; it waits for
want of a task, and goes on because of a task or the flag. -/
structure HolderAt (s : LockedPool) (w : Nat) (point : Inside) : Prop where
  place : ∃ p, s.pool.workers[w]? = some p ∧
    (p = .ready ∨ p = .woken ∧ s.pool.destroyedThreadNum = 0)
  blocking : point = .blocking → s.pool.taskQueue = []
  leaving : point = .leaving → s.isStop = false → s.pool.taskQueue ≠ []

/-- A notification leaves every worker outside `wait` where it is. -/
theorem notifyOne_keeps
    {workers next : List WorkerPoint}
    {choice : Option Nat}
    {w : Nat}
    {p : WorkerPoint}
    (h : notifyOne workers choice = some next)
    (hw : workers[w]? = some p)
    (hp : p ≠ .waiting) :
    next[w]? = some p := by
  rcases Pool.notifyOne_cases h with ⟨-, rfl⟩ | ⟨v, hv, rfl⟩
  · exact hw
  · have hne : v ≠ w := by
      rintro rfl
      exact hp (Option.some.inj (hw.symm.trans hv))
    rw [List.getElem?_set_ne hne]
    exact hw

theorem wakeAll_keeps
    {workers : List WorkerPoint}
    {w : Nat}
    {p : WorkerPoint}
    (hw : workers[w]? = some p)
    (hp : p ≠ .waiting) :
    (LockedPool.wakeAll workers)[w]? = some p := by
  rw [LockedPool.wakeAll, List.getElem?_map, hw, Option.map_some, if_neg hp]

theorem wakeAll_running (workers : List WorkerPoint) :
    (LockedPool.wakeAll workers).filterMap WorkerPoint.task? =
      workers.filterMap WorkerPoint.task? := by
  induction workers with
  | nil => rfl
  | cons p rest ih =>
      rw [LockedPool.wakeAll] at ih ⊢
      rw [List.map_cons, List.filterMap_cons, List.filterMap_cons, ih]
      cases p with
      | ready => rfl
      | waiting => rfl
      | woken => rfl
      | running task => rfl

theorem waiting_notMem_wakeAll (workers : List WorkerPoint) :
    .waiting ∉ LockedPool.wakeAll workers := by
  intro h
  obtain ⟨p, -, hp⟩ := List.mem_map.mp h
  split at hp
  case isTrue => cases hp
  case isFalse hne => exact hne hp

namespace HolderAt

variable {s : LockedPool} {w : Nat} {point : Inside}

/-- What leaves the holder, the queue and the exits owed as they are. -/
theorem frame
    {t : LockedPool}
    (h : HolderAt s w point)
    (hworkers : ∀ p, p ≠ .waiting → s.pool.workers[w]? = some p → t.pool.workers[w]? = some p)
    (hdestroyed : t.pool.destroyedThreadNum = s.pool.destroyedThreadNum)
    (hqueue : t.pool.taskQueue = s.pool.taskQueue)
    (hstop : t.isStop = false → s.isStop = false) :
    HolderAt t w point := by
  obtain ⟨p, hw, hp⟩ := h.place
  have hne : p ≠ .waiting := by
    rcases hp with rfl | ⟨rfl, -⟩
    · simp
    · simp
  refine ⟨⟨p, hworkers p hne hw, ?_⟩, ?_, ?_⟩
  · rw [hdestroyed]
    exact hp
  · rw [hqueue]
    exact h.blocking
  · rw [hqueue]
    exact fun hpoint hfalse => h.leaving hpoint (hstop hfalse)

/-- The worker is not in a task. -/
theorem idle
    (h : HolderAt s w point) :
    ∃ p, s.pool.workers[w]? = some p ∧ p.task? = none := by
  obtain ⟨p, hw, hp⟩ := h.place
  refine ⟨p, hw, ?_⟩
  rcases hp with rfl | ⟨rfl, -⟩
  · rfl
  · rfl

/-- The others' steps that are not split. -/
theorem outside
    {config : PoolConfig}
    {e : PoolEvent}
    {pool : Pool}
    (h : HolderAt s w point)
    (hheld : s.holder = some (w, point))
    (hallowed : s.Allows e)
    (hstep : Pool.step config s.pool e = some pool) :
    HolderAt { s with pool := pool } w point := by
  have hbusy : s.holder ≠ none := by
    rw [hheld]
    exact Option.some_ne_none _
  cases Pool.step_moves hstep with
  | spawn _ hspawn =>
      obtain ⟨-, rfl⟩ := Pool.spawn_eq hspawn
      refine h.frame (fun p _ hp => ?_) rfl rfl id
      obtain ⟨hlt, -⟩ := List.getElem?_eq_some_iff.mp hp
      exact (List.getElem?_append_left hlt).trans hp
  | construct => exact h.frame (fun _ _ hp => hp) rfl rfl id
  | commit => exact absurd hallowed.1 hbusy
  | notify _ hone => exact h.frame (fun _ hne hp => notifyOne_keeps hone hp hne) rfl rfl id
  | enter => exact hallowed.elim
  | exit => exact hallowed.elim
  | retest => exact hallowed.elim
  | @spurious v hv =>
      refine h.frame (fun p hne hp => ?_) rfl rfl id
      have hother : v ≠ w := by
        rintro rfl
        exact hne (Option.some.inj (hp.symm.trans hv))
      exact (List.getElem?_set_ne hother).trans hp
  | threw => exact h.frame (fun _ _ hp => hp) rfl rfl id
  | finish =>
      rcases hallowed with hthrew | hfree
      · cases hthrew
      · exact absurd hfree hbusy
  | expend => exact hallowed.elim
  | reduce => exact hallowed.elim
  | pass => exact hallowed.elim

end HolderAt

/-- The holder stands where it can; the counters are exact; the destructor writes the flag
before it notifies. -/
structure LockInv (s : LockedPool) : Prop where
  holder : ∀ w point, s.holder = some (w, point) → HolderAt s w point
  account : Accounted s.pool
  stopped : s.destroying = true → s.isStop = true
  begun : s.notifiedAll = true → s.destroying = true

namespace LockInv

variable {config : PoolConfig} {s t : LockedPool}

theorem init (config : PoolConfig) : LockInv (.init config) where
  holder := by
    rintro w point ⟨⟩
  account := accounted_init config
  stopped := by
    rintro ⟨⟩
  begun := by
    rintro ⟨⟩

/-- The lock is taken. -/
theorem hold
    {w : Nat}
    {point : Inside}
    (h : LockInv s)
    (hat : HolderAt { s with holder := some (w, point) } w point) :
    LockInv { s with holder := some (w, point) } where
  holder := by
    rintro v other hheld
    obtain ⟨rfl, rfl⟩ : w = v ∧ point = other := by
      simpa using hheld
    exact hat
  account := h.account
  stopped := h.stopped
  begun := h.begun

/-- The lock is free. -/
theorem free
    {pool : Pool}
    (h : LockInv s)
    (hpool : Accounted pool)
    (daemon : DaemonPoint) :
    LockInv { s with pool := pool, holder := none, daemon := daemon } where
  holder := by
    rintro w point ⟨⟩
  account := hpool
  stopped := h.stopped
  begun := h.begun

/-- The flag is written. -/
theorem stop
    (h : LockInv s)
    {destroying : Bool}
    (hbegun : s.destroying = true → destroying = true) :
    LockInv { s with isStop := true, destroying := destroying } where
  holder := fun w point hheld =>
    (h.holder w point hheld).frame (fun _ _ hp => hp) rfl rfl nofun
  account := h.account
  stopped := fun _ => rfl
  begun := fun hnotified => hbegun (h.begun hnotified)

theorem step
    {e : LockedEvent}
    (h : LockInv s)
    (hstep : LockedPool.step config s e = some t) :
    LockInv t := by
  cases LockedPool.step_moves hstep with
  | outside hallowed hpool =>
      exact
        { holder := fun w point hheld =>
            (h.holder w point hheld).outside hheld hallowed hpool
          account := h.account.step hpool
          stopped := h.stopped
          begun := h.begun }
  | acquire hfree hw hp => exact h.hold ⟨⟨_, hw, hp⟩, nofun, nofun⟩
  | exit hfree hw =>
      have hpool := h.free (h.account.exit hw) s.daemon
      rwa [← hfree] at hpool
  | sleepy hheld hqueue =>
      exact h.hold ⟨(h.holder _ _ hheld).place, fun _ => hqueue, nofun⟩
  | through hheld htest =>
      refine h.hold ⟨(h.holder _ _ hheld).place, nofun, fun _ hrunning hempty => ?_⟩
      exact htest ⟨hempty, hrunning⟩
  | block hheld =>
      obtain ⟨p, hw, hp⟩ := (h.holder _ _ hheld).idle
      exact h.free (h.account.place hw hp rfl) s.daemon
  | leave hheld =>
      obtain ⟨p, hw, hp⟩ := (h.holder _ _ hheld).idle
      exact h.free (h.account.leave hw hp) s.daemon
  | take hheld =>
      obtain ⟨p, hw, hp⟩ := (h.holder _ _ hheld).idle
      exact h.free (h.account.test hw hp) s.daemon
  | daemonTest =>
      exact
        { holder := fun w point hheld =>
            (h.holder w point hheld).frame (fun _ _ hp => hp) rfl rfl id
          account := h.account
          stopped := h.stopped
          begun := h.begun }
  | check _ hfree hpool =>
      have hchecked := h.free (h.account.moves (Pool.daemonTask_moves hpool)) .head
      rwa [← hfree] at hchecked
  | stop => exact h.stop id
  | destroy => exact h.stop fun _ => rfl
  | notifyAll hdestroying =>
      exact
        { holder := fun w point hheld =>
            (h.holder w point hheld).frame (fun _ hne hp => wakeAll_keeps hp hne) rfl rfl id
          account := h.account.frame ⟨List.length_map _, .of_eq (wakeAll_running _)⟩
          stopped := h.stopped
          begun := fun _ => hdestroying }

theorem of_reachable
    (h : (LockedPool.system config).Reachable System.anyStep s) :
    LockInv s :=
  h.invariant (init config) fun _ _ _ hs _ hstep => hs.step hstep

end LockInv

/-! ### Up to the write of the flag -/

namespace LockedPool

variable {config : PoolConfig} {s t : LockedPool}

theorem live
    {e : LockedEvent}
    (hstep : step config s e = some t) :
    s.pool.ended = false := by
  cases hended : s.pool.ended with
  | false => rfl
  | true =>
      unfold step at hstep
      rw [if_pos hended] at hstep
      cases hstep

/-- A worker at the test of the queue, as one step of `Pool`. -/
theorem pool_test
    {pool : Pool}
    {w : Nat}
    {p : WorkerPoint}
    (hlive : pool.ended = false)
    (hw : pool.workers[w]? = some p)
    (hp : p = .ready ∨ p = .woken ∧ pool.destroyedThreadNum = 0) :
    ∃ e, Pool.step config pool e = some (pool.test w) := by
  rcases hp with rfl | ⟨rfl, hdestroyed⟩
  · exact ⟨.enter w, by simp [Pool.step, hlive, hw]⟩
  · exact ⟨.wake w, by simp [Pool.step, hlive, hw, hdestroyed]⟩

/-- **A step before the flag is written** is a step of `Pool`, or changes nothing there. -/
theorem refines_step
    {e : LockedEvent}
    (h : LockInv s)
    (hstep : step config s e = some t)
    (hstop : t.isStop = false) :
    s.isStop = false ∧
      (t.pool = s.pool ∨ ∃ e', Pool.step config s.pool e' = some t.pool) := by
  have hlive := live hstep
  cases step_moves hstep with
  | outside _ hpool => exact ⟨hstop, .inr ⟨_, hpool⟩⟩
  | acquire => exact ⟨hstop, .inl rfl⟩
  | @exit w _ hw hdestroyed =>
      exact ⟨hstop, .inr ⟨.wake w, by simp [Pool.step, hlive, hw, hdestroyed]⟩⟩
  | sleepy => exact ⟨hstop, .inl rfl⟩
  | through => exact ⟨hstop, .inl rfl⟩
  | @block w hheld =>
      have hat := h.holder _ _ hheld
      obtain ⟨p, hw, hp⟩ := hat.place
      obtain ⟨e', he'⟩ := pool_test hlive hw hp
      have htest : s.pool.test w = { s.pool with workers := s.pool.workers.set w .waiting } := by
        simp only [Pool.test, hat.blocking rfl]
      exact ⟨hstop, .inr ⟨e', he'.trans (congrArg some htest)⟩⟩
  | leave _ hwritten =>
      rw [hwritten] at hstop
      cases hstop
  | take hheld =>
      obtain ⟨p, hw, hp⟩ := (h.holder _ _ hheld).place
      exact ⟨hstop, .inr (pool_test hlive hw hp)⟩
  | daemonTest => exact ⟨hstop, .inl rfl⟩
  | @check choices _ _ _ hpool =>
      exact ⟨hstop, .inr ⟨.check choices, by simp [Pool.step, hlive, hpool]⟩⟩
  | stop => cases hstop
  | destroy => cases hstop
  | notifyAll hdestroying =>
      have hwritten := h.stopped hdestroying
      rw [hstop] at hwritten
      cases hwritten

/-- **Until then the pool is a `Pool`.** -/
theorem refines
    (hs : (system config).Reachable System.anyStep s)
    (hstop : s.isStop = false) :
    (Pool.system config).Reachable System.anyStep s.pool := by
  induction hs with
  | init => exact .init
  | step hbefore _ hstep ih =>
      obtain ⟨hrunning, hsame | ⟨e, he⟩⟩ := refines_step (.of_reachable hbefore) hstep hstop
      · rw [hsame]
        exact ih hrunning
      · exact (ih hrunning).step trivial he

end LockedPool

end Core
end ZeroRPC
