import ZeroRPC.Library.Transition

/-!
# Timers

A `Timer` and passes of the loop in `Timer::run`.  A pass holds `_timer_lock` from its
reading of the clock to the end of the inner loop, so timers are set and removed between
passes only.  `create_timer` reads the clock before it takes the lock; its reading may be
older than the last pass, or newer.  The executor is handed callbacks and does not call
back.  Times are in nanoseconds and waiting times in milliseconds, in 64 bits each; a
deadline that needs more wraps around.  `_nextID` is far from the end of its bits.

Main facts:
* `Handler.nextTime_update`: the deadlines of a timer one after another, if they fit;
* `Ticking.step`: every step whose deadlines fit keeps the account of firings;
* `timers_fire`: in a run of such steps, at the end of a pass every timer has been fired at
  the deadlines it should have, in order, and no removed timer is fired again;
* `longest_wait_fires_at_once`: the longest waiting time.
-/

namespace ZeroRPC
namespace Core

open Library

/-- Nanoseconds in a millisecond. -/
def MILLISECOND : Int := 1000000

/-- What 64 bits can hold. -/
def Fits (t : Int) : Prop := -2 ^ 63 ≤ t ∧ t < 2 ^ 63

instance (t : Int) : Decidable (Fits t) := inferInstanceAs (Decidable (_ ∧ _))

/-- What 64 bits make of a sum or a product. -/
def int64 (t : Int) : Int := t.bmod (2 ^ 64)

theorem int64_of_fits
    {t : Int}
    (h : Fits t) :
    int64 t = t := by
  obtain ⟨hlow, hhigh⟩ := h
  exact Int.bmod_eq_of_le (by omega) (by omega)

/-- `Handler`.  A callback is known by a number. -/
structure Handler where
  id : Nat
  callbackFunction : Nat
  lastTime : Int
  nextTime : Int
  waitTime : Int
  isPeriodic : Bool
deriving DecidableEq

namespace Handler

def createTimer (id : Nat) (createTime waitTime : Int) (isPeriodic : Bool)
    (callbackFunction : Nat) : Handler where
  id := id
  callbackFunction := callbackFunction
  lastTime := createTime
  nextTime := int64 (createTime + int64 (int64 (waitTime + 1) * MILLISECOND))
  waitTime := waitTime
  isPeriodic := isPeriodic

/-- `_wait_time` in nanoseconds. -/
def period (h : Handler) : Int := h.waitTime * MILLISECOND

def updateTimer (h : Handler) : Handler :=
  { h with lastTime := h.nextTime, nextTime := int64 (h.nextTime + int64 h.period) }

/-- `update_timer` stays within 64 bits. -/
def UpdateFits (h : Handler) : Prop := Fits h.period ∧ Fits (h.nextTime + h.period)

instance (h : Handler) : Decidable h.UpdateFits := inferInstanceAs (Decidable (_ ∧ _))

theorem updateTimer_nextTime
    {h : Handler}
    (hfits : h.UpdateFits) :
    h.updateTimer.nextTime = h.nextTime + h.period := by
  show int64 (h.nextTime + int64 h.period) = _
  rw [int64_of_fits hfits.1, int64_of_fits hfits.2]

end Handler

/-- A callback handed to the executor, with the timer and the deadline it is for. -/
structure Firing where
  id : Nat
  deadline : Int
  callbackFunction : Nat
deriving DecidableEq

/-- A `Timer`.  `timers` is the content of the heap; `pass` is `nowTime` inside a pass and
`clock` that of the last one; the handlers as they were created and the firings, those of
the last pass apart, are kept for the statements. -/
structure Timer where
  timers : List Handler
  removedTimerID : List Nat
  nextID : Nat
  clock : Int
  pass : Option Int
  created : List Handler
  fired : List Firing
  passFired : List Firing
deriving DecidableEq

inductive TimerEvent
  | setTimeoutTimer (createTime waitTime : Int) (callbackFunction : Nat)
  | setPeriodicTimer (createTime waitTime : Int) (callbackFunction : Nat)
  | removeTimer (id : Nat)
  | beginPass (nowTime : Int)
  | pop (i : Nat)
  | endPass
deriving DecidableEq

namespace Timer

/-- A timer whose clock starts at a time. -/
def init (start : Int) : Timer where
  timers := []
  removedTimerID := []
  nextID := 1
  clock := start
  pass := none
  created := []
  fired := []
  passFired := []

def createTimer (s : Timer) (createTime waitTime : Int) (isPeriodic : Bool)
    (callbackFunction : Nat) : Timer :=
  let handler := Handler.createTimer s.nextID createTime waitTime isPeriodic callbackFunction
  { s with
    timers := handler :: s.timers
    nextID := s.nextID + 1
    created := s.created ++ [handler] }

/-- The body of the inner loop for the handler at the top, the `i`-th in the list. -/
def turn (s : Timer) (i : Nat) (timer : Handler) : Timer :=
  if timer.id ∈ s.removedTimerID then
    { s with timers := s.timers.eraseIdx i }
  else
    let firing : Firing := ⟨timer.id, timer.nextTime, timer.callbackFunction⟩
    { s with
      timers :=
        if timer.isPeriodic then timer.updateTimer :: s.timers.eraseIdx i
        else s.timers.eraseIdx i
      fired := s.fired ++ [firing]
      passFired := s.passFired ++ [firing] }

/-- The heap's top is any handler that is due first. -/
def Top (s : Timer) (timer : Handler) : Prop :=
  ∀ h ∈ s.timers, timer.nextTime ≤ h.nextTime

instance (s : Timer) (timer : Handler) : Decidable (s.Top timer) :=
  inferInstanceAs (Decidable (∀ h ∈ s.timers, timer.nextTime ≤ h.nextTime))

def step (s : Timer) (e : TimerEvent) : Option Timer :=
  match e, s.pass with
  | .setTimeoutTimer createTime waitTime callbackFunction, none =>
      some (s.createTimer createTime waitTime false callbackFunction)
  | .setPeriodicTimer createTime waitTime callbackFunction, none =>
      some (s.createTimer createTime waitTime true callbackFunction)
  | .removeTimer id, none => some { s with removedTimerID := s.removedTimerID.insert id }
  | .beginPass nowTime, none =>
      if s.clock ≤ nowTime then
        some { s with clock := nowTime, pass := some nowTime, passFired := [] }
      else
        none
  | .pop i, some nowTime =>
      match s.timers[i]? with
      | none => none
      | some timer =>
          if s.Top timer ∧ timer.nextTime ≤ nowTime then some (s.turn i timer) else none
  | .endPass, some nowTime =>
      if ∀ h ∈ s.timers, nowTime < h.nextTime then some { s with pass := none } else none
  | _, _ => none

def system (start : Int) : System Timer TimerEvent where
  init := init start
  step := step

/-- What a step can be. -/
inductive Moves (s : Timer) : TimerEvent → Timer → Prop
  | setTimeoutTimer {createTime waitTime : Int} {callbackFunction : Nat} (hpass : s.pass = none) :
      Moves s (.setTimeoutTimer createTime waitTime callbackFunction)
        (s.createTimer createTime waitTime false callbackFunction)
  | setPeriodicTimer {createTime waitTime : Int} {callbackFunction : Nat} (hpass : s.pass = none) :
      Moves s (.setPeriodicTimer createTime waitTime callbackFunction)
        (s.createTimer createTime waitTime true callbackFunction)
  | removeTimer {id : Nat} (hpass : s.pass = none) :
      Moves s (.removeTimer id) { s with removedTimerID := s.removedTimerID.insert id }
  | beginPass {nowTime : Int} (hpass : s.pass = none) (hle : s.clock ≤ nowTime) :
      Moves s (.beginPass nowTime)
        { s with clock := nowTime, pass := some nowTime, passFired := [] }
  | pop {i : Nat} {timer : Handler} {nowTime : Int} (hpass : s.pass = some nowTime)
      (hi : s.timers[i]? = some timer) (htop : s.Top timer) (hdue : timer.nextTime ≤ nowTime) :
      Moves s (.pop i) (s.turn i timer)
  | endPass {nowTime : Int} (hpass : s.pass = some nowTime)
      (hend : ∀ h ∈ s.timers, nowTime < h.nextTime) : Moves s .endPass { s with pass := none }

theorem step_moves
    {s t : Timer}
    {e : TimerEvent}
    (h : s.step e = some t) :
    Moves s e t := by
  unfold step at h
  split at h
  case h_1 hpass =>
    obtain rfl := Option.some.inj h
    exact .setTimeoutTimer hpass
  case h_2 hpass =>
    obtain rfl := Option.some.inj h
    exact .setPeriodicTimer hpass
  case h_3 hpass =>
    obtain rfl := Option.some.inj h
    exact .removeTimer hpass
  case h_4 nowTime hpass =>
    split at h
    case isTrue hle =>
      obtain rfl := Option.some.inj h
      exact .beginPass hpass hle
    case isFalse => cases h
  case h_5 i nowTime hpass =>
    cases hi : s.timers[i]? with
    | none => simp [hi] at h
    | some timer =>
        simp only [hi] at h
        split at h
        case isTrue hdue =>
          obtain rfl := Option.some.inj h
          exact .pop hpass hi hdue.1 hdue.2
        case isFalse => cases h
  case h_6 nowTime hpass =>
    split at h
    case isTrue hend =>
      obtain rfl := Option.some.inj h
      exact .endPass hpass hend
    case isFalse => cases h
  case h_7 => cases h

end Timer

/-! ### The law -/

/-- The `k`-th deadline of a timer, as it was created. -/
def Handler.deadline (c : Handler) (k : Nat) : Int :=
  c.lastTime + MILLISECOND + k * (c.waitTime * MILLISECOND)

/-- A timeout timer has one deadline, a periodic one has one for every `k` from 1 on. -/
def Handler.HasDeadline (c : Handler) (k : Nat) : Prop :=
  1 ≤ k ∧ (c.isPeriodic = false → k = 1)

/-- The firing for the `k`-th deadline. -/
def Handler.firing (c : Handler) (k : Nat) : Firing :=
  ⟨c.id, c.deadline k, c.callbackFunction⟩

/-- Fired once for each deadline up to a time, and for nothing else. -/
def Timer.FiredUpTo (s : Timer) (c : Handler) (nowTime : Int) : Prop :=
  (∀ k, c.HasDeadline k → c.deadline k ≤ nowTime → s.fired.count (c.firing k) = 1) ∧
    ∀ f ∈ s.fired, f.id = c.id →
      ∃ k, c.HasDeadline k ∧ c.deadline k ≤ nowTime ∧ f = c.firing k

/-- What holds of every pass, and of every removed timer from then on. -/
structure TimerLaw (start : Int) (s : Timer) : Prop where
  fires : ∀ nowTime t, s.pass = some nowTime → s.step .endPass = some t →
    ∀ c ∈ t.created, c.id ∉ t.removedTimerID → t.FiredUpTo c nowTime
  inOrder : s.passFired.Pairwise fun f g => f.deadline ≤ g.deadline
  left : ∀ nowTime t, s.pass = some nowTime → s.step .endPass = some t →
    ∀ h ∈ t.timers, nowTime < h.nextTime
  removed : ∀ id ∈ s.removedTimerID, ∀ events t,
    (Timer.system start).runFrom s events = some t →
      t.fired.filter (fun f => f.id = id) = s.fired.filter (fun f => f.id = id)

/-- The period of a periodic timer is positive. -/
def PositivePeriod (_ : Timer) : TimerEvent → Prop
  | .setPeriodicTimer _ waitTime _ => 0 < waitTime
  | _ => True

instance (s : Timer) : DecidablePred (PositivePeriod s)
  | .setPeriodicTimer _ waitTime _ => inferInstanceAs (Decidable (0 < waitTime))
  | .setTimeoutTimer _ _ _ => isTrue trivial
  | .removeTimer _ => isTrue trivial
  | .beginPass _ => isTrue trivial
  | .pop _ => isTrue trivial
  | .endPass => isTrue trivial

/-- `create_timer` stays within 64 bits. -/
def CreateFits (createTime waitTime : Int) : Prop :=
  Fits ((waitTime + 1) * MILLISECOND) ∧ Fits (createTime + (waitTime + 1) * MILLISECOND)

instance (createTime waitTime : Int) : Decidable (CreateFits createTime waitTime) :=
  inferInstanceAs (Decidable (_ ∧ _))

/-- The deadlines a step makes fit in 64 bits. -/
def DeadlineFits (s : Timer) : TimerEvent → Prop
  | .setTimeoutTimer createTime waitTime _ => CreateFits createTime waitTime
  | .setPeriodicTimer createTime waitTime _ => CreateFits createTime waitTime
  | .pop i =>
      ∀ timer ∈ s.timers[i]?,
        timer.isPeriodic = true → timer.id ∉ s.removedTimerID → timer.UpdateFits
  | _ => True

instance (s : Timer) : DecidablePred (DeadlineFits s)
  | .setTimeoutTimer createTime waitTime _ =>
      inferInstanceAs (Decidable (CreateFits createTime waitTime))
  | .setPeriodicTimer createTime waitTime _ =>
      inferInstanceAs (Decidable (CreateFits createTime waitTime))
  | .pop i => inferInstanceAs (Decidable (∀ timer ∈ s.timers[i]?, _ → _ → _))
  | .removeTimer _ => isTrue trivial
  | .beginPass _ => isTrue trivial
  | .endPass => isTrue trivial

/-- Positive periods, and deadlines that fit. -/
def Punctual (s : Timer) (e : TimerEvent) : Prop := PositivePeriod s e ∧ DeadlineFits s e

instance (s : Timer) : DecidablePred (Punctual s) := fun _ => inferInstanceAs (Decidable (_ ∧ _))

/-! ### One timer -/

namespace Handler

/-- What `update_timer` leaves alone, after any number of firings. -/
theorem update_frame (c : Handler) (n : Nat) :
    (updateTimer^[n] c).id = c.id ∧ (updateTimer^[n] c).waitTime = c.waitTime ∧
      (updateTimer^[n] c).isPeriodic = c.isPeriodic ∧
      (updateTimer^[n] c).callbackFunction = c.callbackFunction := by
  induction n with
  | zero => exact ⟨rfl, rfl, rfl, rfl⟩
  | succ n ih =>
      rw [Function.iterate_succ_apply']
      exact ih

/-- The deadlines of a timer one after another. -/
theorem nextTime_update
    {c : Handler}
    {n : Nat}
    (h : (updateTimer^[n] c).nextTime = c.deadline (n + 1))
    (hfits : (updateTimer^[n] c).UpdateFits) :
    (updateTimer^[n + 1] c).nextTime = c.deadline (n + 2) := by
  rw [Function.iterate_succ_apply', updateTimer_nextTime hfits, h, period, (update_frame c n).2.1,
    deadline, deadline]
  push_cast
  ring

theorem createTimer_nextTime
    {createTime waitTime : Int}
    (hfits : CreateFits createTime waitTime)
    (id : Nat)
    (isPeriodic : Bool)
    (callbackFunction : Nat) :
    (createTimer id createTime waitTime isPeriodic callbackFunction).nextTime =
      (createTimer id createTime waitTime isPeriodic callbackFunction).deadline 1 := by
  have hmilli : Fits (waitTime + 1) := by
    obtain ⟨⟨hlow, hhigh⟩, -⟩ := hfits
    rw [MILLISECOND] at hlow hhigh
    exact ⟨by omega, by omega⟩
  simp only [createTimer, deadline]
  rw [int64_of_fits hmilli, int64_of_fits hfits.1, int64_of_fits hfits.2]
  push_cast
  ring

theorem deadline_strictMono
    {c : Handler}
    (h : 0 < c.waitTime) :
    StrictMono c.deadline := by
  refine strictMono_nat_of_lt_succ fun k => ?_
  have hperiod : 0 < c.waitTime * MILLISECOND := mul_pos h (by decide)
  simp only [deadline]
  push_cast
  linarith

/-- The firings for the first `n` deadlines. -/
def firings (c : Handler) (n : Nat) : List Firing := (List.range n).map fun k => c.firing (k + 1)

theorem firings_succ (c : Handler) (n : Nat) :
    c.firings (n + 1) = c.firings n ++ [c.firing (n + 1)] := by
  simp [firings, List.range_succ]

theorem mem_firings
    {c : Handler}
    {n : Nat}
    {f : Firing} :
    f ∈ c.firings n ↔ ∃ k, 1 ≤ k ∧ k ≤ n ∧ f = c.firing k := by
  rw [firings, List.mem_map]
  constructor
  · rintro ⟨k, hk, rfl⟩
    exact ⟨k + 1, Nat.le_add_left 1 k, List.mem_range.mp hk, rfl⟩
  · rintro ⟨k, hpos, hle, rfl⟩
    refine ⟨k - 1, List.mem_range.mpr (by omega), ?_⟩
    rw [Nat.sub_add_cancel hpos]

theorem firings_nodup
    {c : Handler}
    {n : Nat}
    (h : n ≤ 1 ∨ 0 < c.waitTime) :
    (c.firings n).Nodup := by
  rcases h with hle | hpositive
  · refine List.Nodup.map_on ?_ List.nodup_range
    intro j hj k hk _
    have hj := List.mem_range.mp hj
    have hk := List.mem_range.mp hk
    omega
  · refine List.nodup_range.map ?_
    intro j k heq
    have hdeadline := (deadline_strictMono hpositive).injective (congrArg Firing.deadline heq)
    exact Nat.succ_injective hdeadline

end Handler

/-! ### The account of firings -/

/-- How far a timer has come that nobody removed: it waits in the heap for its next
deadline, or it was a timeout timer and has been fired. -/
inductive Progress (s : Timer) (c : Handler) : Prop
  | active {n : Nat} (hmem : Handler.updateTimer^[n] c ∈ s.timers)
      (hnext : (Handler.updateTimer^[n] c).nextTime = c.deadline (n + 1))
      (htimeout : c.isPeriodic = false → n = 0)
      (hfired : s.fired.filter (fun f => f.id = c.id) = c.firings n)
  | spent (hnot : c.isPeriodic = false) (hgone : ∀ h ∈ s.timers, h.id ≠ c.id)
      (hfired : s.fired.filter (fun f => f.id = c.id) = c.firings 1)

theorem Progress.frame
    {s t : Timer}
    {c : Handler}
    (h : Progress s c)
    (htimers : t.timers = s.timers)
    (hfired : t.fired = s.fired) :
    Progress t c := by
  cases h with
  | active hmem hnext htimeout hold =>
      exact .active (htimers ▸ hmem) hnext htimeout (hfired ▸ hold)
  | spent hnot hgone hold => exact .spent hnot (htimers ▸ hgone) (hfired ▸ hold)

/-- The invariant of the timer. -/
structure Ticking (s : Timer) : Prop where
  numbered : ∀ c ∈ s.created, c.id < s.nextID
  positive : ∀ c ∈ s.created, c.isPeriodic = true → 0 < c.waitTime
  once : (s.timers.map Handler.id).Nodup
  known : ∀ h ∈ s.timers, h.id < s.nextID ∧ (h.isPeriodic = true → 0 < h.waitTime)
  firedKnown : ∀ f ∈ s.fired, f.id < s.nextID
  progress : ∀ c ∈ s.created, c.id ∉ s.removedTimerID → Progress s c
  past : ∀ f ∈ s.fired, f.deadline ≤ s.clock
  now : ∀ nowTime, s.pass = some nowTime → s.clock = nowTime
  sorted : s.passFired.Pairwise fun f g => f.deadline ≤ g.deadline
  ahead : s.pass ≠ none → ∀ f ∈ s.passFired, ∀ h ∈ s.timers, f.deadline ≤ h.nextTime

namespace Ticking

variable {s t : Timer}

theorem init (start : Int) : Ticking (Timer.init start) := by
  constructor <;> simp [Timer.init]

/-- A timer is set. -/
theorem createTimer
    {createTime waitTime : Int}
    {isPeriodic : Bool}
    {callbackFunction : Nat}
    (h : Ticking s)
    (hpass : s.pass = none)
    (hpositive : isPeriodic = true → 0 < waitTime)
    (hfits : CreateFits createTime waitTime) :
    Ticking (s.createTimer createTime waitTime isPeriodic callbackFunction) := by
  let handler := Handler.createTimer s.nextID createTime waitTime isPeriodic callbackFunction
  have hnew : ∀ c ∈ s.created ++ [handler], c ∈ s.created ∨ c = handler := by
    intro c hc
    rcases List.mem_append.mp hc with hc | hc
    · exact .inl hc
    · exact .inr (List.mem_singleton.mp hc)
  constructor
  · intro c hc
    rcases hnew c hc with hc | rfl
    · exact Nat.lt_succ_of_lt (h.numbered c hc)
    · exact Nat.lt_succ_self _
  · intro c hc
    rcases hnew c hc with hc | rfl
    · exact h.positive c hc
    · exact hpositive
  · refine List.nodup_cons.mpr ⟨?_, h.once⟩
    intro hmem
    obtain ⟨old, hold, hid⟩ := List.mem_map.mp hmem
    exact absurd hid (h.known old hold).1.ne
  · intro c hc
    rcases List.mem_cons.mp hc with rfl | hc
    · exact ⟨Nat.lt_succ_self _, hpositive⟩
    · exact ⟨Nat.lt_succ_of_lt (h.known c hc).1, (h.known c hc).2⟩
  · exact fun f hf => Nat.lt_succ_of_lt (h.firedKnown f hf)
  · intro c hc hremoved
    rcases hnew c hc with hc | rfl
    · cases h.progress c hc hremoved with
      | active hmem hnext htimeout hfired =>
          exact .active (List.mem_cons_of_mem _ hmem) hnext htimeout hfired
      | spent hnot hgone hfired =>
          refine .spent hnot ?_ hfired
          intro old hold
          rcases List.mem_cons.mp hold with rfl | hold
          · exact (h.numbered c hc).ne'
          · exact hgone old hold
    · refine .active (n := 0) List.mem_cons_self ?_ (fun _ => rfl) ?_
      · exact Handler.createTimer_nextTime hfits ..
      refine List.filter_eq_nil_iff.mpr ?_
      intro f hf hid
      exact absurd (of_decide_eq_true hid) (h.firedKnown f hf).ne
  · exact h.past
  · exact h.now
  · exact h.sorted
  · intro hne
    exact absurd hpass hne

/-- The handler at the top is taken off the heap. -/
theorem off_heap
    {i : Nat}
    {timer : Handler}
    (h : Ticking s)
    (hi : s.timers[i]? = some timer) :
    timer ∈ s.timers ∧ (∀ old ∈ s.timers.eraseIdx i, old ∈ s.timers ∧ old.id ≠ timer.id) ∧
      (∀ old ∈ s.timers, old.id ≠ timer.id → old ∈ s.timers.eraseIdx i) ∧
      ((s.timers.eraseIdx i).map Handler.id).Nodup := by
  obtain ⟨hlt, htop⟩ := List.getElem?_eq_some_iff.mp hi
  have hperm : (timer :: s.timers.eraseIdx i).Perm s.timers := by
    rw [← htop]
    exact List.getElem_cons_eraseIdx_perm hlt
  have honce := (hperm.map Handler.id).nodup_iff.mpr h.once
  obtain ⟨hnotin, hrest⟩ := List.nodup_cons.mp honce
  refine ⟨hperm.subset List.mem_cons_self, ?_, ?_, hrest⟩
  · intro old hold
    refine ⟨hperm.subset (List.mem_cons_of_mem _ hold), ?_⟩
    intro hid
    exact hnotin (List.mem_map.mpr ⟨old, hold, hid⟩)
  · intro old hold hid
    rcases List.mem_cons.mp (hperm.symm.subset hold) with rfl | hold
    · exact absurd rfl hid
    · exact hold

/-- A timer that is not at the top goes on as it was. -/
theorem progress_other
    {i : Nat}
    {timer c : Handler}
    (h : Ticking s)
    (hi : s.timers[i]? = some timer)
    (hc : Progress s c)
    (hid : c.id ≠ timer.id)
    (hrest : ∀ old ∈ s.timers.eraseIdx i, old ∈ t.timers)
    (htimers : ∀ old ∈ t.timers, old ∈ s.timers.eraseIdx i ∨ old.id = timer.id)
    (hfired : t.fired.filter (fun f => f.id = c.id) = s.fired.filter (fun f => f.id = c.id)) :
    Progress t c := by
  obtain ⟨-, hback, hkeep, -⟩ := h.off_heap hi
  cases hc with
  | @active n hmem hnext htimeout hold =>
      have hne : (Handler.updateTimer^[n] c).id ≠ timer.id := by
        rw [(Handler.update_frame c n).1]
        exact hid
      exact .active (hrest _ (hkeep _ hmem hne)) hnext htimeout (hfired.trans hold)
  | spent hnot hgone hold =>
      refine .spent hnot ?_ (hfired.trans hold)
      intro old hmem heq
      rcases htimers old hmem with hmem | htop
      · exact hgone old (hback old hmem).1 heq
      · exact hid (heq.symm.trans htop)

/-- The handler at the top was removed. -/
theorem drop
    {i : Nat}
    {timer : Handler}
    (h : Ticking s)
    (hi : s.timers[i]? = some timer)
    (hremoved : timer.id ∈ s.removedTimerID) :
    Ticking { s with timers := s.timers.eraseIdx i } := by
  obtain ⟨-, hback, -, honce⟩ := h.off_heap hi
  constructor
  · exact h.numbered
  · exact h.positive
  · exact honce
  · exact fun old hold => h.known old (hback old hold).1
  · exact h.firedKnown
  · intro c hc hnot
    have hid : c.id ≠ timer.id := by
      intro heq
      exact hnot (heq ▸ hremoved)
    exact h.progress_other hi (h.progress c hc hnot) hid (fun _ hold => hold)
      (fun _ hold => .inl hold) rfl
  · exact h.past
  · exact h.now
  · exact h.sorted
  · exact fun hpass f hf old hold => h.ahead hpass f hf old (hback old hold).1

/-- The handler at the top of the heap is the timer's own. -/
theorem top_eq
    {n : Nat}
    {timer c : Handler}
    (h : Ticking s)
    (hmem : Handler.updateTimer^[n] c ∈ s.timers)
    (htop : timer ∈ s.timers)
    (hid : c.id = timer.id) :
    Handler.updateTimer^[n] c = timer :=
  List.inj_on_of_nodup_map h.once hmem htop ((Handler.update_frame c n).1.trans hid)

/-- What a firing does to the heap. -/
theorem turn_spec
    {i : Nat}
    {timer : Handler}
    (h : Ticking s)
    (hi : s.timers[i]? = some timer)
    (hnot : timer.id ∉ s.removedTimerID) :
    ∃ timers,
      s.turn i timer = { s with
        timers := timers
        fired := s.fired ++ [⟨timer.id, timer.nextTime, timer.callbackFunction⟩]
        passFired := s.passFired ++ [⟨timer.id, timer.nextTime, timer.callbackFunction⟩] } ∧
      (timers.map Handler.id).Nodup ∧
      (∀ old ∈ s.timers.eraseIdx i, old ∈ timers) ∧
      (timer.isPeriodic = true → timer.updateTimer ∈ timers) ∧
      ∀ old ∈ timers, old ∈ s.timers.eraseIdx i ∨
        (timer.isPeriodic = true ∧ old = timer.updateTimer) := by
  obtain ⟨-, hback, -, honce⟩ := h.off_heap hi
  cases hperiodic : timer.isPeriodic with
  | true =>
      refine ⟨timer.updateTimer :: s.timers.eraseIdx i, ?_, ?_, ?_, ?_, ?_⟩
      · rw [Timer.turn, if_neg hnot, if_pos hperiodic]
      · refine List.nodup_cons.mpr ⟨?_, honce⟩
        intro hmem
        obtain ⟨old, hold, hid⟩ := List.mem_map.mp hmem
        exact (hback old hold).2 hid
      · exact fun old hold => List.mem_cons_of_mem _ hold
      · exact fun _ => List.mem_cons_self
      · intro old hold
        rcases List.mem_cons.mp hold with rfl | hold
        · exact .inr ⟨rfl, rfl⟩
        · exact .inl hold
  | false =>
      refine ⟨s.timers.eraseIdx i, ?_, honce, fun _ hold => hold, ?_, fun _ hold => .inl hold⟩
      · rw [Timer.turn, if_neg hnot, if_neg (by simp [hperiodic])]
      · intro htrue
        cases htrue

/-- The timer whose handler is at the top is one firing further. -/
theorem progress_top
    {timer c : Handler}
    (h : Ticking s)
    (hmem : timer ∈ s.timers)
    (hfits : timer.isPeriodic = true → timer.UpdateFits)
    (hc : Progress s c)
    (hid : c.id = timer.id)
    (htimers : timer.isPeriodic = true → timer.updateTimer ∈ t.timers)
    (hgone : timer.isPeriodic = false → ∀ old ∈ t.timers, old.id ≠ timer.id)
    (hfired : t.fired = s.fired ++ [⟨timer.id, timer.nextTime, timer.callbackFunction⟩]) :
    Progress t c := by
  cases hc with
  | spent _ hnone => exact absurd hid.symm (hnone timer hmem)
  | @active n hactive hnow htimeout hold =>
      obtain rfl := h.top_eq hactive hmem hid
      obtain ⟨hsame, -, hperiod, hcallback⟩ := Handler.update_frame c n
      have hlast : t.fired.filter (fun f => f.id = c.id) = c.firings (n + 1) := by
        rw [hfired, List.filter_append, hold, Handler.firings_succ, Handler.firing, hsame,
          hcallback, hnow]
        simp
      cases hcase : c.isPeriodic with
      | true =>
          have hperiodic := hperiod.trans hcase
          refine .active (n := n + 1) ?_ (Handler.nextTime_update hnow (hfits hperiodic))
            (fun hfalse => by simp [hcase] at hfalse) hlast
          rw [Function.iterate_succ_apply']
          exact htimers hperiodic
      | false =>
          obtain rfl := htimeout hcase
          exact .spent hcase (fun old hmem heq => hgone hcase old hmem heq) hlast

/-- The handler at the top is fired, and waits for its next deadline if there is one. -/
theorem fire
    {i : Nat}
    {timer : Handler}
    {nowTime : Int}
    (h : Ticking s)
    (hi : s.timers[i]? = some timer)
    (hpass : s.pass = some nowTime)
    (htop : s.Top timer)
    (hdue : timer.nextTime ≤ nowTime)
    (hnot : timer.id ∉ s.removedTimerID)
    (hfits : timer.isPeriodic = true → timer.UpdateFits) :
    Ticking (s.turn i timer) := by
  obtain ⟨hmem, hback, -, -⟩ := h.off_heap hi
  obtain ⟨hknown, hpositive⟩ := h.known timer hmem
  obtain ⟨timers, hturn, honce, hrest, hnext, htimers⟩ := h.turn_spec hi hnot
  -- the next deadline of the timer is not before this one
  have hlater : ∀ old ∈ timers, timer.nextTime ≤ old.nextTime := by
    intro old hold
    rcases htimers old hold with hold | ⟨hperiodic, rfl⟩
    · exact htop old (hback old hold).1
    · have hperiod : 0 < timer.period := mul_pos (hpositive hperiodic) (by decide)
      rw [Handler.updateTimer_nextTime (hfits hperiodic)]
      linarith
  have hsplit : ∀ {f : Firing} {l : List Firing},
      f ∈ l ++ [⟨timer.id, timer.nextTime, timer.callbackFunction⟩] →
        f ∈ l ∨ f = ⟨timer.id, timer.nextTime, timer.callbackFunction⟩ := by
    intro f l hf
    rcases List.mem_append.mp hf with hf | hf
    · exact .inl hf
    · exact .inr (List.mem_singleton.mp hf)
  rw [hturn]
  constructor
  · exact h.numbered
  · exact h.positive
  · exact honce
  · intro old hold
    rcases htimers old hold with hold | ⟨-, rfl⟩
    · exact h.known old (hback old hold).1
    · exact ⟨hknown, hpositive⟩
  · intro f hf
    rcases hsplit hf with hf | rfl
    · exact h.firedKnown f hf
    · exact hknown
  · intro c hc hremoved
    by_cases hid : c.id = timer.id
    · refine h.progress_top hmem hfits (h.progress c hc hremoved) hid hnext ?_ rfl
      intro htimeout old hold
      rcases htimers old hold with hold | ⟨hperiodic, -⟩
      · exact (hback old hold).2
      · rw [htimeout] at hperiodic
        cases hperiodic
    · refine h.progress_other hi (h.progress c hc hremoved) hid hrest ?_ ?_
      · intro old hold
        rcases htimers old hold with hold | ⟨-, rfl⟩
        · exact .inl hold
        · exact .inr rfl
      · simp [List.filter_append, Ne.symm hid]
  · intro f hf
    rcases hsplit hf with hf | rfl
    · exact h.past f hf
    · exact hdue.trans_eq (h.now nowTime hpass).symm
  · exact h.now
  · refine List.pairwise_append.mpr ⟨h.sorted, List.pairwise_singleton _ _, ?_⟩
    intro f hf g hg
    rw [List.mem_singleton.mp hg]
    exact h.ahead (by simp [hpass]) f hf timer hmem
  · intro hne f hf old hold
    rcases hsplit hf with hf | rfl
    · exact (h.ahead hne f hf timer hmem).trans (hlater old hold)
    · exact hlater old hold

/-- Every step keeps the account. -/
theorem step
    {e : TimerEvent}
    (h : Ticking s)
    (hok : Punctual s e)
    (hstep : s.step e = some t) :
    Ticking t := by
  cases Timer.step_moves hstep with
  | setTimeoutTimer hpass => exact h.createTimer hpass (fun hfalse => by cases hfalse) hok.2
  | setPeriodicTimer hpass => exact h.createTimer hpass (fun _ => hok.1) hok.2
  | removeTimer hpass =>
      refine { h with progress := ?_ }
      intro c hc hnot
      exact (h.progress c hc fun hold => hnot (List.mem_insert_of_mem hold)).frame rfl rfl
  | beginPass hpass hle =>
      refine { h with progress := ?_, past := ?_, now := ?_, sorted := .nil, ahead := ?_ }
      · exact fun c hc hnot => (h.progress c hc hnot).frame rfl rfl
      · exact fun f hf => (h.past f hf).trans hle
      · exact fun _ heq => Option.some.inj heq
      · exact fun _ f hf => absurd hf List.not_mem_nil
  | @pop i timer nowTime hpass hi htop hdue =>
      by_cases hremoved : timer.id ∈ s.removedTimerID
      · rw [Timer.turn, if_pos hremoved]
        exact h.drop hi hremoved
      · exact h.fire hi hpass htop hdue hremoved fun hperiodic => hok.2 timer hi hperiodic hremoved
  | endPass hpass hend =>
      refine { h with progress := ?_, now := ?_, ahead := ?_ }
      · exact fun c hc hnot => (h.progress c hc hnot).frame rfl rfl
      · exact fun _ heq => by cases heq
      · exact fun hne => absurd rfl hne

/-- A timer that was fired for its first `n` deadlines was fired up to a time, if the
last of them is not later and the next one is. -/
theorem firedUpTo
    {c : Handler}
    {nowTime : Int}
    {n : Nat}
    (hfired : s.fired.filter (fun f => f.id = c.id) = c.firings n)
    (hpast : ∀ f ∈ s.fired, f.deadline ≤ nowTime)
    (hnodup : n ≤ 1 ∨ 0 < c.waitTime)
    (htimeout : c.isPeriodic = false → n ≤ 1)
    (hnext : ∀ k, c.HasDeadline k → c.deadline k ≤ nowTime → k ≤ n) :
    s.FiredUpTo c nowTime := by
  constructor
  · intro k hk hdue
    have hmem : c.firing k ∈ c.firings n :=
      Handler.mem_firings.mpr ⟨k, hk.1, hnext k hk hdue, rfl⟩
    have hcount : (s.fired.filter (fun f => f.id = c.id)).count (c.firing k) =
        s.fired.count (c.firing k) :=
      List.count_filter (decide_eq_true rfl)
    rw [← hcount, hfired]
    exact List.count_eq_one_of_mem (Handler.firings_nodup hnodup) hmem
  · intro f hf hid
    have hmem : f ∈ s.fired.filter (fun f => f.id = c.id) :=
      List.mem_filter.mpr ⟨hf, decide_eq_true hid⟩
    rw [hfired] at hmem
    obtain ⟨k, hpos, hle, rfl⟩ := Handler.mem_firings.mp hmem
    refine ⟨k, ⟨hpos, fun hfalse => ?_⟩, hpast _ hf, rfl⟩
    have hn := htimeout hfalse
    omega

/-- Every timer nobody removed, when nothing is left that is due. -/
theorem fires
    {c : Handler}
    {nowTime : Int}
    (h : Ticking s)
    (hpass : s.pass = some nowTime)
    (hend : ∀ old ∈ s.timers, nowTime < old.nextTime)
    (hc : c ∈ s.created)
    (hnot : c.id ∉ s.removedTimerID) :
    s.FiredUpTo c nowTime := by
  have hpast : ∀ f ∈ s.fired, f.deadline ≤ nowTime := by
    intro f hf
    exact (h.past f hf).trans_eq (h.now nowTime hpass)
  cases h.progress c hc hnot with
  | @active n hmem hdeadline htimeout hfired =>
      have hnext := hend _ hmem
      rw [hdeadline] at hnext
      cases hperiodic : c.isPeriodic with
      | true =>
          have hpositive := h.positive c hc hperiodic
          refine firedUpTo hfired hpast (.inr hpositive) (by simp [hperiodic]) ?_
          intro k _ hdue
          by_contra hlt
          have hmono := (Handler.deadline_strictMono hpositive).monotone
            (show n + 1 ≤ k by omega)
          linarith
      | false =>
          obtain rfl := htimeout hperiodic
          refine firedUpTo hfired hpast (.inl (Nat.zero_le 1)) (fun _ => Nat.zero_le 1) ?_
          intro k hk hdue
          rw [hk.2 hperiodic] at hdue
          exact absurd hdue (not_le.mpr hnext)
  | spent hfalse _ hfired =>
      exact firedUpTo hfired hpast (.inl le_rfl) (fun _ => le_rfl)
        fun k hk _ => (hk.2 hfalse).le

end Ticking

/-- A removed timer stays removed, and is not fired. -/
theorem Timer.step_removed
    {s t : Timer}
    {e : TimerEvent}
    {id : Nat}
    (hid : id ∈ s.removedTimerID)
    (hstep : s.step e = some t) :
    id ∈ t.removedTimerID ∧
      t.fired.filter (fun f => f.id = id) = s.fired.filter (fun f => f.id = id) := by
  cases Timer.step_moves hstep with
  | setTimeoutTimer => exact ⟨hid, rfl⟩
  | setPeriodicTimer => exact ⟨hid, rfl⟩
  | removeTimer => exact ⟨List.mem_insert_of_mem hid, rfl⟩
  | beginPass => exact ⟨hid, rfl⟩
  | @pop i timer nowTime hpass hi htop hdue =>
      by_cases hremoved : timer.id ∈ s.removedTimerID
      · rw [turn, if_pos hremoved]
        exact ⟨hid, rfl⟩
      · have hne : timer.id ≠ id := fun heq => hremoved (heq ▸ hid)
        rw [turn, if_neg hremoved]
        exact ⟨hid, by simp [List.filter_append, hne]⟩
  | endPass => exact ⟨hid, rfl⟩

theorem Timer.run_removed
    {start : Int}
    {s t : Timer}
    {id : Nat}
    {events : List TimerEvent}
    (hid : id ∈ s.removedTimerID)
    (hrun : (Timer.system start).runFrom s events = some t) :
    t.fired.filter (fun f => f.id = id) = s.fired.filter (fun f => f.id = id) := by
  induction events generalizing s with
  | nil =>
      obtain rfl : s = t := Option.some.inj hrun
      rfl
  | cons e events ih =>
      obtain ⟨next, hstep, hrest⟩ := System.runFrom_cons.mp hrun
      obtain ⟨hkept, hsame⟩ := Timer.step_removed hid hstep
      exact (ih hkept hrest).trans hsame

theorem Ticking.of_reachable
    {start : Int}
    {s : Timer}
    (h : (Timer.system start).Reachable Punctual s) :
    Ticking s :=
  h.invariant (Ticking.init start) fun _ _ _ hs hok hstep => hs.step hok hstep

/-- **The firing law**, in runs whose deadlines fit. -/
theorem timers_fire
    (start : Int)
    (s : Timer)
    (h : (Timer.system start).Reachable Punctual s) :
    TimerLaw start s := by
  have hticking : Ticking s := .of_reachable h
  constructor
  · intro nowTime t hpass hstep c hc hnot
    cases Timer.step_moves hstep with
    | endPass hpass' hend =>
        obtain rfl := Option.some.inj (hpass.symm.trans hpass')
        exact hticking.fires hpass hend hc hnot
  · exact hticking.sorted
  · intro nowTime t hpass hstep
    cases Timer.step_moves hstep with
    | endPass hpass' hend =>
        obtain rfl := Option.some.inj (hpass.symm.trans hpass')
        exact hend
  · intro id hid events t hrun
    exact Timer.run_removed hid hrun

/-- At 7 ms a pass has caught up with a periodic timer of 2 ms, a timeout timer of 4 ms
that falls due with its second deadline, and a removed timer. -/
def caughtUp : Timer where
  timers := [⟨1, 7, 7000000, 9000000, 2, true⟩]
  removedTimerID := [3]
  nextID := 4
  clock := 7000000
  pass := some 7000000
  created :=
    [⟨1, 7, 0, 3000000, 2, true⟩, ⟨2, 8, 0, 5000000, 4, false⟩, ⟨3, 9, 0, 2000000, 1, false⟩]
  fired := [⟨1, 3000000, 7⟩, ⟨1, 5000000, 7⟩, ⟨2, 5000000, 8⟩, ⟨1, 7000000, 7⟩]
  passFired := [⟨1, 3000000, 7⟩, ⟨1, 5000000, 7⟩, ⟨2, 5000000, 8⟩, ⟨1, 7000000, 7⟩]

theorem caughtUp_fires : TimerLaw 0 caughtUp := by
  let events : List TimerEvent :=
    [.setPeriodicTimer 0 2 7, .setTimeoutTimer 0 4 8, .setTimeoutTimer 0 1 9, .removeTimer 3,
      .beginPass 7000000, .pop 0, .pop 1, .pop 0, .pop 1, .pop 0]
  have hrun : (Timer.system 0).runFrom (Timer.system 0).init events = some caughtUp := by
    decide
  have hok : (Timer.system 0).Every Punctual (Timer.system 0).init events := by
    decide
  exact timers_fire 0 caughtUp (hok.reachable .init hrun)

/-- A timeout timer set at 0 for `milliseconds::max()`, fired by a pass at 0: the millisecond
that is added takes the waiting time round to the least one, whose nanoseconds are none. -/
def firedAtOnce : Timer where
  timers := []
  removedTimerID := []
  nextID := 2
  clock := 0
  pass := some 0
  created := [⟨1, 7, 0, 0, 2 ^ 63 - 1, false⟩]
  fired := [⟨1, 0, 7⟩]
  passFired := [⟨1, 0, 7⟩]

theorem longest_wait_fires_at_once :
    ¬ ∀ (start : Int) (s : Timer),
      (Timer.system start).Reachable PositivePeriod s → TimerLaw start s := by
  intro h
  let events : List TimerEvent := [.setTimeoutTimer 0 (2 ^ 63 - 1) 7, .beginPass 0, .pop 0]
  have hrun : (Timer.system 0).runFrom (Timer.system 0).init events = some firedAtOnce := by
    decide
  have hok : (Timer.system 0).Every PositivePeriod (Timer.system 0).init events := by
    decide
  have hlaw := h 0 firedAtOnce (hok.reachable .init hrun)
  have hend : firedAtOnce.step .endPass = some { firedAtOnce with pass := none } := by
    decide
  have hcreated := hlaw.fires 0 _ rfl hend ⟨1, 7, 0, 0, 2 ^ 63 - 1, false⟩ List.mem_cons_self
    List.not_mem_nil
  -- the one deadline is 2 ^ 63 milliseconds away
  obtain ⟨k, hk, hdue, -⟩ := hcreated.2 ⟨1, 0, 7⟩ List.mem_cons_self rfl
  rw [hk.2 rfl] at hdue
  exact absurd hdue (by decide)

end Core
end ZeroRPC
