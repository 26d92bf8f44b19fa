import ZeroRPC.Core.Buffer
import ZeroRPC.Core.Timer
import ZeroRPC.Library.Loop
import ZeroRPC.Library.Slots

/-!
# When the inner loop of a timer ends

A pass of `Timer::run` reads the clock once and takes what is due off the heap, one handler
after another.  A periodic handler goes back with its next deadline, which is one period
later, and may be due again.  Any period is accepted, also zero or a negative one.  A
deadline or a period in nanoseconds that needs more than 64 bits overflows, which is not
defined.

Main facts:
* `lag_turn`: an iteration brings what is due forward;
* `innerTurn_pops`: an iteration is a step of the timer inside its pass;
* `settles_turn_iff`: an iteration leaves it as it is whether everything due can catch up;
* `inner_loop_ends_iff`: the loop ends exactly when every periodic timer that is due, and
  not removed, has a positive period and defined deadlines up to the first later one.
-/

namespace ZeroRPC
namespace Core

open Library

namespace Handler

/-- With a positive period, and every deadline up to the first one after the reading of the
clock defined. -/
def CatchesUp (h : Handler) (nowTime : Int) : Prop :=
  0 < h.waitTime ∧ Fits h.period ∧
    ∀ k : Nat, h.nextTime + k * h.period ≤ nowTime → Fits (h.nextTime + (k + 1) * h.period)

/-- If the handler is due, and will be due again, then it catches up. -/
def Settles (h : Handler) (removedTimerID : List Nat) (nowTime : Int) : Prop :=
  h.nextTime ≤ nowTime → h.id ∉ removedTimerID → h.isPeriodic = true → h.CatchesUp nowTime

end Handler

/-! ### The loop -/

/-- Which handler is at the top of `_timers`, for every content: one that is due first. -/
structure HeapTop where
  index : Timer → Nat
  first : ∀ s, s.timers ≠ [] → ∃ timer, s.timers[index s]? = some timer ∧ s.Top timer

/-- There is always such a handler, for example the one that comes first in the list. -/
def HeapTop.least : HeapTop where
  index s := s.timers.findIdx fun h => s.Top h
  first s hne := by
    obtain ⟨timer, hmem, hfirst⟩ := s.timers.toFinset.exists_min_image Handler.nextTime
      (List.toFinset_nonempty_iff _ |>.mpr hne)
    have hlt : s.timers.findIdx (fun h => s.Top h) < s.timers.length := by
      refine List.findIdx_lt_length_of_exists ⟨timer, List.mem_toFinset.mp hmem, ?_⟩
      exact decide_eq_true fun h hh => hfirst h (List.mem_toFinset.mpr hh)
    exact ⟨_, List.getElem?_eq_getElem hlt, of_decide_eq_true (List.findIdx_getElem (w := hlt))⟩

/-- The body of the inner loop. -/
def innerTurn (top : HeapTop) (s : Timer) : Except Fault Timer :=
  match s.timers[top.index s]? with
  | none => .error .undefined
  | some timer =>
      if timer.isPeriodic = true ∧ timer.id ∉ s.removedTimerID ∧ ¬ timer.UpdateFits then
        .error .undefined
      else
        .ok (s.turn (top.index s) timer)

/-- `_timers.empty() || nowTime < _timers.top()._next_time`. -/
def NothingDue (nowTime : Int) (s : Timer) : Prop := ∀ h ∈ s.timers, nowTime < h.nextTime

/-- The inner loop of a pass stops after finitely many iterations. -/
def InnerLoopEnds (top : HeapTop) (nowTime : Int) (s : Timer) : Prop :=
  Ends (innerTurn top) (NothingDue nowTime) (fun _ => False) s

/-! ### One handler -/

namespace Handler

variable {h : Handler} {nowTime : Int}

/-- Fired once, a handler that is due has one deadline less to catch up with. -/
theorem catchesUp_update
    (hdue : h.nextTime ≤ nowTime)
    (hfits : h.UpdateFits) :
    h.CatchesUp nowTime ↔
      (h.updateTimer.nextTime ≤ nowTime → h.updateTimer.CatchesUp nowTime) := by
  have hnext := updateTimer_nextTime hfits
  have hsame : h.updateTimer.period = h.period := rfl
  have hone : Fits (h.nextTime + ((0 : Nat) + 1) * h.period) := by
    rw [Nat.cast_zero, zero_add, one_mul]
    exact hfits.2
  constructor
  · rintro ⟨hpositive, hperiod, hall⟩ -
    refine ⟨hpositive, hperiod, fun k hk => ?_⟩
    have hk' : h.nextTime + (k + 1 : Nat) * h.period ≤ nowTime := by
      rw [hnext, hsame] at hk
      push_cast
      linarith
    have hfit := hall (k + 1) hk'
    push_cast at hfit
    rwa [hnext, hsame, show h.nextTime + h.period + (k + 1) * h.period =
      h.nextTime + (k + 1 + 1) * h.period by ring]
  · intro hlater
    by_cases hagain : h.updateTimer.nextTime ≤ nowTime
    · obtain ⟨hpositive, -, hall⟩ := hlater hagain
      refine ⟨hpositive, hfits.1, fun k hk => ?_⟩
      cases k with
      | zero => exact hone
      | succ k =>
          push_cast at hk ⊢
          have hfit := hall k (by rw [hnext, hsame]; linarith)
          rwa [hnext, hsame, show h.nextTime + h.period + (k + 1) * h.period =
            h.nextTime + (k + 1 + 1) * h.period by ring] at hfit
    · -- the next deadline is after the reading of the clock
      rw [hnext] at hagain
      have hperiod : 0 < h.period := by linarith
      have hpositive : 0 < h.waitTime := pos_of_mul_pos_left hperiod (by decide)
      refine ⟨hpositive, hfits.1, fun k hk => ?_⟩
      cases k with
      | zero => exact hone
      | succ k =>
          have hmore : 0 ≤ k * h.period := mul_nonneg (by positivity) hperiod.le
          push_cast at hk
          linarith

/-- The next deadline is defined. -/
theorem CatchesUp.updateFits
    (hcatches : h.CatchesUp nowTime)
    (hdue : h.nextTime ≤ nowTime) :
    h.UpdateFits := by
  obtain ⟨-, hperiod, hall⟩ := hcatches
  refine ⟨hperiod, ?_⟩
  have hfit := hall 0 (by push_cast; linarith)
  rwa [Nat.cast_zero, zero_add, one_mul] at hfit

/-- How far a deadline is behind. -/
def lag (h : Handler) (nowTime : Int) : Nat := (nowTime + 1 - h.nextTime).toNat

theorem lag_pos
    (hdue : h.nextTime ≤ nowTime) :
    0 < h.lag nowTime := by
  rw [lag]
  omega

theorem lag_update
    (hdue : h.nextTime ≤ nowTime)
    (hpositive : 0 < h.waitTime)
    (hfits : h.UpdateFits) :
    h.updateTimer.lag nowTime < h.lag nowTime := by
  have hperiod : 0 < h.period := mul_pos hpositive (by decide)
  rw [lag, lag, updateTimer_nextTime hfits]
  omega

end Handler

/-! ### One iteration -/

section Turn

variable {s : Timer} {i : Nat} {timer : Handler}

/-- The handlers after an iteration. -/
theorem turn_timers :
    (s.turn i timer).timers =
      if timer.isPeriodic = true ∧ timer.id ∉ s.removedTimerID then
        timer.updateTimer :: s.timers.eraseIdx i
      else
        s.timers.eraseIdx i := by
  unfold Timer.turn
  by_cases hremoved : timer.id ∈ s.removedTimerID
  · rw [if_pos hremoved, if_neg (by tauto)]
  · rw [if_neg hremoved]
    simp only [hremoved, not_false_eq_true, and_true]

theorem turn_removedTimerID : (s.turn i timer).removedTimerID = s.removedTimerID := by
  unfold Timer.turn
  split <;> rfl

/-- Every handler that is due and comes back can catch up. -/
def AllSettle (nowTime : Int) (s : Timer) : Prop :=
  ∀ h ∈ s.timers, h.Settles s.removedTimerID nowTime

/-- An iteration leaves it so, or not so. -/
theorem settles_turn_iff
    {nowTime : Int}
    (hi : s.timers[i]? = some timer)
    (hdue : timer.nextTime ≤ nowTime)
    (hdefined : timer.isPeriodic = true → timer.id ∉ s.removedTimerID → timer.UpdateFits) :
    AllSettle nowTime s ↔ AllSettle nowTime (s.turn i timer) := by
  have hheap : AllSettle nowTime s ↔ timer.Settles s.removedTimerID nowTime ∧
      ∀ h ∈ s.timers.eraseIdx i, h.Settles s.removedTimerID nowTime := by
    refine Iff.trans ?_
      (List.forall_mem_cons (p := fun h : Handler => h.Settles s.removedTimerID nowTime))
    exact forall_congr' fun _ => imp_congr_left (Slots.perm_eraseIdx hi).mem_iff
  rw [hheap, AllSettle, turn_removedTimerID, turn_timers]
  by_cases hback : timer.isPeriodic = true ∧ timer.id ∉ s.removedTimerID
  · obtain ⟨hperiodic, hnot⟩ := hback
    rw [if_pos ⟨hperiodic, hnot⟩, List.forall_mem_cons]
    refine and_congr_left fun _ => ?_
    have hiff := Handler.catchesUp_update hdue (hdefined hperiodic hnot)
    constructor
    · intro hsettles hagain _ _
      exact hiff.mp (hsettles hdue hnot hperiodic) hagain
    · intro hsettles _ _ _
      exact hiff.mpr fun hagain => hsettles hagain hnot hperiodic
  · rw [if_neg hback]
    refine and_iff_right ?_
    intro _ hnot hperiodic
    exact absurd ⟨hperiodic, hnot⟩ hback

/-- How far everything on the heap is behind. -/
def Timer.lag (s : Timer) (nowTime : Int) : Nat := (s.timers.map fun h => h.lag nowTime).sum

/-- An iteration brings the handler at the top forward, or takes it away. -/
theorem lag_turn
    {nowTime : Int}
    (hi : s.timers[i]? = some timer)
    (hdue : timer.nextTime ≤ nowTime)
    (hcatches : timer.isPeriodic = true → timer.id ∉ s.removedTimerID →
      timer.CatchesUp nowTime) :
    (s.turn i timer).lag nowTime < s.lag nowTime := by
  have hheap : s.lag nowTime =
      timer.lag nowTime + ((s.timers.eraseIdx i).map fun h => h.lag nowTime).sum := by
    rw [Timer.lag, ((Slots.perm_eraseIdx hi).map _).sum_eq, List.map_cons, List.sum_cons]
  rw [hheap, Timer.lag, turn_timers]
  by_cases hback : timer.isPeriodic = true ∧ timer.id ∉ s.removedTimerID
  · have hcatch := hcatches hback.1 hback.2
    have hless := Handler.lag_update hdue hcatch.1 (hcatch.updateFits hdue)
    rw [if_pos hback, List.map_cons, List.sum_cons]
    omega
  · have hpos := Handler.lag_pos hdue
    rw [if_neg hback]
    omega

end Turn

/-! ### The loop ends -/

section Loop

variable {top : HeapTop} {nowTime : Int} {s t : Timer}

/-- An iteration that is defined takes the handler at the top. -/
theorem innerTurn_ok
    (h : innerTurn top s = .ok t) :
    ∃ timer, s.timers[top.index s]? = some timer ∧ t = s.turn (top.index s) timer ∧
      (timer.isPeriodic = true → timer.id ∉ s.removedTimerID → timer.UpdateFits) := by
  unfold innerTurn at h
  split at h
  · cases h
  case h_2 timer hi =>
    split at h
    · cases h
    case isFalse hdefined =>
      cases h
      exact ⟨timer, hi, rfl, by tauto⟩

/-- When something is due, the handler at the top is. -/
theorem top_due
    (top : HeapTop)
    (hdue : ¬ NothingDue nowTime s) :
    ∃ timer, s.timers[top.index s]? = some timer ∧ s.Top timer ∧ timer.nextTime ≤ nowTime := by
  unfold NothingDue at hdue
  push Not at hdue
  obtain ⟨h, hmem, hle⟩ := hdue
  obtain ⟨timer, hi, hfirst⟩ := top.first s (List.ne_nil_of_mem hmem)
  exact ⟨timer, hi, hfirst, (hfirst h hmem).trans hle⟩

/-- **An iteration is a pop of the timer**, whatever is at the top. -/
theorem innerTurn_pops
    (hpass : s.pass = some nowTime)
    (hdue : ¬ NothingDue nowTime s)
    (h : innerTurn top s = .ok t) :
    s.step (.pop (top.index s)) = some t := by
  obtain ⟨timer, hi, rfl, -⟩ := innerTurn_ok h
  obtain ⟨timer', hi', hfirst, hle⟩ := top_due top hdue
  obtain rfl := Option.some.inj (hi.symm.trans hi')
  simp only [Timer.step, hpass, hi]
  exact if_pos ⟨hfirst, hle⟩

theorem ends_of_allSettle
    (h : AllSettle nowTime s) :
    InnerLoopEnds top nowTime s := by
  refine Ends.of_measure (I := AllSettle nowTime) (fun s => s.lag nowTime) ?_ h
  intro s hs hinside
  obtain ⟨timer, hi, -, hdue⟩ := top_due top hinside
  have hmem : timer ∈ s.timers := List.mem_of_getElem? hi
  have hcatches : timer.isPeriodic = true → timer.id ∉ s.removedTimerID →
      timer.CatchesUp nowTime := fun hperiodic hnot => hs timer hmem hdue hnot hperiodic
  have hdefined : timer.isPeriodic = true → timer.id ∉ s.removedTimerID → timer.UpdateFits :=
    fun hperiodic hnot => (hcatches hperiodic hnot).updateFits hdue
  refine ⟨s.turn (top.index s) timer, ?_, (settles_turn_iff hi hdue hdefined).mp hs, ?_⟩
  · unfold innerTurn
    rw [hi]
    exact if_neg (by tauto)
  · exact lag_turn hi hdue hcatches

theorem allSettle_of_ends
    (h : InnerLoopEnds top nowTime s) :
    AllSettle nowTime s := by
  induction h with
  | outside hout => exact fun h hmem hdue => absurd hdue (not_le.mpr (hout h hmem))
  | raised _ hfalse => exact hfalse.elim
  | @next s t hstep _ ih =>
      by_cases hinside : NothingDue nowTime s
      · exact fun h hmem hdue => absurd hdue (not_le.mpr (hinside h hmem))
      · obtain ⟨timer, hi, rfl, hdefined⟩ := innerTurn_ok hstep
        obtain ⟨timer', hi', -, hdue⟩ := top_due top hinside
        obtain rfl := Option.some.inj (hi.symm.trans hi')
        exact (settles_turn_iff hi hdue hdefined).mpr ih

end Loop

/-- **The inner loop ends** exactly when every periodic timer that is due and not removed has
a positive period, and defined deadlines up to the first one after the reading of the clock. -/
theorem inner_loop_ends_iff
    (top : HeapTop)
    (nowTime : Int)
    (s : Timer) :
    InnerLoopEnds top nowTime s ↔
      ∀ h ∈ s.timers, h.nextTime ≤ nowTime → h.id ∉ s.removedTimerID → h.isPeriodic = true →
        h.CatchesUp nowTime :=
  ⟨allSettle_of_ends, ends_of_allSettle⟩

/-- A periodic timer with no waiting time, set at 0: once it is due, at 1 ms, the loop goes on
for ever. -/
theorem zero_period_never_ends :
    ¬ InnerLoopEnds .least MILLISECOND ((Timer.init 0).createTimer 0 0 true 7) := by
  intro hends
  have hsettles := allSettle_of_ends hends
  have hcatches : Handler.CatchesUp ⟨1, 7, 0, 1000000, 0, true⟩ MILLISECOND :=
    hsettles _ List.mem_cons_self (by decide) List.not_mem_nil rfl
  exact absurd hcatches.1 (lt_irrefl 0)

end Core
end ZeroRPC
