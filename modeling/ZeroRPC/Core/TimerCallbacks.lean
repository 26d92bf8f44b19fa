import ZeroRPC.Core.Timer

/-!
# Callbacks that use the timer

Without an executor of its own a `Timer` calls the callbacks in the thread of `run`, inside
a pass, which holds `_timer_lock`.  A callback may set and remove timers, as other threads
may, and each such call takes the lock, which is not recursive.  What a callback calls may
be different each time.

Main facts:
* `locksTwice_forever`: a thread that waits for the lock it holds waits for ever, and with it
  everybody else;
* `no_lock_twice_iff`: in a run nobody waits so exactly when no callback that is called
  uses the timer.
-/

namespace ZeroRPC
namespace Core

open Library

/-- A call of the interface that takes `_timer_lock`. -/
inductive TimerCall
  | setTimeoutTimer (waitTime : Int) (callbackFunction : Nat)
  | setPeriodicTimer (waitTime : Int) (callbackFunction : Nat)
  | removeTimer (id : Nat)
deriving DecidableEq

/-- The call, with the reading of the clock that `create_timer` makes before it locks. -/
def Timer.perform (s : Timer) (createTime : Int) : TimerCall → Timer
  | .setTimeoutTimer waitTime callbackFunction =>
      s.createTimer createTime waitTime false callbackFunction
  | .setPeriodicTimer waitTime callbackFunction =>
      s.createTimer createTime waitTime true callbackFunction
  | .removeTimer id => { s with removedTimerID := s.removedTimerID.insert id }

/-- A timer with the default executor.  `callback` is the handler whose callback the thread
of `run` is in, and the calls that the callback has still to make. -/
structure InlineTimer where
  timer : Timer
  running : Bool
  inRun : Bool
  callback : Option (Handler × List TimerCall)
deriving DecidableEq

/-- `outside` is a call by another thread.  `pop` comes with the calls that the callback
makes this time. -/
inductive InlineEvent
  | outside (call : TimerCall) (createTime : Int)
  | stop
  | run
  | beginPass (nowTime : Int)
  | pop (i : Nat) (calls : List TimerCall)
  | call (createTime : Int)
  | returns
  | endPass
  | leave
deriving DecidableEq

namespace InlineTimer

/-- A new `Timer()`. -/
def init (start : Int) : InlineTimer where
  timer := .init start
  running := true
  inRun := false
  callback := none

/-- The handler at the top goes off the heap; unless it was removed, its callback is called. -/
def pop (s : InlineTimer) (i : Nat) (timer : Handler) (calls : List TimerCall) : InlineTimer :=
  let rest := { s.timer with timers := s.timer.timers.eraseIdx i }
  if timer.id ∈ s.timer.removedTimerID then
    { s with timer := rest }
  else
    let firing : Firing := ⟨timer.id, timer.nextTime, timer.callbackFunction⟩
    { s with
      timer := { rest with
        fired := s.timer.fired ++ [firing]
        passFired := s.timer.passFired ++ [firing] }
      callback := some (timer, calls) }

/-- After the callback, a periodic handler goes back. -/
def returns (s : InlineTimer) (timer : Handler) : InlineTimer :=
  { s with
    timer :=
      if timer.isPeriodic then { s.timer with timers := timer.updateTimer :: s.timer.timers }
      else s.timer
    callback := none }

def step (s : InlineTimer) : InlineEvent → Option InlineTimer
  | .outside call createTime =>
      if s.timer.pass = none then some { s with timer := s.timer.perform createTime call } else none
  | .stop => some { s with running := false }
  | .run => if s.inRun then none else some { s with inRun := true }
  | .beginPass nowTime =>
      if s.inRun ∧ s.running ∧ s.timer.pass = none ∧ s.timer.clock ≤ nowTime then
        some { s with
          timer := { s.timer with clock := nowTime, pass := some nowTime, passFired := [] } }
      else
        none
  | .pop i calls =>
      match s.timer.pass, s.callback, s.timer.timers[i]? with
      | some nowTime, none, some timer =>
          if s.timer.Top timer ∧ timer.nextTime ≤ nowTime then some (s.pop i timer calls) else none
      | _, _, _ => none
  | .call createTime =>
      match s.callback with
      | some (timer, call :: calls) =>
          -- `lock_guard` waits for the lock
          if s.timer.pass = none then
            some { s with
              timer := s.timer.perform createTime call
              callback := some (timer, calls) }
          else
            none
      | _ => none
  | .returns =>
      match s.callback with
      | some (timer, []) => some (s.returns timer)
      | _ => none
  | .endPass =>
      match s.timer.pass, s.callback with
      | some nowTime, none =>
          if ∀ h ∈ s.timer.timers, nowTime < h.nextTime then
            some { s with timer := { s.timer with pass := none } }
          else
            none
      | _, _ => none
  | .leave =>
      if s.inRun ∧ s.running = false ∧ s.timer.pass = none then
        some { s with inRun := false }
      else
        none

def system (start : Int) : System InlineTimer InlineEvent where
  init := init start
  step := step

/-- The thread of `run` is to take `_timer_lock` for a callback, and holds it. -/
def LocksTwice (s : InlineTimer) : Prop :=
  s.timer.pass ≠ none ∧ ∃ timer call calls, s.callback = some (timer, call :: calls)

/-- A callback that is called does not use the timer. -/
def LeavesTimer (s : InlineTimer) : InlineEvent → Prop
  | .pop i calls =>
      ∀ timer ∈ s.timer.timers[i]?, timer.id ∉ s.timer.removedTimerID → calls = []
  | _ => True

/-- A callback runs inside a pass, and has nothing to call. -/
def Calm (s : InlineTimer) : Prop :=
  ∀ timer calls, s.callback = some (timer, calls) → s.timer.pass ≠ none ∧ calls = []

variable {s t : InlineTimer}

theorem Calm.not_locksTwice
    (h : Calm s) :
    ¬ LocksTwice s := by
  rintro ⟨-, timer, call, calls, hcallback⟩
  cases (h timer (call :: calls) hcallback).2

/-- A step that leaves the thread in its callback, and in its pass if it was in one. -/
theorem Calm.frame
    (h : Calm s)
    (hcallback : t.callback = s.callback)
    (hpass : s.timer.pass ≠ none → t.timer.pass ≠ none) :
    Calm t := by
  intro timer calls hcalled
  rw [hcallback] at hcalled
  obtain ⟨hinside, hnothing⟩ := h timer calls hcalled
  exact ⟨hpass hinside, hnothing⟩

/-- What a pop can be. -/
theorem step_pop
    {i : Nat}
    {calls : List TimerCall}
    (h : s.step (.pop i calls) = some t) :
    ∃ nowTime timer, s.timer.pass = some nowTime ∧ s.callback = none ∧
      s.timer.timers[i]? = some timer ∧ t = s.pop i timer calls := by
  simp only [step] at h
  split at h
  case h_1 nowTime timer hpass hcallback hi =>
    split at h
    · cases h
      exact ⟨nowTime, timer, hpass, hcallback, hi, rfl⟩
    · cases h
  · cases h

theorem pop_removed
    {i : Nat}
    {timer : Handler}
    (calls : List TimerCall)
    (h : timer.id ∈ s.timer.removedTimerID) :
    (s.pop i timer calls).callback = s.callback := by
  rw [pop, if_pos h]

theorem pop_fired
    {i : Nat}
    {timer : Handler}
    (calls : List TimerCall)
    (h : timer.id ∉ s.timer.removedTimerID) :
    (s.pop i timer calls).callback = some (timer, calls) := by
  rw [pop, if_neg h]

theorem pop_pass
    {i : Nat}
    {timer : Handler}
    {calls : List TimerCall} :
    (s.pop i timer calls).timer.pass = s.timer.pass := by
  unfold pop
  split <;> rfl

/-- Every step keeps the thread calm that calls no callback which uses the timer. -/
theorem Calm.step
    {e : InlineEvent}
    (h : Calm s)
    (hok : LeavesTimer s e)
    (hstep : s.step e = some t) :
    Calm t := by
  cases e with
  | pop i calls =>
      obtain ⟨nowTime, timer, hpass, hcallback, hi, rfl⟩ := step_pop hstep
      intro timer' calls' hcalled
      rw [pop_pass, hpass]
      refine ⟨Option.some_ne_none nowTime, ?_⟩
      by_cases hremoved : timer.id ∈ s.timer.removedTimerID
      · rw [pop_removed calls hremoved, hcallback] at hcalled
        cases hcalled
      · rw [pop_fired calls hremoved] at hcalled
        cases hcalled
        exact hok timer hi hremoved
  | outside call createTime =>
      simp only [InlineTimer.step, Option.ite_none_right_eq_some, Option.some.injEq] at hstep
      obtain ⟨hfree, rfl⟩ := hstep
      exact h.frame rfl fun hpass => absurd hfree hpass
  | stop =>
      cases hstep
      exact h.frame rfl id
  | run =>
      simp only [InlineTimer.step, Option.ite_none_left_eq_some, Option.some.injEq] at hstep
      obtain ⟨-, rfl⟩ := hstep
      exact h.frame rfl id
  | beginPass nowTime =>
      simp only [InlineTimer.step, Option.ite_none_right_eq_some, Option.some.injEq] at hstep
      obtain ⟨-, rfl⟩ := hstep
      exact h.frame rfl fun _ => Option.some_ne_none nowTime
  | call createTime =>
      simp only [InlineTimer.step] at hstep
      split at hstep
      case h_1 timer call calls hcalled => cases (h timer _ hcalled).2
      · cases hstep
  | returns =>
      simp only [InlineTimer.step] at hstep
      split at hstep
      · cases hstep
        intro timer calls hcalled
        cases hcalled
      · cases hstep
  | endPass =>
      simp only [InlineTimer.step] at hstep
      split at hstep
      case h_1 nowTime hpass hcallback =>
        split at hstep
        · cases hstep
          intro timer calls hcalled
          rw [hcallback] at hcalled
          cases hcalled
        · cases hstep
      · cases hstep
  | leave =>
      simp only [InlineTimer.step, Option.ite_none_right_eq_some, Option.some.injEq] at hstep
      obtain ⟨-, rfl⟩ := hstep
      exact h.frame rfl id

/-- A callback that uses the timer makes the thread lock twice. -/
theorem leavesTimer_of_not_locksTwice
    {e : InlineEvent}
    (hstep : s.step e = some t)
    (h : ¬ LocksTwice t) :
    LeavesTimer s e := by
  cases e with
  | pop i calls =>
      obtain ⟨nowTime, timer, hpass, -, hi, rfl⟩ := step_pop hstep
      intro timer' hi' hnot
      obtain rfl : timer = timer' := Option.some.inj (hi.symm.trans hi')
      cases calls with
      | nil => rfl
      | cons call calls =>
          refine absurd ⟨?_, timer, call, calls, pop_fired (call :: calls) hnot⟩ h
          rw [pop_pass, hpass]
          exact Option.some_ne_none nowTime
  | _ => trivial

/-- No step helps a thread that locks twice. -/
theorem locksTwice_stuck
    {e : InlineEvent}
    (h : LocksTwice s)
    (hstep : s.step e = some t) :
    LocksTwice t ∧ t.timer = s.timer := by
  obtain ⟨hpass, timer, call, calls, hcallback⟩ := h
  cases e with
  | stop =>
      cases hstep
      exact ⟨⟨hpass, timer, call, calls, hcallback⟩, rfl⟩
  | run =>
      simp only [InlineTimer.step, Option.ite_none_left_eq_some, Option.some.injEq] at hstep
      obtain ⟨-, rfl⟩ := hstep
      exact ⟨⟨hpass, timer, call, calls, hcallback⟩, rfl⟩
  | outside call createTime => simp [InlineTimer.step, hpass] at hstep
  | beginPass nowTime => simp [InlineTimer.step, hpass] at hstep
  | leave => simp [InlineTimer.step, hpass] at hstep
  | pop i calls => simp [InlineTimer.step, hcallback] at hstep
  | call createTime => simp [InlineTimer.step, hcallback, hpass] at hstep
  | returns => simp [InlineTimer.step, hcallback] at hstep
  | endPass => simp [InlineTimer.step, hcallback] at hstep

/-- **A thread that locks twice waits for ever**: whatever follows, it holds the lock, and the
timers are as they were. -/
theorem locksTwice_forever
    {start : Int}
    (h : LocksTwice s)
    (hleads : (system start).Leads s t) :
    LocksTwice t ∧ t.timer = s.timer := by
  refine hleads.invariant (I := fun u => LocksTwice u ∧ u.timer = s.timer) ?_ ⟨h, rfl⟩
  rintro u e v ⟨hu, htimer⟩ hstep
  obtain ⟨hv, hsame⟩ := locksTwice_stuck hu hstep
  exact ⟨hv, hsame.trans htimer⟩

end InlineTimer

open InlineTimer

/-- **Nobody locks twice** in a run exactly when no callback that is called in it uses the
timer. -/
theorem no_lock_twice_iff
    (start : Int)
    (events : List InlineEvent) :
    (InlineTimer.system start).Throughout (fun s => ¬ LocksTwice s) (InlineTimer.init start)
        events ↔
      (InlineTimer.system start).Every LeavesTimer (InlineTimer.init start) events := by
  refine System.throughout_iff_every (I := Calm) ?_ ?_ ?_ ?_ events
  · exact fun s hs => hs.not_locksTwice
  · exact fun s e t hs hok hstep => hs.step hok hstep
  · exact fun s e t _ hstep ht => leavesTimer_of_not_locksTwice hstep ht
  · exact fun timer calls hcalled => by cases hcalled

/-- A timeout timer whose callback removes it: the thread of `run` waits for itself. -/
def waitsForItself : InlineTimer where
  timer :=
    { timers := []
      removedTimerID := []
      nextID := 2
      clock := 1000000
      pass := some 1000000
      created := [⟨1, 7, 0, 1000000, 0, false⟩]
      fired := [⟨1, 1000000, 7⟩]
      passFired := [⟨1, 1000000, 7⟩] }
  running := true
  inRun := true
  callback := some (⟨1, 7, 0, 1000000, 0, false⟩, [.removeTimer 1])

theorem self_removing_locks_twice :
    ¬ (InlineTimer.system 0).Throughout (fun s => ¬ LocksTwice s) (InlineTimer.init 0)
      [.outside (.setTimeoutTimer 0 7) 0, .run, .beginPass 1000000, .pop 0 [.removeTimer 1]] := by
  intro hall
  have hrun : (InlineTimer.system 0).runFrom (InlineTimer.init 0)
      [.outside (.setTimeoutTimer 0 7) 0, .run, .beginPass 1000000, .pop 0 [.removeTimer 1]] =
        some waitsForItself := by
    decide
  refine hall.last hrun ⟨?_, _, _, _, rfl⟩
  exact Option.some_ne_none _

end Core
end ZeroRPC
