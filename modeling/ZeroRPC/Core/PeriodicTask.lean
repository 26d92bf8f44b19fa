import ZeroRPC.Core.Timer

/-!
# A periodic task in time

A `Timer` from the moment on at which a periodic timer is set, the callbacks of that one
which were handed to the executor and not run yet, and a clock for all of them.  The `Timer`
may have been running, with timers of its own.  A pass begins with a reading of the clock,
and a callback is run some time after it was handed over.  Passes begin at most `ε` after one
another and a callback waits for at most `δ`; other timers may be set and removed.

Main facts:
* `OnTime.step`: every step in time keeps the account of the callbacks;
* `deadlines_met`: the callback is run once for each deadline, not before it and not more than
  two passes and one delay after it, and for nothing else.
-/

namespace ZeroRPC
namespace Core

open Library

/-! ### The system -/

/-- A callback that was handed over at a time, or run at a time, and the deadline it is for. -/
structure Job where
  deadline : Int
  time : Int
deriving DecidableEq

/-- The number of the task's timer, the clock, the timers, the callbacks that wait, and those
that were run. -/
structure PeriodicTask where
  id : Nat
  clock : Int
  timer : Timer
  pending : List Job
  ran : List Job
deriving DecidableEq

inductive TaskEvent
  | tick (now : Int)
  | timer (e : TimerEvent)
  | run (i : Nat)

namespace PeriodicTask

/-- How the task is set: the `Timer` and the clock at that moment, the reading of the clock
that `create_timer` has made, and the arguments. -/
structure Setting where
  before : Timer
  clock : Int
  createTime : Int
  waitTime : Int
  callbackFunction : Nat

/-- The handler of the task as it is created. -/
def Setting.handler (c : Setting) : Handler :=
  .createTimer c.before.nextID c.createTime c.waitTime true c.callbackFunction

/-- The first deadline of the task, without overflow. -/
def Setting.due (c : Setting) : Int := c.createTime + (c.waitTime + 1) * MILLISECOND

/-- The task is set. -/
def init (c : Setting) : PeriodicTask where
  id := c.before.nextID
  clock := c.clock
  timer := c.before.createTimer c.createTime c.waitTime true c.callbackFunction
  pending := []
  ran := []

/-- What a step of the timer hands to the executor for a task. -/
def handed (id : Nat) (before after : Timer) : List Firing :=
  (after.fired.drop before.fired.length).filter fun f => f.id = id

/-- A pass begins with a reading of the clock. -/
def mayHappen (s : PeriodicTask) : TimerEvent → Bool
  | .beginPass nowTime => nowTime = s.clock
  | _ => true

def step (s : PeriodicTask) : TaskEvent → Option PeriodicTask
  | .tick now => if s.clock ≤ now then some { s with clock := now } else none
  | .timer e =>
      if s.mayHappen e then
        match s.timer.step e with
        | none => none
        | some timer =>
            some { s with
              timer := timer
              pending := s.pending ++ (handed s.id s.timer timer).map fun f => ⟨f.deadline, s.clock⟩ }
      else
        none
  | .run i =>
      match s.pending[i]? with
      | none => none
      | some job =>
          some { s with
            pending := s.pending.eraseIdx i
            ran := s.ran ++ [⟨job.deadline, s.clock⟩] }

def system (c : Setting) : System PeriodicTask TaskEvent where
  init := init c
  step := step

/-- Passes begin and callbacks are run in time, deadlines fit, and the timer of the task is
not removed. -/
def Timely (ε δ : Int) (s : PeriodicTask) : TaskEvent → Prop
  | .tick now => now ≤ s.timer.clock + ε ∧ ∀ job ∈ s.pending, now ≤ job.time + δ
  | .timer e => Punctual s.timer e ∧ e ≠ .removeTimer s.id
  | .run _ => True

instance (ε δ : Int) (s : PeriodicTask) : DecidablePred (Timely ε δ s)
  | .tick now =>
      inferInstanceAs (Decidable (now ≤ s.timer.clock + ε ∧ ∀ job ∈ s.pending, now ≤ job.time + δ))
  | .timer _ => inferInstanceAs (Decidable (_ ∧ _ ≠ _))
  | .run _ => isTrue trivial

/-- A task is set in time: after a run of the `Timer`, between two passes, at most `ε` after
the last of them, with no pass since its first deadline.  Its number was not removed before. -/
structure Setting.InTime (ε : Int) (c : Setting) : Prop where
  run : ∃ start, (Timer.system start).Reachable Punctual c.before
  between : c.before.pass = none
  kept : c.before.nextID ∉ c.before.removedTimerID
  positive : 0 < c.waitTime
  fits : CreateFits c.createTime c.waitTime
  read : c.createTime ≤ c.clock
  lastPass : c.before.clock ≤ c.clock ∧ c.clock ≤ c.before.clock + ε
  due : c.before.clock < c.due

/-- The first task on a new `Timer`. -/
def Setting.first (start waitTime : Int) : Setting where
  before := .init start
  clock := start
  createTime := start
  waitTime := waitTime
  callbackFunction := 0

theorem Setting.first_inTime
    {start waitTime ε : Int}
    (hε : 0 ≤ ε)
    (hwait : 0 < waitTime)
    (hfits : CreateFits start waitTime) :
    (first start waitTime).InTime ε where
  run := ⟨start, .init⟩
  between := rfl
  kept := List.not_mem_nil
  positive := hwait
  fits := hfits
  read := le_rfl
  lastPass := ⟨le_rfl, le_add_of_nonneg_right hε⟩
  due := by
    have hperiod : 0 < (waitTime + 1) * MILLISECOND := mul_pos (by linarith) (by decide)
    show start < start + (waitTime + 1) * MILLISECOND
    linarith

/-- What a step can be. -/
inductive Moves (s : PeriodicTask) : TaskEvent → PeriodicTask → Prop
  | tick {now : Int} (hle : s.clock ≤ now) : Moves s (.tick now) { s with clock := now }
  | timer {e : TimerEvent} {timer : Timer}
      (hread : s.mayHappen e)
      (hstep : s.timer.step e = some timer) :
      Moves s (.timer e)
        { s with
          timer := timer
          pending := s.pending ++ (handed s.id s.timer timer).map fun f => ⟨f.deadline, s.clock⟩ }
  | run {i : Nat} {job : Job} (hi : s.pending[i]? = some job) :
      Moves s (.run i)
        { s with
          pending := s.pending.eraseIdx i
          ran := s.ran ++ [⟨job.deadline, s.clock⟩] }

theorem step_moves
    {s t : PeriodicTask}
    {e : TaskEvent}
    (h : s.step e = some t) :
    Moves s e t := by
  cases e with
  | tick now =>
      simp only [step] at h
      split at h
      case isTrue hle =>
        obtain rfl := Option.some.inj h
        exact .tick hle
      case isFalse => cases h
  | timer e =>
      simp only [step] at h
      split at h
      case isTrue hread =>
        cases hstep : s.timer.step e with
        | none => simp [hstep] at h
        | some timer =>
            simp only [hstep] at h
            obtain rfl := Option.some.inj h
            exact .timer hread hstep
      case isFalse => cases h
  | run i =>
      cases hi : s.pending[i]? with
      | none => simp [step, hi] at h
      | some job =>
          simp only [step, hi] at h
          obtain rfl := Option.some.inj h
          exact .run hi

/-- Only `run` runs anything. -/
theorem step_other
    {s t : PeriodicTask}
    {e : TaskEvent}
    (hother : ∀ i, e ≠ .run i)
    (h : s.step e = some t) :
    t.ran = s.ran ∧ s.clock ≤ t.clock := by
  cases step_moves h with
  | tick hle => exact ⟨rfl, hle⟩
  | timer => exact ⟨rfl, le_rfl⟩
  | @run i => exact absurd rfl (hother i)

theorem step_run
    {s t : PeriodicTask}
    {i : Nat}
    (h : s.step (.run i) = some t) :
    ∃ deadline, t.ran = s.ran ++ [⟨deadline, s.clock⟩] ∧ t.clock = s.clock := by
  cases step_moves h with
  | @run i job hi => exact ⟨job.deadline, rfl, rfl⟩

theorem Setting.handler_nextTime
    (c : Setting)
    (hfits : CreateFits c.createTime c.waitTime) :
    c.handler.nextTime = c.due := by
  have hfirst := Handler.createTimer_nextTime hfits c.before.nextID true c.callbackFunction
  rw [Handler.deadline] at hfirst
  rw [Setting.handler, hfirst, Setting.due]
  simp only [Handler.createTimer]
  push_cast
  ring

/-! ### The account of the callbacks -/

/-- The invariant, for the handler of the task as it was created. -/
structure OnTime (c : Handler) (ε δ : Int) (s : PeriodicTask) : Prop where
  ticking : Ticking s.timer
  own : c ∈ s.timer.created
  mine : c.id = s.id
  periodic : c.isPeriodic = true
  kept : s.id ∉ s.timer.removedTimerID
  begun : c.lastTime ≤ s.clock
  lastPass : s.timer.clock ≤ s.clock ∧ s.clock ≤ s.timer.clock + ε
  next : ∀ h ∈ s.timer.timers, h.id = s.id → s.timer.clock < h.nextTime + ε
  caughtUp : s.timer.pass = none → ∀ h ∈ s.timer.timers, h.id = s.id → s.timer.clock < h.nextTime
  waiting : ∀ job ∈ s.pending,
    job.deadline ≤ job.time ∧ job.time ≤ job.deadline + 2 * ε ∧
      job.time ≤ s.clock ∧ s.clock ≤ job.time + δ
  done : ∀ job ∈ s.ran,
    job.deadline ≤ job.time ∧ job.time ≤ job.deadline + 2 * ε + δ ∧ job.time ≤ s.clock
  account : (s.pending.map Job.deadline ++ s.ran.map Job.deadline).Perm
    ((s.timer.fired.filter fun f => f.id = s.id).map Firing.deadline)

/-! ### What is handed over -/

section Handed

variable {id : Nat} {before after : Timer}

theorem handed_same
    (h : after.fired = before.fired) :
    handed id before after = [] := by
  rw [handed, h, List.drop_length]
  rfl

theorem handed_one
    {f : Firing}
    (h : after.fired = before.fired ++ [f]) :
    handed id before after = [f].filter fun f => f.id = id := by
  rw [handed, h, List.drop_left]

end Handed

namespace OnTime

variable {c : Handler} {ε δ : Int} {s : PeriodicTask} {timer : Timer}

/-- The task is set. -/
theorem init
    {c : Setting}
    (hε : 0 ≤ ε)
    (h : c.InTime ε) :
    OnTime c.handler ε δ (PeriodicTask.init c) := by
  obtain ⟨start, hreachable⟩ := h.run
  have hticking : Ticking c.before := .of_reachable hreachable
  have hnext : ∀ old ∈ c.handler :: c.before.timers, old.id = c.before.nextID →
      c.before.clock < old.nextTime := by
    intro old hold hid
    rcases List.mem_cons.mp hold with rfl | hold
    · rw [c.handler_nextTime h.fits]
      exact h.due
    · exact absurd hid (hticking.known old hold).1.ne
  have hnone : c.before.fired.filter (fun f => f.id = c.before.nextID) = [] := by
    refine List.filter_eq_nil_iff.mpr fun f hf hid => ?_
    exact absurd (of_decide_eq_true hid) (hticking.firedKnown f hf).ne
  exact
    { ticking := hticking.createTimer h.between (fun _ => h.positive) h.fits
      own := List.mem_append_right _ (List.mem_singleton_self _)
      mine := rfl
      periodic := rfl
      kept := h.kept
      begun := h.read
      lastPass := h.lastPass
      next := fun old hold hid => (hnext old hold hid).trans_le (le_add_of_nonneg_right hε)
      caughtUp := fun _ => hnext
      waiting := fun _ hmem => absurd hmem List.not_mem_nil
      done := fun _ hmem => absurd hmem List.not_mem_nil
      account := by
        show [].Perm ((c.before.fired.filter fun f => f.id = c.before.nextID).map Firing.deadline)
        rw [hnone]
        exact .nil }

/-- A step of the timer that fires nothing hands nothing over. -/
theorem quiet
    (h : OnTime c ε δ { s with timer := timer })
    (hfired : timer.fired = s.timer.fired) :
    OnTime c ε δ
      { s with
        timer := timer
        pending := s.pending ++ (handed s.id s.timer timer).map fun f => ⟨f.deadline, s.clock⟩ } := by
  rw [handed_same hfired, List.map_nil, List.append_nil]
  exact h

/-- Another timer is set. -/
theorem createTimer
    {createTime period : Int}
    {isPeriodic : Bool}
    {callbackFunction : Nat}
    (h : OnTime c ε δ s)
    (hpass : s.timer.pass = none)
    (hpositive : isPeriodic = true → 0 < period)
    (hfits : CreateFits createTime period) :
    OnTime c ε δ
      { s with timer := s.timer.createTimer createTime period isPeriodic callbackFunction } := by
  have hother : s.timer.nextID ≠ s.id := by
    rw [← h.mine]
    exact (h.ticking.numbered _ h.own).ne'
  refine { h with ticking := ?_, own := ?_, next := ?_, caughtUp := ?_ }
  · exact h.ticking.createTimer hpass hpositive hfits
  · exact List.mem_append_left _ h.own
  · intro old hold hid
    rcases List.mem_cons.mp hold with rfl | hold
    · exact absurd hid hother
    · exact h.next old hold hid
  · intro hnone old hold hid
    rcases List.mem_cons.mp hold with rfl | hold
    · exact absurd hid hother
    · exact h.caughtUp hpass old hold hid

/-- A pass begins in time. -/
theorem beginPass
    (h : OnTime c ε δ s)
    (hε : 0 ≤ ε)
    (hpass : s.timer.pass = none)
    (hticking : Ticking
      { s.timer with clock := s.clock, pass := some s.clock, passFired := [] }) :
    OnTime c ε δ
      { s with
        timer := { s.timer with clock := s.clock, pass := some s.clock, passFired := [] } } := by
  refine { h with ticking := hticking, lastPass := ?_, next := ?_, caughtUp := ?_ }
  · exact ⟨le_rfl, le_add_of_nonneg_right hε⟩
  · intro old hold hid
    have hbefore := h.caughtUp hpass old hold hid
    have hclock := h.lastPass.2
    show s.clock < old.nextTime + ε
    linarith
  · intro hnone
    cases hnone

/-- The handler at the top is that of the task. -/
theorem top_deadline
    {top : Handler}
    (h : OnTime c ε δ s)
    (hmem : top ∈ s.timer.timers)
    (hid : top.id = s.id) :
    s.clock < top.nextTime + 2 * ε := by
  have hnext := h.next top hmem hid
  have hclock := h.lastPass.2
  linarith

/-- The handler at the top is fired, and is handed over if it is that of the task. -/
theorem fire
    {i : Nat}
    {top : Handler}
    {nowTime : Int}
    (h : OnTime c ε δ s)
    (hδ : 0 ≤ δ)
    (hi : s.timer.timers[i]? = some top)
    (hpass : s.timer.pass = some nowTime)
    (htop : s.timer.Top top)
    (hdue : top.nextTime ≤ nowTime)
    (hnot : top.id ∉ s.timer.removedTimerID)
    (hfits : top.isPeriodic = true → top.UpdateFits) :
    OnTime c ε δ
      { s with
        timer := s.timer.turn i top
        pending := s.pending ++
          (handed s.id s.timer (s.timer.turn i top)).map fun f => ⟨f.deadline, s.clock⟩ } := by
  have hticking := h.ticking.fire hi hpass htop hdue hnot hfits
  obtain ⟨hmem, hback, -, -⟩ := h.ticking.off_heap hi
  obtain ⟨timers, hturn, -, -, -, htimers⟩ := h.ticking.turn_spec hi hnot
  have hnow := h.ticking.now nowTime hpass
  have hlast := h.lastPass.1
  have hpositive := (h.ticking.known top hmem).2
  -- the handlers of the task that are left are not due earlier
  have hlater : ∀ old ∈ timers, old.id = s.id → s.timer.clock < old.nextTime + ε := by
    intro old hold hid
    rcases htimers old hold with hold | ⟨hperiodic, rfl⟩
    · exact h.next old (hback old hold).1 hid
    · have hperiod : 0 < top.period := mul_pos (hpositive hperiodic) (by decide)
      have hnext := h.next top hmem hid
      rw [Handler.updateTimer_nextTime (hfits hperiodic)]
      linarith
  rw [hturn] at hticking ⊢
  rw [handed_one rfl]
  refine { h with ticking := hticking, next := hlater, caughtUp := ?_, waiting := ?_, account := ?_ }
  · intro hnone
    cases hpass.symm.trans hnone
  · intro job hjob
    rcases List.mem_append.mp hjob with hjob | hjob
    · exact h.waiting job hjob
    · obtain ⟨f, hf, rfl⟩ := List.mem_map.mp hjob
      obtain ⟨hf, hid⟩ := List.mem_filter.mp hf
      obtain rfl := List.mem_singleton.mp hf
      have hclock := h.top_deadline hmem (of_decide_eq_true hid)
      refine ⟨?_, hclock.le, le_rfl, le_add_of_nonneg_right hδ⟩
      show top.nextTime ≤ s.clock
      linarith
  · simp only [List.filter_append, List.map_append, List.map_map]
    have hdeadline : (Job.deadline ∘ fun f : Firing => (⟨f.deadline, s.clock⟩ : Job)) =
        Firing.deadline := rfl
    rw [hdeadline, List.append_assoc]
    refine (List.perm_append_comm.append_left _).trans ?_
    rw [← List.append_assoc]
    exact h.account.append_right _

/-- **A step of the timer.** -/
theorem timer_step
    {e : TimerEvent}
    (h : OnTime c ε δ s)
    (hε : 0 ≤ ε)
    (hδ : 0 ≤ δ)
    (hok : Timely ε δ s (.timer e))
    (hread : s.mayHappen e)
    (hstep : s.timer.step e = some timer) :
    OnTime c ε δ
      { s with
        timer := timer
        pending := s.pending ++ (handed s.id s.timer timer).map fun f => ⟨f.deadline, s.clock⟩ } := by
  cases Timer.step_moves hstep with
  | setTimeoutTimer hpass =>
      exact (h.createTimer hpass (fun hfalse => by cases hfalse) hok.1.2).quiet rfl
  | setPeriodicTimer hpass =>
      exact (h.createTimer hpass (fun _ => hok.1.1) hok.1.2).quiet rfl
  | @removeTimer id hpass =>
      have hticking := h.ticking.step hok.1 hstep
      refine OnTime.quiet { h with ticking := hticking, kept := ?_ } rfl
      intro hmem
      rcases List.mem_insert_iff.mp hmem with hid | hmem
      · exact hok.2 (congrArg TimerEvent.removeTimer hid.symm)
      · exact h.kept hmem
  | @beginPass nowTime hpass hle =>
      obtain rfl : nowTime = s.clock := of_decide_eq_true hread
      have hticking := h.ticking.step hok.1 hstep
      exact (h.beginPass hε hpass hticking).quiet rfl
  | @pop i top nowTime hpass hi htop hdue =>
      by_cases hremoved : top.id ∈ s.timer.removedTimerID
      · have hticking := h.ticking.drop hi hremoved
        obtain ⟨-, hback, -, -⟩ := h.ticking.off_heap hi
        rw [Timer.turn, if_pos hremoved]
        refine OnTime.quiet { h with ticking := hticking, next := ?_, caughtUp := ?_ } rfl
        · exact fun old hold hid => h.next old (hback old hold).1 hid
        · intro hnone
          cases hpass.symm.trans hnone
      · exact h.fire hδ hi hpass htop hdue hremoved fun hperiodic =>
          hok.1.2 top hi hperiodic hremoved
  | @endPass nowTime hpass hend =>
      have hticking := h.ticking.step hok.1 hstep
      refine OnTime.quiet { h with ticking := hticking, caughtUp := ?_ } rfl
      intro _ old hold _
      have hnow := h.ticking.now nowTime hpass
      show s.timer.clock < old.nextTime
      rw [hnow]
      exact hend old hold

/-- A callback that waits is run. -/
theorem run
    {i : Nat}
    {job : Job}
    (h : OnTime c ε δ s)
    (hi : s.pending[i]? = some job) :
    OnTime c ε δ
      { s with
        pending := s.pending.eraseIdx i
        ran := s.ran ++ [⟨job.deadline, s.clock⟩] } := by
  obtain ⟨hlt, hjob⟩ := List.getElem?_eq_some_iff.mp hi
  have hperm : (job :: s.pending.eraseIdx i).Perm s.pending := by
    rw [← hjob]
    exact List.getElem_cons_eraseIdx_perm hlt
  obtain ⟨hafter, hbefore, hpast, hwaits⟩ :=
    h.waiting job (hperm.subset List.mem_cons_self)
  refine { h with waiting := ?_, done := ?_, account := ?_ }
  · exact fun other hother => h.waiting other (hperm.subset (List.mem_cons_of_mem _ hother))
  · intro other hother
    rcases List.mem_append.mp hother with hother | hother
    · exact h.done other hother
    · obtain rfl := List.mem_singleton.mp hother
      refine ⟨?_, ?_, le_rfl⟩
      · show job.deadline ≤ s.clock
        linarith
      · show s.clock ≤ job.deadline + 2 * ε + δ
        linarith
  · have hdeadlines := hperm.map Job.deadline
    refine List.Perm.trans ?_ h.account
    refine List.Perm.trans ?_ (hdeadlines.append_right _)
    show ((s.pending.eraseIdx i).map Job.deadline ++
      (s.ran ++ [(⟨job.deadline, s.clock⟩ : Job)]).map Job.deadline).Perm _
    rw [List.map_append, ← List.append_assoc]
    exact List.perm_append_singleton _ _

/-- **Every step in time keeps the account.** -/
theorem step
    {t : PeriodicTask}
    {e : TaskEvent}
    (h : OnTime c ε δ s)
    (hε : 0 ≤ ε)
    (hδ : 0 ≤ δ)
    (hok : Timely ε δ s e)
    (hstep : s.step e = some t) :
    OnTime c ε δ t := by
  cases step_moves hstep with
  | @tick now hle =>
      obtain ⟨hpass, hjobs⟩ := hok
      refine { h with begun := ?_, lastPass := ?_, waiting := ?_, done := ?_ }
      · exact h.begun.trans hle
      · exact ⟨h.lastPass.1.trans hle, hpass⟩
      · intro job hjob
        obtain ⟨hafter, hbefore, hpast, -⟩ := h.waiting job hjob
        exact ⟨hafter, hbefore, hpast.trans hle, hjobs job hjob⟩
      · intro job hjob
        obtain ⟨hafter, hbefore, hpast⟩ := h.done job hjob
        exact ⟨hafter, hbefore, hpast.trans hle⟩
  | timer hread htimer => exact h.timer_step hε hδ hok hread htimer
  | run hi => exact h.run hi

/-- The timer has fired the task for its first deadlines, and the next one is not long past. -/
theorem fired
    (h : OnTime c ε δ s) :
    ∃ n, s.timer.fired.filter (fun f => f.id = s.id) = c.firings n ∧
      s.clock < c.deadline (n + 1) + 2 * ε := by
  have hkept := h.kept
  rw [← h.mine] at hkept ⊢
  cases h.ticking.progress c h.own hkept with
  | @active n hmem hnext _ hfired =>
      have hid := (Handler.update_frame c n).1
      have hclock := h.top_deadline hmem (hid.trans h.mine)
      rw [hnext] at hclock
      exact ⟨n, hfired, hclock⟩
  | spent hnot _ _ =>
      rw [h.periodic] at hnot
      cases hnot

/-- The period is positive. -/
theorem positive
    (h : OnTime c ε δ s) :
    0 < c.waitTime :=
  h.ticking.positive c h.own h.periodic

theorem deadlines_nodup
    (h : OnTime c ε δ s) :
    (s.pending.map Job.deadline ++ s.ran.map Job.deadline).Nodup := by
  obtain ⟨n, hfired, -⟩ := h.fired
  rw [h.account.nodup_iff, hfired, Handler.firings, List.map_map]
  refine List.nodup_range.map ?_
  intro j k heq
  exact Nat.succ_injective ((Handler.deadline_strictMono h.positive).injective heq)

/-- What was run was due. -/
theorem mem_deadline
    {deadline : Int}
    (h : OnTime c ε δ s)
    (hmem : deadline ∈ s.ran.map Job.deadline) :
    ∃ k, 1 ≤ k ∧ deadline = c.deadline k := by
  obtain ⟨n, hfired, -⟩ := h.fired
  have hall := h.account.subset (List.mem_append_right _ hmem)
  rw [hfired] at hall
  obtain ⟨f, hf, rfl⟩ := List.mem_map.mp hall
  obtain ⟨k, hpos, -, rfl⟩ := Handler.mem_firings.mp hf
  exact ⟨k, hpos, rfl⟩

/-- What was due long ago was run. -/
theorem deadline_mem
    {k : Nat}
    (h : OnTime c ε δ s)
    (hδ : 0 ≤ δ)
    (hk : 1 ≤ k)
    (hover : c.deadline k + 2 * ε + δ < s.clock) :
    c.deadline k ∈ s.ran.map Job.deadline := by
  obtain ⟨n, hfired, hclock⟩ := h.fired
  have hle : k ≤ n := by
    by_contra hlt
    have hmono := (Handler.deadline_strictMono h.positive).monotone (show n + 1 ≤ k by omega)
    linarith
  have hmem : c.deadline k ∈
      (s.timer.fired.filter fun f => f.id = s.id).map Firing.deadline := by
    rw [hfired]
    exact List.mem_map.mpr ⟨_, Handler.mem_firings.mpr ⟨k, hk, hle, rfl⟩, rfl⟩
  rcases List.mem_append.mp (h.account.symm.subset hmem) with hwaits | hran
  · obtain ⟨job, hjob, heq⟩ := List.mem_map.mp hwaits
    obtain ⟨-, hbefore, -, hclock⟩ := h.waiting job hjob
    rw [heq] at hbefore
    linarith
  · exact hran

end OnTime

/-- A deadline is never far. -/
theorem next_deadline
    {c : Handler}
    {t : Int}
    (hwait : 0 < c.waitTime)
    (h : c.lastTime + MILLISECOND ≤ t) :
    ∃ k, 1 ≤ k ∧ t < c.deadline k ∧ c.deadline k ≤ t + c.period := by
  have hperiod : 0 < c.period := mul_pos hwait (by decide)
  obtain ⟨n, hn⟩ := Int.eq_ofNat_of_zero_le
    (Int.ediv_nonneg (sub_nonneg.mpr h) hperiod.le)
  have hlower := Int.ediv_mul_le (t - (c.lastTime + MILLISECOND)) hperiod.ne'
  have hupper := Int.lt_ediv_add_one_mul_self (t - (c.lastTime + MILLISECOND)) hperiod
  have hdeadline : c.deadline (n + 1) = c.lastTime + MILLISECOND + (n + 1) * c.period := by
    rw [Handler.deadline, Nat.cast_add_one]
    rfl
  rw [hn] at hlower hupper
  refine ⟨n + 1, Nat.le_add_left 1 n, ?_, ?_⟩
  · rw [hdeadline]
    linarith
  · rw [hdeadline]
    linarith

theorem reachable_onTime
    {c : Setting}
    {ε δ : Int}
    {s : PeriodicTask}
    (hε : 0 ≤ ε)
    (hδ : 0 ≤ δ)
    (hset : c.InTime ε)
    (h : (system c).Reachable (Timely ε δ) s) :
    OnTime c.handler ε δ s :=
  h.invariant (.init hε hset) fun _ _ _ hs hok hstep => hs.step hε hδ hok hstep

/-- **Once for each deadline, in time, and for nothing else.** -/
theorem deadlines_met
    (c : Setting)
    (ε δ : Int)
    (hε : 0 ≤ ε)
    (hδ : 0 ≤ δ)
    (hset : c.InTime ε)
    (s : PeriodicTask)
    (h : (system c).Reachable (Timely ε δ) s) :
    (s.ran.map Job.deadline).Nodup ∧
    (∀ job ∈ s.ran,
      (∃ k : Nat, 1 ≤ k ∧
        job.deadline = c.createTime + MILLISECOND + k * (c.waitTime * MILLISECOND)) ∧
      job.deadline ≤ job.time ∧ job.time ≤ job.deadline + 2 * ε + δ) ∧
    ∀ k : Nat, 1 ≤ k →
      c.createTime + MILLISECOND + k * (c.waitTime * MILLISECOND) + 2 * ε + δ < s.clock →
        c.createTime + MILLISECOND + k * (c.waitTime * MILLISECOND) ∈
          s.ran.map Job.deadline := by
  have hs := reachable_onTime hε hδ hset h
  refine ⟨(List.nodup_append.mp hs.deadlines_nodup).2.1, ?_, ?_⟩
  · intro job hjob
    obtain ⟨hafter, hbefore, -⟩ := hs.done job hjob
    exact ⟨hs.mem_deadline (List.mem_map_of_mem hjob), hafter, hbefore⟩
  · intro k hk hover
    exact hs.deadline_mem hδ hk hover

/-- A task of 2 ms, set at 1 ms on a `Timer` that has one of 2 ms already. -/
def secondTask : Setting where
  before :=
    { timers := [⟨1, 7, 0, 3000000, 2, true⟩]
      removedTimerID := []
      nextID := 2
      clock := 1000000
      pass := none
      created := [⟨1, 7, 0, 3000000, 2, true⟩]
      fired := []
      passFired := [] }
  clock := 1000000
  createTime := 1000000
  waitTime := 2
  callbackFunction := 8

theorem secondTask_inTime : secondTask.InTime 1000000 := by
  let events : List TimerEvent := [.setPeriodicTimer 0 2 7, .beginPass 1000000, .endPass]
  have hrun : (Timer.system 0).runFrom (Timer.system 0).init events = some secondTask.before := by
    decide
  have hok : (Timer.system 0).Every Punctual (Timer.system 0).init events := by decide
  exact ⟨⟨0, hok.reachable .init hrun⟩, rfl, by decide, by decide, by decide, by decide, by decide,
    by decide⟩

/-- With a pass each millisecond, the callback for 4 ms was run at 4.5 ms and the one for 6 ms
at once. -/
def bothRun : PeriodicTask where
  id := 2
  clock := 7000001
  timer :=
    { timers := [⟨1, 7, 7000000, 9000000, 2, true⟩, ⟨2, 8, 6000000, 8000000, 2, true⟩]
      removedTimerID := []
      nextID := 3
      clock := 7000000
      pass := none
      created := [⟨1, 7, 0, 3000000, 2, true⟩, ⟨2, 8, 1000000, 4000000, 2, true⟩]
      fired := [⟨1, 3000000, 7⟩, ⟨2, 4000000, 8⟩, ⟨1, 5000000, 7⟩, ⟨2, 6000000, 8⟩, ⟨1, 7000000, 7⟩]
      passFired := [⟨1, 7000000, 7⟩] }
  pending := []
  ran := [⟨4000000, 4500000⟩, ⟨6000000, 6000000⟩]

theorem bothRun_met :
    (bothRun.ran.map Job.deadline).Nodup ∧ 4000000 ∈ bothRun.ran.map Job.deadline := by
  let pass : Int → List TimerEvent → List TaskEvent := fun now pops =>
    [.tick now, .timer (.beginPass now)] ++ pops.map .timer ++ [.timer .endPass]
  let events : List TaskEvent :=
    pass 2000000 [] ++ pass 3000000 [.pop 1] ++ pass 4000000 [.pop 1] ++
      [.tick 4500000, .run 0] ++ pass 5000000 [.pop 1] ++ pass 6000000 [.pop 1] ++ [.run 0] ++
      pass 7000000 [.pop 1] ++ [.tick 7000001]
  have hrun : (system secondTask).runFrom (system secondTask).init events = some bothRun := by
    decide
  have hok : (system secondTask).Every (Timely 1000000 1000000) (system secondTask).init events := by
    decide
  obtain ⟨hnodup, -, hall⟩ := deadlines_met secondTask 1000000 1000000 (by decide) (by decide)
    secondTask_inTime bothRun (hok.reachable .init hrun)
  exact ⟨hnodup, hall 1 le_rfl (by decide)⟩

end PeriodicTask

end Core
end ZeroRPC
