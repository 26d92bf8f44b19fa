import ZeroRPC.Core.TimerLoop

/-!
# Two ways of giving a timer its executor

The constructor of `Timer` takes an executor, and `set_executor` replaces it.  Given one, the
constructor returns before it sets `_running`, which an atomic without initialiser has
`false`; nothing else ever sets it.

A run is a list of calls one after another, with their readings of the clock; `run` is one
pass of its loop, if `_running` lets it make one.

Main facts:
* `Pass.quiet`, `Pass.allRemoved`: a pass hands over nothing exactly when everything due was
  removed;
* `runs_stopped`: a timer that is not running hands over nothing;
* `executor_ways_agree_iff`: the two ways hand the same callbacks to the executor exactly when
  the second one hands over none.
-/

namespace ZeroRPC
namespace Core

open Library

/-- The default executor, which calls the callback, and the given ones, known by numbers. -/
inductive Executor
  | callsInline
  | given (e : Nat)
deriving DecidableEq

/-- A `Timer` with its executor, if that is not empty, and `_running`. -/
structure TimerObject where
  timer : Timer
  executor : Option Executor
  running : Bool

inductive TimerOp
  | setTimeoutTimer (createTime waitTime : Int) (callbackFunction : Nat)
  | setPeriodicTimer (createTime waitTime : Int) (callbackFunction : Nat)
  | removeTimer (id : Nat)
  | run (nowTime : Int)
  | stop

/-- The inner loop of a pass, from its beginning to its end. -/
inductive Pass (nowTime : Int) : Timer → Timer → Prop
  | done {s : Timer} (h : NothingDue nowTime s) : Pass nowTime s s
  | turn {s t : Timer} {i : Nat} {timer : Handler} (hi : s.timers[i]? = some timer)
      (htop : s.Top timer) (hdue : timer.nextTime ≤ nowTime) (h : Pass nowTime (s.turn i timer) t) :
      Pass nowTime s t

namespace TimerObject

/-- `Timer::Timer`. -/
def construct (start : Int) (executor : Option Executor) : TimerObject :=
  match executor with
  | some e => { timer := .init start, executor := some e, running := false }
  | none => { timer := .init start, executor := some .callsInline, running := true }

def setExecutor (o : TimerObject) (executor : Option Executor) : TimerObject :=
  { o with executor := executor }

inductive Step : TimerObject → TimerOp → TimerObject → Prop
  | setTimeoutTimer {o : TimerObject} {createTime waitTime : Int} {callbackFunction : Nat} :
      Step o (.setTimeoutTimer createTime waitTime callbackFunction)
        { o with timer := o.timer.createTimer createTime waitTime false callbackFunction }
  | setPeriodicTimer {o : TimerObject} {createTime waitTime : Int} {callbackFunction : Nat} :
      Step o (.setPeriodicTimer createTime waitTime callbackFunction)
        { o with timer := o.timer.createTimer createTime waitTime true callbackFunction }
  | removeTimer {o : TimerObject} {id : Nat} :
      Step o (.removeTimer id)
        { o with
          timer := { o.timer with removedTimerID := o.timer.removedTimerID.insert id } }
  | run {o : TimerObject} {nowTime : Int} {t : Timer} (hrunning : o.running = true)
      (hpass : Pass nowTime o.timer t) : Step o (.run nowTime) { o with timer := t }
  | returns {o : TimerObject} {nowTime : Int} (hstopped : o.running = false) :
      Step o (.run nowTime) o
  | stop {o : TimerObject} : Step o .stop { o with running := false }

inductive Runs : TimerObject → List TimerOp → TimerObject → Prop
  | nil {o : TimerObject} : Runs o [] o
  | cons {o o' o'' : TimerObject} {op : TimerOp} {ops : List TimerOp} (hstep : Step o op o')
      (h : Runs o' ops o'') : Runs o (op :: ops) o''

/-- The callbacks handed to an executor, in order. -/
def handedTo (o : TimerObject) (e : Executor) : List Nat :=
  if o.executor = some e then o.timer.fired.map Firing.callbackFunction else []

end TimerObject

open TimerObject

/-- What `Timer(e)` can hand to `e` is what `Timer()` with `set_executor(e)` can. -/
def HandsAlike (start : Int) (e : Executor) (ops : List TimerOp) : Prop :=
  ∀ callbacks,
    (∃ o, Runs (construct start (some e)) ops o ∧ o.handedTo e = callbacks) ↔
      ∃ o, Runs ((construct start none).setExecutor (some e)) ops o ∧ o.handedTo e = callbacks

/-- Until it is stopped, no pass finds a timer due that was not removed; `s` has the timers
that were set so far. -/
def NothingToHand (s : Timer) : List TimerOp → Prop
  | [] => True
  | .setTimeoutTimer createTime waitTime callbackFunction :: ops =>
      NothingToHand (s.createTimer createTime waitTime false callbackFunction) ops
  | .setPeriodicTimer createTime waitTime callbackFunction :: ops =>
      NothingToHand (s.createTimer createTime waitTime true callbackFunction) ops
  | .removeTimer id :: ops =>
      NothingToHand { s with removedTimerID := s.removedTimerID.insert id } ops
  | .run nowTime :: ops =>
      (∀ h ∈ s.timers, h.nextTime ≤ nowTime → h.id ∈ s.removedTimerID) ∧ NothingToHand s ops
  | .stop :: _ => True

/-! ### A pass -/

section Pass

variable {nowTime : Int} {s t u : Timer}

/-- Everything due was removed. -/
def AllRemoved (nowTime : Int) (s : Timer) : Prop :=
  ∀ h ∈ s.timers, h.nextTime ≤ nowTime → h.id ∈ s.removedTimerID

/-- A heap that may lack removed timers of another one, from which nothing was handed over. -/
structure Trails (s t : Timer) : Prop where
  fired : t.fired = []
  removed : t.removedTimerID = s.removedTimerID
  nextID : t.nextID = s.nextID
  from_all : ∀ h ∈ t.timers, h ∈ s.timers
  kept : ∀ h ∈ s.timers, h.id ∉ s.removedTimerID → h ∈ t.timers

theorem Trails.allRemoved_iff
    (h : Trails s t) :
    AllRemoved nowTime s ↔ AllRemoved nowTime t := by
  unfold AllRemoved
  rw [h.removed]
  constructor
  · exact fun hs timer hmem => hs timer (h.from_all timer hmem)
  · intro ht timer hmem hdue
    by_contra hnot
    exact hnot (ht timer (h.kept timer hmem hnot) hdue)

/-- The handler at the top was removed. -/
theorem Trails.drop
    {i : Nat}
    {timer : Handler}
    (h : Trails s t)
    (hi : t.timers[i]? = some timer)
    (hremoved : timer.id ∈ t.removedTimerID) :
    Trails s (t.turn i timer) := by
  have hheap := Slots.perm_eraseIdx hi
  rw [Timer.turn, if_pos hremoved]
  refine ⟨h.fired, h.removed, h.nextID, ?_, ?_⟩
  · exact fun old hold => h.from_all old (List.mem_of_mem_eraseIdx hold)
  · intro old hold hnot
    rcases List.mem_cons.mp (hheap.subset (h.kept old hold hnot)) with rfl | hrest
    · exact absurd (h.removed ▸ hremoved) hnot
    · exact hrest

/-- **A pass that finds only removed timers hands over nothing.** -/
theorem Pass.quiet
    (hpass : Pass nowTime t u)
    (h : Trails s t)
    (hall : AllRemoved nowTime s) :
    Trails s u := by
  induction hpass with
  | done => exact h
  | @turn t u i timer hi htop hdue _ ih =>
      have hremoved := h.allRemoved_iff.mp hall timer (List.mem_of_getElem? hi) hdue
      exact ih (h.drop hi hremoved)

/-- An inner loop that ends makes a pass. -/
theorem exists_pass_of_ends
    {top : HeapTop}
    (h : InnerLoopEnds top nowTime t) :
    ∃ u, Pass nowTime t u := by
  induction h with
  | outside hdone => exact ⟨_, .done hdone⟩
  | raised _ hfalse => exact hfalse.elim
  | @next t v hstep _ ih =>
      by_cases hdone : NothingDue nowTime t
      · exact ⟨t, .done hdone⟩
      · obtain ⟨timer, hi, htop, hdue⟩ := top_due top hdone
        obtain ⟨timer', hi', rfl, -⟩ := innerTurn_ok hstep
        obtain rfl := Option.some.inj (hi.symm.trans hi')
        obtain ⟨u, hpass⟩ := ih
        exact ⟨u, .turn hi htop hdue hpass⟩

/-- A pass that finds only removed timers ends. -/
theorem exists_pass
    (hall : AllRemoved nowTime t) :
    ∃ u, Pass nowTime t u := by
  have hsettles : AllSettle nowTime t := by
    intro timer hmem hdue hnot
    exact absurd (hall timer hmem hdue) hnot
  have hends : InnerLoopEnds .least nowTime t := ends_of_allSettle hsettles
  exact exists_pass_of_ends hends

/-- What was handed over stays handed over. -/
theorem Pass.fired_grows
    (hpass : Pass nowTime t u) :
    t.fired <+: u.fired := by
  induction hpass with
  | done => exact List.prefix_rfl
  | @turn t u i timer hi htop hdue _ ih =>
      refine List.IsPrefix.trans ?_ ih
      unfold Timer.turn
      split
      · exact List.prefix_rfl
      · exact List.prefix_append _ _

/-- **A pass that hands over nothing finds only removed timers.** -/
theorem Pass.allRemoved
    (hpass : Pass nowTime t u)
    (hnothing : u.fired = []) :
    AllRemoved nowTime t := by
  induction hpass with
  | done hdone => exact fun timer hmem hdue => absurd hdue (not_le.mpr (hdone timer hmem))
  | @turn t u i timer hi htop hdue hpass ih =>
      have hprefix := hpass.fired_grows
      rw [hnothing, List.prefix_nil] at hprefix
      have hremoved : timer.id ∈ t.removedTimerID := by
        by_contra hnot
        rw [Timer.turn, if_neg hnot] at hprefix
        exact List.append_ne_nil_of_right_ne_nil _ (List.cons_ne_nil _ _) hprefix
      have hrest := ih hnothing
      rw [Timer.turn, if_pos hremoved] at hrest
      intro old hold hpast
      rcases List.mem_cons.mp ((Slots.perm_eraseIdx hi).subset hold) with rfl | hold
      · exact hremoved
      · exact hrest old hold hpast

end Pass

/-! ### The calls one after another -/

section Runs

variable {s : Timer} {o o' : TimerObject} {op : TimerOp} {ops : List TimerOp}

theorem step_executor
    (h : Step o op o') :
    o'.executor = o.executor := by
  cases h <;> rfl

theorem runs_executor
    (h : Runs o ops o') :
    o'.executor = o.executor := by
  induction h with
  | nil => rfl
  | cons hstep _ ih => exact ih.trans (step_executor hstep)

theorem step_fired_grows
    (h : Step o op o') :
    o.timer.fired <+: o'.timer.fired := by
  cases h with
  | run hrunning hpass => exact hpass.fired_grows
  | _ => exact List.prefix_rfl

theorem runs_fired_grows
    (h : Runs o ops o') :
    o.timer.fired <+: o'.timer.fired := by
  induction h with
  | nil => exact List.prefix_rfl
  | cons hstep _ ih => exact (step_fired_grows hstep).trans ih

/-- After a call that can go one way only, from where it goes. -/
theorem runs_cons
    {o₁ : TimerObject}
    {P : TimerObject → Prop}
    (hstep : Step o op o₁)
    (honly : ∀ o₂, Step o op o₂ → o₂ = o₁)
    (h : (∃ o', Runs o₁ ops o') ∧ ∀ o', Runs o₁ ops o' → P o') :
    (∃ o', Runs o (op :: ops) o') ∧ ∀ o', Runs o (op :: ops) o' → P o' := by
  obtain ⟨⟨o', hrest⟩, hall⟩ := h
  refine ⟨⟨o', .cons hstep hrest⟩, fun o'' hruns => ?_⟩
  cases hruns with
  | cons hstep' hrest' => exact hall o'' (honly _ hstep' ▸ hrest')

/-- **A timer that is not running** takes every call, and hands over nothing. -/
theorem runs_stopped
    (hstopped : o.running = false)
    (ops : List TimerOp) :
    (∃ o', Runs o ops o') ∧ ∀ o', Runs o ops o' → o'.timer.fired = o.timer.fired := by
  induction ops generalizing o with
  | nil =>
      refine ⟨⟨o, .nil⟩, fun o' h => ?_⟩
      cases h
      rfl
  | cons op ops ih =>
      cases op with
      | setTimeoutTimer createTime waitTime callbackFunction =>
          refine runs_cons .setTimeoutTimer ?_ (ih hstopped)
          rintro o₂ ⟨⟩
          rfl
      | setPeriodicTimer createTime waitTime callbackFunction =>
          refine runs_cons .setPeriodicTimer ?_ (ih hstopped)
          rintro o₂ ⟨⟩
          rfl
      | removeTimer id =>
          refine runs_cons .removeTimer ?_ (ih hstopped)
          rintro o₂ ⟨⟩
          rfl
      | stop =>
          refine runs_cons .stop ?_ (ih rfl)
          rintro o₂ ⟨⟩
          rfl
      | run nowTime =>
          refine runs_cons (.returns hstopped) ?_ (ih hstopped)
          intro o₂ hstep
          cases hstep with
          | run hrunning =>
              rw [hstopped] at hrunning
              cases hrunning
          | returns => rfl

/-- A timer is set. -/
theorem Trails.createTimer
    {t : Timer}
    (h : Trails s t)
    (createTime waitTime : Int)
    (isPeriodic : Bool)
    (callbackFunction : Nat) :
    Trails (s.createTimer createTime waitTime isPeriodic callbackFunction)
      (t.createTimer createTime waitTime isPeriodic callbackFunction) := by
  obtain ⟨hfired, hremoved, hnextID, hfrom, hkept⟩ := h
  refine ⟨hfired, hremoved, congrArg (· + 1) hnextID, ?_, ?_⟩
  · intro timer hmem
    rcases List.mem_cons.mp hmem with rfl | hmem
    · rw [hnextID]
      exact List.mem_cons_self
    · exact List.mem_cons_of_mem _ (hfrom timer hmem)
  · intro timer hmem hnot
    rcases List.mem_cons.mp hmem with rfl | hmem
    · rw [← hnextID]
      exact List.mem_cons_self
    · exact List.mem_cons_of_mem _ (hkept timer hmem hnot)

theorem Trails.removeTimer
    {t : Timer}
    (h : Trails s t)
    (id : Nat) :
    Trails { s with removedTimerID := s.removedTimerID.insert id }
      { t with removedTimerID := t.removedTimerID.insert id } := by
  obtain ⟨hfired, hremoved, hnextID, hfrom, hkept⟩ := h
  refine ⟨hfired, congrArg (List.insert id) hremoved, hnextID, hfrom, ?_⟩
  intro timer hmem hnot
  exact hkept timer hmem fun hold => hnot (List.mem_insert_of_mem hold)

/-- **When there is nothing to hand over** every call is taken, and nothing is handed over. -/
theorem runs_quiet
    (htrails : Trails s o.timer)
    (hrunning : o.running = true)
    (hnothing : NothingToHand s ops) :
    (∃ o', Runs o ops o') ∧ ∀ o', Runs o ops o' → o'.timer.fired = [] := by
  induction ops generalizing s o with
  | nil =>
      refine ⟨⟨o, .nil⟩, fun o' h => ?_⟩
      cases h
      exact htrails.fired
  | cons op ops ih =>
      cases op with
      | setTimeoutTimer createTime waitTime callbackFunction =>
          refine runs_cons .setTimeoutTimer ?_ (ih (htrails.createTimer ..) hrunning hnothing)
          rintro o₂ ⟨⟩
          rfl
      | setPeriodicTimer createTime waitTime callbackFunction =>
          refine runs_cons .setPeriodicTimer ?_ (ih (htrails.createTimer ..) hrunning hnothing)
          rintro o₂ ⟨⟩
          rfl
      | removeTimer id =>
          refine runs_cons .removeTimer ?_ (ih (htrails.removeTimer id) hrunning hnothing)
          rintro o₂ ⟨⟩
          rfl
      | stop =>
          obtain ⟨hruns, hfired⟩ := runs_stopped (o := { o with running := false }) rfl ops
          refine runs_cons .stop ?_ ⟨hruns, fun o' h => (hfired o' h).trans htrails.fired⟩
          rintro o₂ ⟨⟩
          rfl
      | run nowTime =>
          obtain ⟨hall, hrest⟩ := hnothing
          obtain ⟨u, hpass⟩ := exists_pass (htrails.allRemoved_iff.mp hall)
          constructor
          · obtain ⟨⟨o', h⟩, -⟩ :=
              ih (o := { o with timer := u }) (hpass.quiet htrails hall) hrunning hrest
            exact ⟨o', .cons (.run hrunning hpass) h⟩
          · intro o' h
            cases h with
            | cons hstep h =>
                cases hstep with
                | run _ hpass =>
                    obtain ⟨-, hnone⟩ :=
                      ih (o := { o with timer := _ }) (hpass.quiet htrails hall) hrunning hrest
                    exact hnone o' h
                | returns hstopped =>
                    rw [hrunning] at hstopped
                    cases hstopped

/-- **When nothing is handed over** there was nothing to hand over. -/
theorem nothingToHand_of_runs
    (htrails : Trails s o.timer)
    (hrunning : o.running = true)
    (h : Runs o ops o')
    (hnothing : o'.timer.fired = []) :
    NothingToHand s ops := by
  induction h generalizing s with
  | nil => trivial
  | @cons o o₁ o' op ops hstep hrest ih =>
      cases hstep with
      | setTimeoutTimer => exact ih (htrails.createTimer ..) hrunning hnothing
      | setPeriodicTimer => exact ih (htrails.createTimer ..) hrunning hnothing
      | removeTimer => exact ih (htrails.removeTimer _) hrunning hnothing
      | stop => trivial
      | returns hstopped =>
          rw [hrunning] at hstopped
          cases hstopped
      | run _ hpass =>
          have hfired := runs_fired_grows hrest
          rw [hnothing, List.prefix_nil] at hfired
          have hall := htrails.allRemoved_iff.mpr (hpass.allRemoved hfired)
          exact ⟨hall, ih (hpass.quiet htrails hall) hrunning hnothing⟩

end Runs

/-! ### The two ways -/

section Ways

variable {start : Int} {e : Executor} {ops : List TimerOp} {o : TimerObject}

theorem trails_init (start : Int) : Trails (.init start) (.init start) where
  fired := rfl
  removed := rfl
  nextID := rfl
  from_all := fun _ h => h
  kept := fun _ h _ => h

theorem handedTo_eq
    (h : o.executor = some e) :
    o.handedTo e = o.timer.fired.map Firing.callbackFunction :=
  if_pos h

theorem constructed_hands_nothing
    (start : Int)
    (e : Executor)
    (ops : List TimerOp) :
    (∃ o, Runs (construct start (some e)) ops o) ∧
      ∀ o, Runs (construct start (some e)) ops o → o.handedTo e = [] := by
  obtain ⟨hruns, hfired⟩ := runs_stopped (o := construct start (some e)) rfl ops
  refine ⟨hruns, fun o h => ?_⟩
  rw [handedTo_eq (runs_executor h), hfired o h]
  rfl

theorem nothingToHand_of_handsAlike
    (h : HandsAlike start e ops) :
    NothingToHand (.init start) ops := by
  obtain ⟨⟨o, hruns⟩, hall⟩ := constructed_hands_nothing start e ops
  obtain ⟨o', hruns', hhanded⟩ := (h []).mp ⟨o, hruns, hall o hruns⟩
  rw [handedTo_eq (runs_executor hruns'), List.map_eq_nil_iff] at hhanded
  exact nothingToHand_of_runs (trails_init start) rfl hruns' hhanded

theorem handsAlike_of_nothingToHand
    (h : NothingToHand (.init start) ops) :
    HandsAlike start e ops := by
  obtain ⟨⟨o, hruns⟩, hall⟩ := constructed_hands_nothing start e ops
  obtain ⟨⟨o', hruns'⟩, hfired⟩ :=
    runs_quiet (o := (construct start none).setExecutor (some e)) (trails_init start) rfl h
  have hall' : ∀ o', Runs ((construct start none).setExecutor (some e)) ops o' →
      o'.handedTo e = [] := by
    intro o' h'
    rw [handedTo_eq (runs_executor h'), hfired o' h']
    rfl
  intro callbacks
  constructor
  · rintro ⟨o'', h'', rfl⟩
    exact ⟨o', hruns', (hall' o' hruns').trans (hall o'' h'').symm⟩
  · rintro ⟨o'', h'', rfl⟩
    exact ⟨o, hruns, (hall o hruns).trans (hall' o'' h'').symm⟩

end Ways

/-- **The two ways agree** exactly on the calls in which, until `stop`, no pass finds a timer
due that was not removed. -/
theorem executor_ways_agree_iff
    (start : Int)
    (e : Executor)
    (ops : List TimerOp) :
    HandsAlike start e ops ↔ NothingToHand (.init start) ops :=
  ⟨nothingToHand_of_handsAlike, handsAlike_of_nothingToHand⟩

/-- A timeout timer, and a pass when it is due. -/
theorem due_timer_not_alike :
    ¬ HandsAlike 0 (.given 1) [.setTimeoutTimer 0 0 7, .run 1000000] := by
  intro h
  have hremoved := (nothingToHand_of_handsAlike h).1 _ List.mem_cons_self (by decide)
  cases hremoved

end Core
end ZeroRPC
