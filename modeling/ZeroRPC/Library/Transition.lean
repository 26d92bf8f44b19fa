import Mathlib.Tactic

/-!
# Guarded transition systems

A system has one initial state and a partial step: `step s e` is the next state when
the event `e` can happen in `s`, and `none` otherwise.  One definition serves to run
a list of events and to say which states can be reached; reachability is relative to
a condition on the steps taken, trivial when every step is allowed.

Main facts:
* `Reachable.invariant`: what holds at first and is kept by every step holds in every
  reachable state;
* `Reachable.imp`: from one condition on the steps to another;
* `run_reachable`, `Every.reachable`: a run ends in a reachable state;
* `throughout_iff_every`: a property holds all along a run exactly when every step of
  the run meets a condition, if that is so of each step by itself;
* `leads_of_measure`: what can always be brought nearer can be reached.
-/

namespace ZeroRPC
namespace Library

universe u v

/-- An initial state and a guarded step. -/
structure System (σ : Type u) (ε : Type v) where
  init : σ
  step : σ → ε → Option σ

namespace System

variable {σ : Type u} {ε : Type v}

/-- The state after a list of events, if each of them can happen in turn. -/
def runFrom (M : System σ ε) : σ → List ε → Option σ
  | s, [] => some s
  | s, e :: es =>
      match M.step s e with
      | none => none
      | some t => M.runFrom t es

/-- A run from the initial state. -/
def run (M : System σ ε) (es : List ε) : Option σ := M.runFrom M.init es

/-- The states reached by steps that meet a condition. -/
inductive Reachable (M : System σ ε) (ok : σ → ε → Prop) : σ → Prop
  | init : Reachable M ok M.init
  | step {s t : σ} {e : ε} (hs : Reachable M ok s) (hok : ok s e) (h : M.step s e = some t) :
      Reachable M ok t

/-- Every step is allowed. -/
def anyStep : σ → ε → Prop := fun _ _ => True

variable {M : System σ ε} {ok : σ → ε → Prop}

/-- **The invariant rule.** -/
theorem Reachable.invariant
    {I : σ → Prop}
    {s : σ}
    (hinit : I M.init)
    (hstep : ∀ s e t, I s → ok s e → M.step s e = some t → I t)
    (h : M.Reachable ok s) :
    I s := by
  induction h with
  | init => exact hinit
  | step _ hok h ih => exact hstep _ _ _ ih hok h

/-- If one condition and an invariant give another condition, what is reached under the one
is reached under the other. -/
theorem Reachable.imp
    {I : σ → Prop}
    {ok' : σ → ε → Prop}
    {s : σ}
    (hinit : I M.init)
    (hstep : ∀ s e t, I s → ok s e → M.step s e = some t → I t)
    (hgives : ∀ s e t, I s → ok s e → M.step s e = some t → ok' s e)
    (h : M.Reachable ok s) :
    M.Reachable ok' s := by
  induction h with
  | init => exact .init
  | step hs hok h ih => exact ih.step (hgives _ _ _ (hs.invariant hinit hstep) hok h) h

theorem runFrom_cons
    {s t : σ}
    {e : ε}
    {es : List ε} :
    M.runFrom s (e :: es) = some t ↔ ∃ s', M.step s e = some s' ∧ M.runFrom s' es = some t := by
  rw [runFrom]
  cases h : M.step s e with
  | none => simp
  | some s' => simp

theorem Reachable.runFrom
    {s t : σ}
    (hs : M.Reachable anyStep s) :
    ∀ {es : List ε}, M.runFrom s es = some t → M.Reachable anyStep t := by
  intro es
  induction es generalizing s with
  | nil =>
      intro h
      obtain rfl : s = t := Option.some.inj h
      exact hs
  | cons e es ih =>
      intro h
      obtain ⟨s', hstep, hrest⟩ := runFrom_cons.mp h
      exact ih (hs.step trivial hstep) hrest

theorem run_reachable
    {t : σ}
    {es : List ε}
    (h : M.run es = some t) :
    M.Reachable anyStep t :=
  Reachable.init.runFrom h

/-! ### Along a run -/

/-- The property holds in every state of the run, as far as it goes. -/
def Throughout (M : System σ ε) (P : σ → Prop) : σ → List ε → Prop
  | s, [] => P s
  | s, e :: es =>
      P s ∧
        match M.step s e with
        | none => True
        | some t => M.Throughout P t es

/-- Every step of the run meets the condition, as far as it goes. -/
def Every (M : System σ ε) (ok : σ → ε → Prop) : σ → List ε → Prop
  | _, [] => True
  | s, e :: es =>
      match M.step s e with
      | none => True
      | some t => ok s e ∧ M.Every ok t es

instance Every.decidable (M : System σ ε) (ok : σ → ε → Prop)
    [∀ s e, Decidable (ok s e)] : ∀ s es, Decidable (M.Every ok s es)
  | _, [] => isTrue trivial
  | s, e :: es =>
      match h : M.step s e with
      | none => isTrue (by rw [Every, h]; trivial)
      | some t =>
          have := Every.decidable M ok t es
          decidable_of_iff (ok s e ∧ M.Every ok t es) (by rw [Every, h])

/-- A run whose steps all meet the condition. -/
theorem Every.reachable
    {s t : σ}
    {es : List ε}
    (h : M.Every ok s es)
    (hs : M.Reachable ok s)
    (hrun : M.runFrom s es = some t) :
    M.Reachable ok t := by
  induction es generalizing s with
  | nil =>
      obtain rfl : s = t := Option.some.inj hrun
      exact hs
  | cons e es ih =>
      obtain ⟨s', hstep, hrest⟩ := runFrom_cons.mp hrun
      rw [Every, hstep] at h
      exact ih h.2 (hs.step h.1 hstep) hrest

theorem Throughout.last
    {P : σ → Prop}
    {s t : σ}
    {es : List ε}
    (h : M.Throughout P s es)
    (hrun : M.runFrom s es = some t) :
    P t := by
  induction es generalizing s with
  | nil =>
      obtain rfl : s = t := Option.some.inj hrun
      exact h
  | cons e es ih =>
      obtain ⟨s', hstep, hrest⟩ := runFrom_cons.mp hrun
      rw [Throughout, hstep] at h
      exact ih h.2 hrest

/-- A property that lets no other step happen. -/
theorem Throughout.every
    {P : σ → Prop}
    (hgives : ∀ s e t, P s → M.step s e = some t → ok s e)
    {s : σ}
    {es : List ε}
    (h : M.Throughout P s es) :
    M.Every ok s es := by
  induction es generalizing s with
  | nil => trivial
  | cons e es ih =>
      rw [Throughout] at h
      rw [Every]
      cases hstep : M.step s e with
      | none => trivial
      | some t =>
          rw [hstep] at h
          exact ⟨hgives s e t h.1 hstep, ih h.2⟩

/-- What holds of every step from an invariant state holds of every step of a run. -/
theorem every_of_invariant
    {I : σ → Prop}
    (hkeeps : ∀ s e t, I s → M.step s e = some t → I t)
    (hgives : ∀ s e t, I s → M.step s e = some t → ok s e)
    {s : σ}
    (hs : I s)
    (es : List ε) :
    M.Every ok s es := by
  induction es generalizing s with
  | nil => trivial
  | cons e es ih =>
      rw [Every]
      cases hstep : M.step s e with
      | none => trivial
      | some t => exact ⟨hgives s e t hs hstep, ih (hkeeps s e t hs hstep)⟩

/-- What a step that meets the condition keeps holds all along a run of such steps. -/
theorem Every.throughout
    {P : σ → Prop}
    (hkeeps : ∀ s e t, P s → ok s e → M.step s e = some t → P t)
    {s : σ}
    {es : List ε}
    (hs : P s)
    (h : M.Every ok s es) :
    M.Throughout P s es := by
  induction es generalizing s with
  | nil => exact hs
  | cons e es ih =>
      rw [Every] at h
      rw [Throughout]
      refine ⟨hs, ?_⟩
      cases hstep : M.step s e with
      | none => trivial
      | some t =>
          rw [hstep] at h
          exact ih (hkeeps s e t hs h.1 hstep) h.2

/-- If an invariant gives the property, the steps that meet the condition keep it, and
any other step loses the property, then the property holds along a run exactly when
every step meets the condition. -/
theorem throughout_iff_every
    {I P : σ → Prop}
    (hgives : ∀ s, I s → P s)
    (hkeeps : ∀ s e t, I s → ok s e → M.step s e = some t → I t)
    (hloses : ∀ s e t, I s → M.step s e = some t → P t → ok s e)
    {s : σ}
    (hs : I s)
    (es : List ε) :
    M.Throughout P s es ↔ M.Every ok s es := by
  induction es generalizing s with
  | nil => exact ⟨fun _ => trivial, fun _ => hgives s hs⟩
  | cons e es ih =>
      rw [Throughout, Every]
      cases hstep : M.step s e with
      | none => exact ⟨fun _ => trivial, fun _ => ⟨hgives s hs, trivial⟩⟩
      | some t =>
          constructor
          · rintro ⟨-, hrest⟩
            have ht : P t := by
              cases es with
              | nil => exact hrest
              | cons e' es => exact hrest.1
            have hok := hloses s e t hs hstep ht
            exact ⟨hok, (ih (hkeeps s e t hs hok hstep)).mp hrest⟩
          · rintro ⟨hok, hrest⟩
            exact ⟨hgives s hs, (ih (hkeeps s e t hs hok hstep)).mpr hrest⟩

/-- Two conditions that say the same of every step from an invariant state say the same
of a run. -/
theorem every_congr
    {I : σ → Prop}
    {A B : σ → ε → Prop}
    (hkeeps : ∀ s e t, I s → M.step s e = some t → I t)
    (hiff : ∀ s e t, I s → M.step s e = some t → (A s e ↔ B s e))
    {s : σ}
    (hs : I s)
    (es : List ε) :
    M.Every A s es ↔ M.Every B s es := by
  induction es generalizing s with
  | nil => exact Iff.rfl
  | cons e es ih =>
      rw [Every, Every]
      cases hstep : M.step s e with
      | none => exact Iff.rfl
      | some t => exact and_congr (hiff s e t hs hstep) (ih (hkeeps s e t hs hstep))

/-! ### From one state to another -/

/-- Some run leads from one state to the other. -/
def Leads (M : System σ ε) (s t : σ) : Prop :=
  ∃ es, M.runFrom s es = some t

theorem Leads.refl (s : σ) : M.Leads s s :=
  ⟨[], rfl⟩

theorem Leads.head
    {s t u : σ}
    {e : ε}
    (hstep : M.step s e = some t)
    (h : M.Leads t u) :
    M.Leads s u := by
  obtain ⟨es, hes⟩ := h
  exact ⟨e :: es, runFrom_cons.mpr ⟨t, hstep, hes⟩⟩

theorem Leads.trans
    {s t u : σ}
    (hst : M.Leads s t)
    (htu : M.Leads t u) :
    M.Leads s u := by
  obtain ⟨es, hes⟩ := hst
  induction es generalizing s with
  | nil =>
      obtain rfl : s = t := Option.some.inj hes
      exact htu
  | cons e es ih =>
      obtain ⟨s', hstep, hrest⟩ := runFrom_cons.mp hes
      exact (ih hrest).head hstep

/-- What every step keeps holds in every later state. -/
theorem Leads.invariant
    {I : σ → Prop}
    {s t : σ}
    (hstep : ∀ s e t, I s → M.step s e = some t → I t)
    (hs : I s)
    (h : M.Leads s t) :
    I t := by
  obtain ⟨es, hes⟩ := h
  induction es generalizing s with
  | nil =>
      obtain rfl : s = t := Option.some.inj hes
      exact hs
  | cons e es ih =>
      obtain ⟨s', hfirst, hrest⟩ := runFrom_cons.mp hes
      exact ih (hstep s e s' hs hfirst) hrest

/-- **The ranking rule.**  If an invariant state that misses the goal leads to one of a
smaller measure, then the goal can be reached. -/
theorem leads_of_measure
    {I P : σ → Prop}
    (measure : σ → Nat)
    (hprogress : ∀ s, I s → P s ∨ ∃ t, M.Leads s t ∧ I t ∧ measure t < measure s)
    {s : σ}
    (hs : I s) :
    ∃ t, M.Leads s t ∧ I t ∧ P t := by
  induction hn : measure s using Nat.strong_induction_on generalizing s with
  | h n ih =>
      rcases hprogress s hs with hgoal | ⟨t, hst, ht, hless⟩
      · exact ⟨s, .refl s, hs, hgoal⟩
      · obtain ⟨u, htu, hu, hgoal⟩ := ih (measure t) (hn ▸ hless) ht rfl
        exact ⟨u, hst.trans htu, hu, hgoal⟩

end System

end Library
end ZeroRPC
