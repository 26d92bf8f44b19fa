import Mathlib.Tactic

/-!
# Loops that may not end

A loop is a step that gives the next state or raises.  It ends when, after finitely many
steps, it is in a state outside the loop or raises something that counts as an end.

Main facts:
* `Ends.iff_next`: a state inside the loop and the next one end alike;
* `Ends.not_of_invariant`: a loop that keeps an invariant inside never ends;
* `Ends.of_measure`: one that keeps an invariant and brings a measure down ends.
-/

namespace ZeroRPC
namespace Library

universe u v

variable {σ : Type u} {ε : Type v}

/-- The loop ends after finitely many steps. -/
inductive Ends (step : σ → Except ε σ) (outside : σ → Prop) (counts : ε → Prop) : σ → Prop
  | outside {s : σ} (h : outside s) : Ends step outside counts s
  | raised {s : σ} {e : ε} (h : step s = .error e) (he : counts e) : Ends step outside counts s
  | next {s t : σ} (h : step s = .ok t) (ht : Ends step outside counts t) :
      Ends step outside counts s

namespace Ends

variable {step : σ → Except ε σ} {outside : σ → Prop} {counts : ε → Prop} {s t : σ}

theorem iff_next
    (hinside : ¬ outside s)
    (hstep : step s = .ok t) :
    Ends step outside counts s ↔ Ends step outside counts t := by
  constructor
  · intro h
    cases h with
    | outside hout => exact absurd hout hinside
    | raised herror he =>
        rw [hstep] at herror
        cases herror
    | next hnext ht =>
        rw [hstep] at hnext
        cases hnext
        exact ht
  · exact .next hstep

theorem iff_raised
    {e : ε}
    (hinside : ¬ outside s)
    (hstep : step s = .error e) :
    Ends step outside counts s ↔ counts e := by
  constructor
  · intro h
    cases h with
    | outside hout => exact absurd hout hinside
    | raised herror he =>
        rw [hstep] at herror
        cases herror
        exact he
    | next hnext ht =>
        rw [hstep] at hnext
        cases hnext
  · exact .raised hstep

/-- **A loop that stays inside never ends.** -/
theorem not_of_invariant
    {I : σ → Prop}
    (hinside : ∀ s, I s → ¬ outside s)
    (hstep : ∀ s, I s → ∃ t, step s = .ok t ∧ I t)
    (hs : I s) :
    ¬ Ends step outside counts s := by
  intro h
  induction h with
  | outside hout => exact hinside _ hs hout
  | raised herror he =>
      obtain ⟨t, hnext, -⟩ := hstep _ hs
      rw [herror] at hnext
      cases hnext
  | next hnext ht ih =>
      obtain ⟨t', hnext', ht'⟩ := hstep _ hs
      rw [hnext] at hnext'
      cases hnext'
      exact ih ht'

/-- **A loop that brings a measure down ends.** -/
theorem of_measure
    {I : σ → Prop}
    (measure : σ → Nat)
    (hprogress : ∀ s, I s → ¬ outside s → ∃ t, step s = .ok t ∧ I t ∧ measure t < measure s)
    (hs : I s) :
    Ends step outside counts s := by
  induction hn : measure s using Nat.strong_induction_on generalizing s with
  | h n ih =>
      by_cases hout : outside s
      · exact .outside hout
      · obtain ⟨t, hstep, ht, hless⟩ := hprogress s hs hout
        exact .next hstep (ih (measure t) (hn ▸ hless) ht rfl)

end Ends

end Library
end ZeroRPC
