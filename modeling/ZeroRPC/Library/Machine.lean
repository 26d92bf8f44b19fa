import Mathlib.Tactic

/-!
# Machines with an answer to every input

A machine takes an input in every state and answers it.  Unlike a guarded system it
never refuses; what may be asked of it is a condition on the input and the state.

Main facts:
* `simulation`: two machines whose states stay related give the same answers, as long
  as the inputs are such as may be asked.
-/

namespace ZeroRPC
namespace Library

universe u v w

/-- The answer to an input, with the state after it. -/
structure Machine (σ : Type u) (ι : Type v) (ο : Type w) where
  step : σ → ι → ο × σ

namespace Machine

variable {σ τ : Type u} {ι : Type v} {ο : Type w}

/-- The answers to a list of inputs. -/
def outputs (M : Machine σ ι ο) : σ → List ι → List ο
  | _, [] => []
  | s, i :: is => (M.step s i).1 :: M.outputs (M.step s i).2 is

/-- The state after a list of inputs. -/
def after (M : Machine σ ι ο) : σ → List ι → σ
  | s, [] => s
  | s, i :: is => M.after (M.step s i).2 is

/-- Every input meets a condition on the state it finds. -/
def Asked (M : Machine σ ι ο) (may : σ → ι → Prop) : σ → List ι → Prop
  | _, [] => True
  | s, i :: is => may s i ∧ M.Asked may (M.step s i).2 is

instance Asked.decidable
    (M : Machine σ ι ο)
    (may : σ → ι → Prop)
    [∀ s i, Decidable (may s i)] :
    ∀ s is, Decidable (M.Asked may s is)
  | _, [] => isTrue trivial
  | s, i :: is =>
      have := Asked.decidable M may (M.step s i).2 is
      inferInstanceAs (Decidable (may s i ∧ M.Asked may (M.step s i).2 is))

@[simp]
theorem outputs_cons (M : Machine σ ι ο) (s : σ) (i : ι) (is : List ι) :
    M.outputs s (i :: is) = (M.step s i).1 :: M.outputs (M.step s i).2 is := rfl

@[simp]
theorem asked_cons (M : Machine σ ι ο) (may : σ → ι → Prop) (s : σ) (i : ι) (is : List ι) :
    M.Asked may s (i :: is) ↔ may s i ∧ M.Asked may (M.step s i).2 is := Iff.rfl

/-- **Simulation.**  Related states give the same answer to an input that may be asked,
and stay related; so runs give the same answers. -/
theorem simulation
    {M : Machine σ ι ο}
    {N : Machine τ ι ο}
    {R : σ → τ → Prop}
    {may : τ → ι → Prop}
    (hstep :
      ∀ s t i, R s t → may t i →
        (M.step s i).1 = (N.step t i).1 ∧ R (M.step s i).2 (N.step t i).2)
    {s : σ}
    {t : τ}
    (h : R s t)
    {is : List ι}
    (hasked : N.Asked may t is) :
    M.outputs s is = N.outputs t is ∧ R (M.after s is) (N.after t is) := by
  induction is generalizing s t with
  | nil => exact ⟨rfl, h⟩
  | cons i is ih =>
      obtain ⟨hanswer, hnext⟩ := hstep s t i h hasked.1
      obtain ⟨hrest, hlast⟩ := ih hnext hasked.2
      refine ⟨?_, hlast⟩
      rw [outputs_cons, outputs_cons, hanswer, hrest]

end Machine

end Library
end ZeroRPC
