import ZeroRPC.Library.Transition

/-!
# Refinement between two systems

What an observer sees of a run is the list of its visible events, each with what it gives
back.  A system refines another when the observer cannot tell: every run of the first is
seen as some run of the second.

Main facts:
* `trace_append`: what is seen of a run is seen part by part;
* `forward_simulation`: if every step is matched by steps that are seen in the same way,
  every run is.
-/

namespace ZeroRPC
namespace Library
namespace System

universe u v w

variable {σ τ : Type u} {ε δ : Type v} {L : Type w}

/-- What is seen of a run, as far as it goes. -/
def trace (M : System σ ε) (seen : σ → ε → List L) : σ → List ε → List L
  | _, [] => []
  | s, e :: es =>
      match M.step s e with
      | none => []
      | some t => seen s e ++ M.trace seen t es

variable {M : System σ ε} {N : System τ δ} {seen : σ → ε → List L} {seen' : τ → δ → List L}

theorem runFrom_append
    {s t u : σ}
    {es fs : List ε}
    (hes : M.runFrom s es = some t)
    (hfs : M.runFrom t fs = some u) :
    M.runFrom s (es ++ fs) = some u := by
  induction es generalizing s with
  | nil =>
      obtain rfl : s = t := Option.some.inj hes
      exact hfs
  | cons e es ih =>
      obtain ⟨s', hstep, hrest⟩ := runFrom_cons.mp hes
      exact runFrom_cons.mpr ⟨s', hstep, ih hrest⟩

theorem trace_append
    {s t : σ}
    {es fs : List ε}
    (hes : M.runFrom s es = some t) :
    M.trace seen s (es ++ fs) = M.trace seen s es ++ M.trace seen t fs := by
  induction es generalizing s with
  | nil =>
      obtain rfl : s = t := Option.some.inj hes
      rfl
  | cons e es ih =>
      obtain ⟨s', hstep, hrest⟩ := runFrom_cons.mp hes
      simp only [List.cons_append, trace, hstep, ih hrest, List.append_assoc]

/-- One step, seen as it is. -/
theorem run_one
    {s t : σ}
    {e : ε}
    (hstep : M.step s e = some t) :
    M.runFrom s [e] = some t ∧ M.trace seen s [e] = seen s e := by
  simp only [runFrom, trace, hstep, List.append_nil, and_self]

/-- **Forward simulation.**  Related states stay related along a run that is seen in the
same way. -/
theorem forward_simulation
    {R : σ → τ → Prop}
    (hstep : ∀ s e t a, R s a → M.step s e = some t →
      ∃ fs b, N.runFrom a fs = some b ∧ N.trace seen' a fs = seen s e ∧ R t b)
    {s t : σ}
    {a : τ}
    {es : List ε}
    (h : R s a)
    (hrun : M.runFrom s es = some t) :
    ∃ fs b, N.runFrom a fs = some b ∧ N.trace seen' a fs = M.trace seen s es ∧ R t b := by
  induction es generalizing s a with
  | nil =>
      obtain rfl : s = t := Option.some.inj hrun
      exact ⟨[], a, rfl, rfl, h⟩
  | cons e es ih =>
      obtain ⟨s', hfirst, hrest⟩ := runFrom_cons.mp hrun
      obtain ⟨fs, b, hfs, hseen, hb⟩ := hstep s e s' a h hfirst
      obtain ⟨gs, c, hgs, hlater, hc⟩ := ih hb hrest
      refine ⟨fs ++ gs, c, runFrom_append hfs hgs, ?_, hc⟩
      rw [trace_append hfs, hseen, hlater, trace, hfirst]

end System
end Library
end ZeroRPC
