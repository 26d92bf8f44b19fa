import Mathlib.Tactic

/-!
# Since

A history is the list of its events, the last one at the end.  `Since p q` says that an
event of kind `p` has happened with no event of kind `q` after it.

Main facts:
* `since_concat`, `since_append`: what one more event makes of it, and what more events do;
* `Since.meet`: the last event of a kind is one event.
-/

namespace ZeroRPC
namespace Library

universe u

variable {ε : Type u}

/-- Some event satisfies `p`, and none after it satisfies `q`. -/
def Since (p q : ε → Prop) (es : List ε) : Prop :=
  ∃ before e after, es = before ++ e :: after ∧ p e ∧ ∀ o ∈ after, ¬ q o

variable {p q : ε → Prop} {es : List ε}

theorem not_since_nil : ¬ Since p q [] := by
  rintro ⟨before, e, after, heq, -⟩
  cases before with
  | nil => cases heq
  | cons b before => cases heq

/-- **One more event.** -/
theorem since_concat
    {o : ε} :
    Since p q (es ++ [o]) ↔ p o ∨ (¬ q o ∧ Since p q es) := by
  constructor
  · rintro ⟨before, e, after, heq, hp, hafter⟩
    rcases List.eq_nil_or_concat after with rfl | ⟨rest, a, rfl⟩
    · -- the new event is the one that counts
      obtain ⟨-, hsame⟩ := List.append_inj' heq rfl
      cases hsame
      exact .inl hp
    · rw [List.concat_eq_append] at heq hafter
      have hassoc : es ++ [o] = (before ++ e :: rest) ++ [a] := by simpa using heq
      obtain ⟨hes, hsame⟩ := List.append_inj' hassoc rfl
      cases hsame
      refine .inr ⟨hafter o (by simp), before, e, rest, hes, hp, ?_⟩
      intro x hx
      exact hafter x (List.mem_append_left _ hx)
  · rintro (hp | ⟨hq, before, e, after, rfl, hp, hafter⟩)
    · refine ⟨es, o, [], rfl, hp, ?_⟩
      intro x hx
      cases hx
    · refine ⟨before, e, after ++ [o], by simp, hp, ?_⟩
      intro x hx
      rcases List.mem_append.mp hx with hx | hx
      · exact hafter x hx
      · rwa [List.mem_singleton.mp hx]

/-- **More events.** -/
theorem since_append
    {fs : List ε} :
    Since p q (es ++ fs) ↔ Since p q fs ∨ ((∀ o ∈ fs, ¬ q o) ∧ Since p q es) := by
  induction fs using List.reverseRecOn with
  | nil =>
      rw [List.append_nil]
      exact ⟨fun h => .inr ⟨List.forall_mem_nil _, h⟩, fun h => (h.resolve_left not_since_nil).2⟩
  | append_singleton fs o ih =>
      rw [← List.append_assoc, since_concat, since_concat, ih, List.forall_mem_append,
        List.forall_mem_singleton]
      tauto

/-- Two kinds of event that both end the period meet in its last event. -/
theorem Since.meet
    {p' : ε → Prop}
    (hp : ∀ e, p e → q e)
    (hp' : ∀ e, p' e → q e)
    (h : Since p q es)
    (h' : Since p' q es) :
    ∃ e, p e ∧ p' e := by
  induction es using List.reverseRecOn with
  | nil => exact absurd h not_since_nil
  | append_singleton es o ih =>
      rcases since_concat.mp h with hlast | ⟨hnot, hearlier⟩
      · rcases since_concat.mp h' with hlast' | ⟨hnot', -⟩
        · exact ⟨o, hlast, hlast'⟩
        · exact absurd (hp o hlast) hnot'
      · rcases since_concat.mp h' with hlast' | ⟨-, hearlier'⟩
        · exact absurd (hp' o hlast') hnot
        · exact ih hearlier hearlier'

end Library
end ZeroRPC
