import Mathlib.Tactic

/-!
# Lists of which one entry changes

The parties of a system kept as a list, each in its place: a step takes one of them from one
point to another.  What the others hold, and how many stand at a point, changes by that one
entry only.

Main facts:
* `perm_eraseIdx`: the one entry and the others;
* `filterMap_set`, `filterMap_eraseIdx`: what the entries hold, the one entry apart;
* `count_set_add`, `count_eraseIdx_add`: how many stand at a point;
* `getElem?_of_mem_idxsOf`: the places of all that stand at a point.
-/

namespace ZeroRPC
namespace Library
namespace Slots

universe u v

variable {α : Type u} {β : Type v}

/-- The one entry and the others. -/
theorem perm_eraseIdx
    {l : List α}
    {i : Nat}
    {a : α}
    (h : l[i]? = some a) :
    l.Perm (a :: l.eraseIdx i) := by
  obtain ⟨hlt, ha⟩ := List.getElem?_eq_some_iff.mp h
  have hperm := List.getElem_cons_eraseIdx_perm hlt
  rw [ha] at hperm
  exact hperm.symm

theorem filterMap_set
    {f : α → Option β}
    {l : List α}
    {i : Nat}
    {a : α}
    (h : l[i]? = some a)
    (b : α) :
    ((l.set i b).filterMap f).Perm ((f b).toList ++ (l.eraseIdx i).filterMap f) := by
  obtain ⟨hlt, -⟩ := List.getElem?_eq_some_iff.mp h
  have hperm := (List.set_perm_cons_eraseIdx hlt b).filterMap f
  cases hb : f b with
  | none => simpa [hb] using hperm
  | some x => simpa [hb] using hperm

theorem filterMap_eraseIdx
    {f : α → Option β}
    {l : List α}
    {i : Nat}
    {a : α}
    (h : l[i]? = some a) :
    (l.filterMap f).Perm ((f a).toList ++ (l.eraseIdx i).filterMap f) := by
  have hperm := (perm_eraseIdx h).filterMap f
  cases ha : f a with
  | none => simpa [ha] using hperm
  | some x => simpa [ha] using hperm

section Count

variable [DecidableEq α]

theorem count_set_add
    {l : List α}
    {i : Nat}
    {a : α}
    (h : l[i]? = some a)
    (b c : α) :
    (l.set i b).count c + (if a = c then 1 else 0) = l.count c + (if b = c then 1 else 0) := by
  obtain ⟨hlt, ha⟩ := List.getElem?_eq_some_iff.mp h
  have hset := List.count_set (a := b) (b := c) hlt
  simp only [ha, beq_iff_eq] at hset
  by_cases hac : a = c
  · have hpos : 0 < l.count c := List.count_pos_iff.mpr (hac ▸ List.mem_of_getElem? h)
    rw [if_pos hac] at hset ⊢
    omega
  · rw [if_neg hac] at hset ⊢
    omega

theorem count_eraseIdx_add
    {l : List α}
    {i : Nat}
    {a : α}
    (h : l[i]? = some a)
    (c : α) :
    (l.eraseIdx i).count c + (if a = c then 1 else 0) = l.count c := by
  have hcount := (perm_eraseIdx h).count_eq c
  rw [List.count_cons] at hcount
  simpa only [beq_iff_eq] using hcount.symm

/-- What stands at a place that counts. -/
theorem getElem?_of_mem_idxsOf
    {l : List α}
    {i : Nat}
    {a : α}
    (h : i ∈ l.idxsOf a) :
    l[i]? = some a := by
  obtain ⟨hlt, ha⟩ := List.mem_idxsOf_iff_exists_getElem_pos.mp h
  rw [List.getElem?_eq_getElem hlt, beq_iff_eq.mp ha]

end Count

end Slots
end Library
end ZeroRPC
