import Mathlib.Tactic
import Mathlib.Data.List.Perm.Basic

/-!
# Lists that keep one element per key

A table without duplicate keys is kept as the list of its elements in the order
in which it is traversed.  Which keys count as equal (`eqv`), where a new
element goes (`place`) and what an element with a key already present does
(`combine`) are parameters, so that a sorted table, a hash table, a set and a
map are one development: `place` need only return a permutation of the list
with the new element in front.

Main facts:
* `upsertAll_perm`: elements with distinct keys are all kept;
* `SameElements`: two lists hold the same elements up to a relation, an
  equivalence whenever the relation is one;
* `upsertAll_map_sameElements`: a table filled from the images of its elements
  holds the same elements.
-/

namespace ZeroRPC
namespace Library

universe u v

section Upsert

variable {α : Type u}

/-- A placement keeps every element and adds the new one. -/
def IsPlacement (place : List α → α → List α) : Prop :=
  ∀ xs x, (place xs x).Perm (x :: xs)

/-- Add `x`, or combine it with the element that has its key. -/
def upsert
    (eqv : α → α → Bool)
    (place : List α → α → List α)
    (combine : α → α → α)
    (xs : List α)
    (x : α) :
    List α :=
  if xs.any (eqv x) then
    xs.map fun y => if eqv x y then combine y x else y
  else
    place xs x

/-- Add the elements of a list, first to last. -/
def upsertAll
    (eqv : α → α → Bool)
    (place : List α → α → List α)
    (combine : α → α → α)
    (xs ys : List α) :
    List α :=
  ys.foldl (upsert eqv place combine) xs

variable {eqv : α → α → Bool} {place : List α → α → List α} {combine : α → α → α}

@[simp] theorem upsertAll_nil (xs : List α) :
    upsertAll eqv place combine xs [] = xs := rfl

@[simp] theorem upsertAll_cons (xs ys : List α) (y : α) :
    upsertAll eqv place combine xs (y :: ys) =
      upsertAll eqv place combine (upsert eqv place combine xs y) ys := rfl

/-- An element whose key is new is placed. -/
theorem upsert_of_fresh
    {xs : List α}
    {x : α}
    (h : ∀ y ∈ xs, eqv x y = false) :
    upsert eqv place combine xs x = place xs x := by
  have hany : xs.any (eqv x) = false := by
    rw [List.any_eq_false]
    intro y hy
    simp [h y hy]
  simp [upsert, hany]

/-- Elements whose keys differ from one another and from those present are all
kept. -/
theorem upsertAll_perm (hplace : IsPlacement place) :
    ∀ {ys xs : List α},
      ys.Pairwise (fun a b => eqv b a = false) →
      (∀ x ∈ xs, ∀ y ∈ ys, eqv y x = false) →
      (upsertAll eqv place combine xs ys).Perm (xs ++ ys)
  | [], xs, _, _ => by simp
  | y :: ys, xs, hys, hxs => by
      obtain ⟨hy, hys⟩ := List.pairwise_cons.mp hys
      have hperm : (place xs y).Perm (y :: xs) := hplace xs y
      have hnext : ∀ x ∈ place xs y, ∀ z ∈ ys, eqv z x = false := by
        intro x hx z hz
        rcases List.mem_cons.mp (hperm.subset hx) with rfl | hx
        · exact hy z hz
        · exact hxs x hx z (by simp [hz])
      rw [upsertAll_cons, upsert_of_fresh fun x hx => hxs x hx y (by simp)]
      have ih := upsertAll_perm hplace hys hnext
      exact ih.trans ((hperm.append_right ys).trans List.perm_middle.symm)

end Upsert

section SameElements

variable {α : Type u}

/-- Every element of either list is related to one of the other. -/
def SameElements (R : α → α → Prop) (xs ys : List α) : Prop :=
  (∀ x ∈ xs, ∃ y ∈ ys, R x y) ∧ ∀ y ∈ ys, ∃ x ∈ xs, R x y

variable {R : α → α → Prop} {xs ys zs : List α}

theorem SameElements.refl (h : ∀ x, R x x) (xs : List α) : SameElements R xs xs :=
  ⟨fun x hx => ⟨x, hx, h x⟩, fun x hx => ⟨x, hx, h x⟩⟩

theorem SameElements.symm
    (hsymm : ∀ x y, R x y → R y x)
    (h : SameElements R xs ys) :
    SameElements R ys xs := by
  refine ⟨fun y hy => ?_, fun x hx => ?_⟩
  · obtain ⟨x, hx, hR⟩ := h.2 y hy
    exact ⟨x, hx, hsymm x y hR⟩
  · obtain ⟨y, hy, hR⟩ := h.1 x hx
    exact ⟨y, hy, hsymm x y hR⟩

theorem SameElements.trans
    (htrans : ∀ x y z, R x y → R y z → R x z)
    (h₁ : SameElements R xs ys)
    (h₂ : SameElements R ys zs) :
    SameElements R xs zs := by
  refine ⟨fun x hx => ?_, fun z hz => ?_⟩
  · obtain ⟨y, hy, hxy⟩ := h₁.1 x hx
    obtain ⟨z, hz, hyz⟩ := h₂.1 y hy
    exact ⟨z, hz, htrans x y z hxy hyz⟩
  · obtain ⟨y, hy, hyz⟩ := h₂.2 z hz
    obtain ⟨x, hx, hxy⟩ := h₁.2 y hy
    exact ⟨x, hx, htrans x y z hxy hyz⟩

/-- Lists related one by one compose when the relation does. -/
theorem forall₂_trans (htrans : ∀ x y z, R x y → R y z → R x z) :
    ∀ {xs ys zs : List α},
      List.Forall₂ R xs ys → List.Forall₂ R ys zs → List.Forall₂ R xs zs
  | _, _, _, .nil, .nil => .nil
  | _, _, _, .cons h₁ t₁, .cons h₂ t₂ =>
      .cons (htrans _ _ _ h₁ h₂) (forall₂_trans htrans t₁ t₂)

/-- A permutation of elements related one by one holds the same elements. -/
theorem SameElements.of_perm
    (hR : List.Forall₂ R xs ys)
    (hperm : zs.Perm xs) :
    SameElements R zs ys := by
  refine ⟨fun z hz => ?_, fun y hy => ?_⟩
  · obtain ⟨i, hi, rfl⟩ := List.mem_iff_getElem.mp (hperm.subset hz)
    have hi' : i < ys.length := hR.length_eq ▸ hi
    exact ⟨ys[i], List.getElem_mem hi', List.forall₂_iff_get.mp hR |>.2 i hi hi'⟩
  · obtain ⟨i, hi, rfl⟩ := List.mem_iff_getElem.mp hy
    have hi' : i < xs.length := hR.length_eq ▸ hi
    exact ⟨xs[i], hperm.symm.subset (List.getElem_mem hi'),
      List.forall₂_iff_get.mp hR |>.2 i hi' hi⟩

theorem SameElements.eq_nil (h : SameElements R xs []) : xs = [] := by
  refine List.eq_nil_iff_forall_not_mem.mpr fun x hx => ?_
  obtain ⟨y, hy, _⟩ := h.1 x hx
  exact absurd hy (List.not_mem_nil)

/-- Inserting the images of elements with distinct keys into an empty table
keeps them all. -/
theorem upsertAll_map_sameElements
    {eqv : α → α → Bool}
    {place : List α → α → List α}
    {combine : α → α → α}
    {g : α → α}
    (hplace : IsPlacement place)
    (hR : ∀ x ∈ xs, R (g x) x)
    (hapart : xs.Pairwise fun a b => eqv (g b) (g a) = false) :
    SameElements R (upsertAll eqv place combine [] (xs.map g)) xs := by
  have hperm : (upsertAll eqv place combine [] (xs.map g)).Perm (xs.map g) := by
    rw [← List.nil_append (xs.map g)]
    exact upsertAll_perm hplace (List.pairwise_map.mpr hapart) (by simp)
  have hrel : List.Forall₂ R (xs.map g) xs := by
    rw [List.forall₂_map_left_iff]
    exact List.forall₂_same.mpr hR
  exact SameElements.of_perm hrel hperm

end SameElements

end Library
end ZeroRPC
