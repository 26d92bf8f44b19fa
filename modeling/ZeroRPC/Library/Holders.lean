import Mathlib.Tactic

/-!
# Tasks that hold something, tasks that see to something

Any number of tasks, each in a state of its own, changes one state at a time.  What some
of them hold is written down in an order, one entry a task; what has to be done is seen
to by some task in a state that will do it.

Main facts:
* `Holders.add`, `Holders.remove`, `Holders.keep`: the order as the tasks go on;
* `Holders.eq_nil`, `Holders.eq_singleton`: the order when nobody, or one task, holds
  anything;
* `SeenTo.update`, `SeenTo.self`: a task that goes on may leave it to the others;
* `HandedOut.give`, `HandedOut.finish`: what is handed out is worked on and done once.
-/

namespace ZeroRPC
namespace Library

universe u v

variable {τ : Type u} {β : Type v} {tasks : Nat → τ} {t : Nat} {task : τ}

/-! ### Holding -/

/-- The entries of an order are what the tasks hold, one entry a task. -/
structure Holders (holds : τ → Option β) (tasks : Nat → τ) (order : List (Nat × β)) : Prop where
  nodup : (order.map Prod.fst).Nodup
  held : ∀ entry ∈ order, holds (tasks entry.1) = some entry.2
  listed : ∀ {t x}, holds (tasks t) = some x → (t, x) ∈ order

namespace Holders

variable {holds : τ → Option β} {order : List (Nat × β)}

theorem nil (hnone : ∀ t, holds (tasks t) = none) : Holders holds tasks [] where
  nodup := List.nodup_nil
  held := by
    intro entry hentry
    cases hentry
  listed := by
    intro t x ht
    rw [hnone t] at ht
    cases ht

/-- A task that holds nothing has no entry. -/
theorem not_mem
    (h : Holders holds tasks order)
    (ht : holds (tasks t) = none) :
    t ∉ order.map Prod.fst := by
  intro hmem
  obtain ⟨entry, hentry, rfl⟩ := List.mem_map.mp hmem
  have hheld := h.held entry hentry
  rw [ht] at hheld
  cases hheld

theorem eq_nil
    (h : Holders holds tasks order)
    (hnone : ∀ t, holds (tasks t) = none) :
    order = [] := by
  refine List.eq_nil_iff_forall_not_mem.mpr ?_
  intro entry hentry
  have hheld := h.held entry hentry
  rw [hnone entry.1] at hheld
  cases hheld

/-- A task goes on, and holds what it held. -/
theorem keep
    (h : Holders holds tasks order)
    (hsame : holds task = holds (tasks t)) :
    Holders holds (Function.update tasks t task) order where
  nodup := h.nodup
  held := by
    intro entry hentry
    have hheld := h.held entry hentry
    by_cases hentryt : entry.1 = t
    · rw [hentryt] at hheld ⊢
      rw [Function.update_self, hsame, hheld]
    · rw [Function.update_of_ne hentryt, hheld]
  listed := by
    intro u x hu
    by_cases hut : u = t
    · subst hut
      rw [Function.update_self, hsame] at hu
      exact h.listed hu
    · rw [Function.update_of_ne hut] at hu
      exact h.listed hu

/-- A task takes something. -/
theorem add
    {x : β}
    (h : Holders holds tasks order)
    (hbefore : holds (tasks t) = none)
    (hafter : holds task = some x) :
    Holders holds (Function.update tasks t task) (order ++ [(t, x)]) where
  nodup := by
    rw [List.map_append, List.map_singleton]
    refine h.nodup.append (List.nodup_singleton t) ?_
    exact List.disjoint_singleton.mpr (h.not_mem hbefore)
  held := by
    intro entry hentry
    rcases List.mem_append.mp hentry with hold | hnew
    · have hne : entry.1 ≠ t := by
        rintro rfl
        exact h.not_mem hbefore (List.mem_map_of_mem hold)
      rw [Function.update_of_ne hne]
      exact h.held entry hold
    · rw [List.mem_singleton.mp hnew, Function.update_self, hafter]
  listed := by
    intro u y hu
    by_cases hut : u = t
    · subst hut
      rw [Function.update_self, hafter] at hu
      rw [Option.some.inj hu]
      exact List.mem_append_right _ (List.mem_singleton_self _)
    · rw [Function.update_of_ne hut] at hu
      exact List.mem_append_left _ (h.listed hu)

/-- A task gives away what it held. -/
theorem remove
    (h : Holders holds tasks order)
    (hnone : holds task = none) :
    Holders holds (Function.update tasks t task)
      (order.eraseP fun entry => entry.1 = t) where
  nodup := h.nodup.sublist (List.eraseP_sublist.map Prod.fst)
  held := by
    intro entry hentry
    have hbefore := List.mem_of_mem_eraseP hentry
    have hne : entry.1 ≠ t := by
      rintro rfl
      -- its one entry was erased
      obtain ⟨_, l₁, l₂, hl₁, hat, hsplit, herase⟩ :=
        List.exists_of_eraseP (p := fun e : Nat × β => decide (e.1 = entry.1)) hbefore (by simp)
      have hnodup := h.nodup
      rw [hsplit, List.map_append, List.map_cons] at hnodup
      have hat := of_decide_eq_true hat
      rw [herase] at hentry
      have hkey : entry.1 ∈ (l₁.map Prod.fst) ++ (l₂.map Prod.fst) := by
        rw [← List.map_append]
        exact List.mem_map_of_mem hentry
      rw [hat] at hnodup
      have hperm : (l₁.map Prod.fst ++ entry.1 :: l₂.map Prod.fst).Perm
          (entry.1 :: (l₁.map Prod.fst ++ l₂.map Prod.fst)) := List.perm_middle
      exact (List.nodup_cons.mp (hperm.nodup_iff.mp hnodup)).1 hkey
    rw [Function.update_of_ne hne]
    exact h.held entry hbefore
  listed := by
    intro u x hu
    have hut : u ≠ t := by
      rintro rfl
      rw [Function.update_self, hnone] at hu
      cases hu
    rw [Function.update_of_ne hut] at hu
    exact (List.mem_eraseP_of_neg (by simpa using hut)).mpr (h.listed hu)

/-- When nobody else holds anything, the order is the one entry. -/
theorem eq_singleton
    {x : β}
    (h : Holders holds tasks order)
    (ht : holds (tasks t) = some x)
    (halone : ∀ u, u ≠ t → holds (tasks u) = none) :
    order = [(t, x)] := by
  have hmem := h.listed ht
  have hall : ∀ entry ∈ order, entry = (t, x) := by
    intro entry hentry
    have hheld := h.held entry hentry
    have hkey : entry.1 = t := by
      by_contra hne
      rw [halone _ hne] at hheld
      cases hheld
    rw [hkey, ht] at hheld
    exact Prod.ext hkey (Option.some.inj hheld).symm
  have hnodup := h.nodup.of_map
  cases order with
  | nil => cases hmem
  | cons entry rest =>
      have hfirst := hall entry (List.mem_cons_self ..)
      cases rest with
      | nil => rw [hfirst]
      | cons other rest =>
          have hsecond := hall other (by simp)
          rw [hfirst, hsecond] at hnodup
          simp at hnodup

end Holders

/-! ### Seeing to -/

/-- Some task is in a state that will do it. -/
def SeenTo (good : τ → Bool) (tasks : Nat → τ) : Prop := ∃ t, good (tasks t) = true

namespace SeenTo

variable {good : τ → Bool}

/-- A task that goes on still sees to it if it did. -/
theorem update
    (h : SeenTo good tasks)
    (hkeep : good (tasks t) = true → good task = true) :
    SeenTo good (Function.update tasks t task) := by
  obtain ⟨u, hu⟩ := h
  refine ⟨u, ?_⟩
  by_cases hut : u = t
  · subst hut
    rw [Function.update_self]
    exact hkeep hu
  · rwa [Function.update_of_ne hut]

theorem self
    (h : good task = true) :
    SeenTo good (Function.update tasks t task) :=
  ⟨t, by rwa [Function.update_self]⟩

theorem not_of_none
    (hnone : ∀ t, good (tasks t) = false) :
    ¬ SeenTo good tasks := by
  rintro ⟨t, ht⟩
  rw [hnone t] at ht
  cases ht

end SeenTo

/-! ### Handing out -/

/-- Each thing that was handed out is with one task, or was done once. -/
structure HandedOut {α : Type u} (given : List α) (busy : Nat → Option α) (done : List α) :
    Prop where
  covers : ∀ x, x ∈ given ↔ x ∈ done ∨ ∃ t, busy t = some x
  alone : ∀ {t u x}, busy t = some x → busy u = some x → t = u
  fresh : ∀ {t x}, busy t = some x → x ∉ done
  nodup : done.Nodup

namespace HandedOut

variable {α : Type u} {given done : List α} {busy : Nat → Option α} {x : α}

theorem nil : HandedOut ([] : List α) (fun _ => none) [] where
  covers := by simp
  alone := by
    intro t u x ht
    cases ht
  fresh := by
    intro t x ht
    cases ht
  nodup := List.nodup_nil

/-- A task gets something that was not handed out before. -/
theorem give
    (h : HandedOut given busy done)
    (hnew : x ∉ given)
    (ht : busy t = none) :
    HandedOut (given ++ [x]) (Function.update busy t (some x)) done where
  covers := by
    intro y
    rw [List.mem_append, List.mem_singleton, h.covers y]
    constructor
    · rintro ((hdone | ⟨u, hu⟩) | rfl)
      · exact .inl hdone
      · have hut : u ≠ t := by
          rintro rfl
          rw [ht] at hu
          cases hu
        exact .inr ⟨u, by rwa [Function.update_of_ne hut]⟩
      · exact .inr ⟨t, Function.update_self ..⟩
    · rintro (hdone | ⟨u, hu⟩)
      · exact .inl (.inl hdone)
      · by_cases hut : u = t
        · subst hut
          rw [Function.update_self] at hu
          exact .inr (Option.some.inj hu).symm
        · rw [Function.update_of_ne hut] at hu
          exact .inl (.inr ⟨u, hu⟩)
  alone := by
    -- nobody else has the new one
    have hold : ∀ {u}, busy u = some x → False :=
      fun {u} hu => hnew ((h.covers x).mpr (.inr ⟨u, hu⟩))
    intro u v y hu hv
    by_cases hut : u = t
    · by_cases hvt : v = t
      · rw [hut, hvt]
      · subst hut
        rw [Function.update_self] at hu
        rw [Function.update_of_ne hvt, ← Option.some.inj hu] at hv
        exact (hold hv).elim
    · rw [Function.update_of_ne hut] at hu
      by_cases hvt : v = t
      · subst hvt
        rw [Function.update_self] at hv
        rw [← Option.some.inj hv] at hu
        exact (hold hu).elim
      · rw [Function.update_of_ne hvt] at hv
        exact h.alone hu hv
  fresh := by
    intro u y hu
    by_cases hut : u = t
    · subst hut
      rw [Function.update_self] at hu
      rw [← Option.some.inj hu]
      exact fun hdone => hnew ((h.covers x).mpr (.inl hdone))
    · rw [Function.update_of_ne hut] at hu
      exact h.fresh hu
  nodup := h.nodup

/-- A task is done with what it got. -/
theorem finish
    (h : HandedOut given busy done)
    (ht : busy t = some x) :
    HandedOut given (Function.update busy t none) (done ++ [x]) where
  covers := by
    intro y
    rw [h.covers y, List.mem_append, List.mem_singleton]
    constructor
    · rintro (hdone | ⟨u, hu⟩)
      · exact .inl (.inl hdone)
      · by_cases hut : u = t
        · subst hut
          exact .inl (.inr (Option.some.inj (hu.symm.trans ht)))
        · exact .inr ⟨u, by rwa [Function.update_of_ne hut]⟩
    · rintro ((hdone | rfl) | ⟨u, hu⟩)
      · exact .inl hdone
      · exact .inr ⟨t, ht⟩
      · by_cases hut : u = t
        · subst hut
          rw [Function.update_self] at hu
          cases hu
        · rw [Function.update_of_ne hut] at hu
          exact .inr ⟨u, hu⟩
  alone := by
    intro u v y hu hv
    have hbefore : ∀ {w}, Function.update busy t none w = some y → busy w = some y := by
      intro w hw
      by_cases hwt : w = t
      · subst hwt
        rw [Function.update_self] at hw
        cases hw
      · rwa [Function.update_of_ne hwt] at hw
    exact h.alone (hbefore hu) (hbefore hv)
  fresh := by
    intro u y hu
    by_cases hut : u = t
    · subst hut
      rw [Function.update_self] at hu
      cases hu
    · rw [Function.update_of_ne hut] at hu
      rw [List.mem_append, List.mem_singleton]
      rintro (hdone | rfl)
      · exact h.fresh hu hdone
      · exact hut (h.alone hu ht)
  nodup := by
    refine h.nodup.append (List.nodup_singleton x) ?_
    exact List.disjoint_singleton.mpr (h.fresh ht)

theorem mem_done
    (h : HandedOut given busy done)
    (hidle : ∀ t, busy t = none)
    (hx : x ∈ given) :
    x ∈ done := by
  rcases (h.covers x).mp hx with hdone | ⟨t, ht⟩
  · exact hdone
  · rw [hidle t] at ht
    cases ht

end HandedOut

end Library
end ZeroRPC
