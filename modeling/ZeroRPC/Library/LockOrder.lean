import ZeroRPC.Library.Transition

/-!
# Locks that are taken in order

What a routine does with locks: it works under a lock and gives it back at the end of the
block, however the block is left; it waits for a condition, which gives the innermost lock
back and takes it again; it goes one way or another, or round a loop.  It may throw, at any
point; the exception leaves all blocks up to the next handler.  Locks have ranks, and a
routine is ordered if it takes a lock only when all the locks it holds have smaller ranks.

Main facts:
* `Nested.decreasing`: the locks a thread holds, the last one first, have decreasing ranks;
* `Disciplined.step`: who owns a lock holds it, in every reachable state;
* `Disciplined.progress`: a thread with something left to do can go on, or the owner of some
  lock can.
-/

namespace ZeroRPC
namespace Library

universe u

inductive Routine (Λ : Type u)
  | work
  | locked (l : Λ) (body : Routine Λ)
  | wait (l : Λ)
  | seq (first rest : Routine Λ)
  | either (a b : Routine Λ)
  | loop (body : Routine Λ)
  | attempt (body : Routine Λ)

namespace Routine

variable {Λ : Type u}

/-- The locks taken have larger ranks than `top`, the last lock taken before. -/
def Ordered (rank : Λ → Nat) : Option Λ → Routine Λ → Prop
  | _, .work => True
  | top, .locked l body => (∀ k, top = some k → rank k < rank l) ∧ body.Ordered rank (some l)
  | top, .wait l => top = some l
  | top, .seq first rest => first.Ordered rank top ∧ rest.Ordered rank top
  | top, .either a b => a.Ordered rank top ∧ b.Ordered rank top
  | top, .loop body => body.Ordered rank top
  | top, .attempt body => body.Ordered rank top

end Routine

/-- What a thread has left to do, the next thing first. -/
inductive Frame (Λ : Type u)
  | run (r : Routine Λ)
  | release (l : Λ)
  | retake (l : Λ)
  | catches

namespace Frame

variable {Λ : Type u}

/-- The locks held, the last one taken first. -/
def held : List (Frame Λ) → List Λ
  | [] => []
  | .run _ :: rest => held rest
  | .release l :: rest => l :: held rest
  | .retake _ :: rest => (held rest).tail
  | .catches :: rest => held rest

/-- What an exception leaves to be done: the locks on the way to the handler are given back. -/
def unwound : List (Frame Λ) → List (Frame Λ)
  | [] => []
  | .run _ :: rest => unwound rest
  | .release l :: rest => .release l :: unwound rest
  | .retake l :: rest => .retake l :: unwound rest
  | .catches :: rest => rest

end Frame

structure Threads (Λ : Type u) where
  owner : Λ → Option Nat
  todo : Nat → List (Frame Λ)

/-- A thread goes on, one way or the other, or throws. -/
inductive Turn
  | go (t : Nat) (branch : Bool)
  | throws (t : Nat)

namespace Threads

variable {Λ : Type u} [DecidableEq Λ]

def goto (s : Threads Λ) (t : Nat) (left : List (Frame Λ)) : Threads Λ :=
  { s with todo := Function.update s.todo t left }

/-- Thread `t` takes the lock, if it is free, and goes on. -/
def take (s : Threads Λ) (t : Nat) (l : Λ) (left : List (Frame Λ)) : Option (Threads Λ) :=
  if s.owner l = none then
    some { s.goto t left with owner := Function.update s.owner l (some t) }
  else
    none

def give (s : Threads Λ) (t : Nat) (l : Λ) (left : List (Frame Λ)) : Threads Λ :=
  { s.goto t left with owner := Function.update s.owner l none }

def advance (s : Threads Λ) (t : Nat) (branch : Bool) : Option (Threads Λ) :=
  match s.todo t with
  | [] => none
  | .run .work :: rest => some (s.goto t rest)
  | .run (.locked l body) :: rest => s.take t l (.run body :: .release l :: rest)
  | .run (.wait l) :: rest => some (s.give t l (.retake l :: rest))
  | .run (.seq a b) :: rest => some (s.goto t (.run a :: .run b :: rest))
  | .run (.either a b) :: rest => some (s.goto t (.run (if branch then a else b) :: rest))
  | .run (.loop body) :: rest =>
      some (s.goto t (if branch then .run body :: .run (.loop body) :: rest else rest))
  | .run (.attempt body) :: rest => some (s.goto t (.run body :: .catches :: rest))
  | .release l :: rest => some (s.give t l rest)
  | .retake l :: rest => s.take t l rest
  | .catches :: rest => some (s.goto t rest)

def step (s : Threads Λ) : Turn → Option (Threads Λ)
  | .go t branch => s.advance t branch
  | .throws t =>
      match s.todo t with
      | .run _ :: rest => some (s.goto t (Frame.unwound rest))
      | _ => none

/-- Every thread runs a routine of its own. -/
def init (programs : Nat → Routine Λ) : Threads Λ where
  owner := fun _ => none
  todo := fun t => [.run (programs t)]

def system (programs : Nat → Routine Λ) : System (Threads Λ) Turn where
  init := init programs
  step := step

end Threads

section Order

variable {Λ : Type u} {rank : Λ → Nat}

/-- What is left to do keeps to the order. -/
def Nested (rank : Λ → Nat) : List (Frame Λ) → Prop
  | [] => True
  | .run r :: rest => r.Ordered rank (Frame.held rest).head? ∧ Nested rank rest
  | .release l :: rest =>
      (∀ k, (Frame.held rest).head? = some k → rank k < rank l) ∧ Nested rank rest
  | .retake l :: rest => (Frame.held rest).head? = some l ∧ Nested rank rest
  | .catches :: rest => Nested rank rest

theorem Nested.rest
    {frame : Frame Λ}
    {rest : List (Frame Λ)}
    (h : Nested rank (frame :: rest)) :
    Nested rank rest := by
  cases frame with
  | run r => exact h.2
  | release l => exact h.2
  | retake l => exact h.2
  | catches => exact h

/-- **The locks held have decreasing ranks.** -/
theorem Nested.decreasing
    {left : List (Frame Λ)}
    (h : Nested rank left) :
    (Frame.held left).Pairwise fun k l => rank l < rank k := by
  induction left with
  | nil => exact .nil
  | cons frame rest ih =>
      have hrest := ih h.rest
      cases frame with
      | run r => exact hrest
      | retake l => exact hrest.tail
      | catches => exact hrest
      | release l =>
          rw [Frame.held, List.pairwise_cons]
          refine ⟨?_, hrest⟩
          intro k hk
          cases hheld : Frame.held rest with
          | nil =>
              rw [hheld] at hk
              cases hk
          | cons top others =>
              rw [hheld] at hk hrest
              have htop : rank top < rank l := h.1 top (by rw [hheld]; rfl)
              rcases List.mem_cons.mp hk with rfl | hk
              · exact htop
              · exact (List.rel_of_pairwise_cons hrest hk).trans htop

/-- A lock that ranks above the last one taken ranks above all. -/
theorem Nested.above
    {left : List (Frame Λ)}
    {l : Λ}
    (h : Nested rank left)
    (hl : ∀ k, (Frame.held left).head? = some k → rank k < rank l) :
    ∀ k ∈ Frame.held left, rank k < rank l := by
  have hnested : Nested rank (.release l :: left) := ⟨hl, h⟩
  exact fun k hk => List.rel_of_pairwise_cons hnested.decreasing hk

/-- No lock is held twice. -/
theorem Nested.nodup
    {left : List (Frame Λ)}
    (h : Nested rank left) :
    (Frame.held left).Nodup :=
  h.decreasing.imp fun hless => by
    rintro rfl
    exact lt_irrefl _ hless

/-- An exception gives back nothing at once. -/
theorem held_unwound (left : List (Frame Λ)) :
    Frame.held (Frame.unwound left) = Frame.held left := by
  induction left with
  | nil => rfl
  | cons frame rest ih =>
      cases frame with
      | run r => exact ih
      | release l => exact congrArg (l :: ·) ih
      | retake l => exact congrArg List.tail ih
      | catches => rfl

theorem Nested.unwound
    {left : List (Frame Λ)}
    (h : Nested rank left) :
    Nested rank (Frame.unwound left) := by
  induction left with
  | nil => trivial
  | cons frame rest ih =>
      cases frame with
      | run r => exact ih h.2
      | catches => exact h
      | release l =>
          refine ⟨?_, ih h.2⟩
          rw [held_unwound]
          exact h.1
      | retake l =>
          refine ⟨?_, ih h.2⟩
          rw [held_unwound]
          exact h.1

/-- What is left to do keeps to the order, and who owns a lock holds it. -/
structure Disciplined (rank : Λ → Nat) (s : Threads Λ) : Prop where
  nested : ∀ t, Nested rank (s.todo t)
  owned : ∀ l t, s.owner l = some t ↔ l ∈ Frame.held (s.todo t)

variable {s s' : Threads Λ} {t : Nat} {l : Λ} {left : List (Frame Λ)}

theorem disciplined_init
    {programs : Nat → Routine Λ}
    (hprograms : ∀ t, (programs t).Ordered rank none) :
    Disciplined rank (Threads.init programs) where
  nested := fun t => ⟨hprograms t, trivial⟩
  owned := by
    intro l t
    refine iff_of_false ?_ ?_
    · rintro ⟨⟩
    · rintro ⟨⟩

theorem Disciplined.nested_goto
    (h : Disciplined rank s)
    (hleft : Nested rank left)
    (u : Nat) :
    Nested rank (Function.update s.todo t left u) := by
  by_cases hut : u = t
  · rw [hut, Function.update_self]
    exact hleft
  · rw [Function.update_of_ne hut]
    exact h.nested u

/-- Nobody else holds a lock of thread `t`. -/
theorem Disciplined.unique
    (h : Disciplined rank s)
    {u : Nat}
    (ht : l ∈ Frame.held (s.todo t))
    (hu : l ∈ Frame.held (s.todo u)) :
    u = t :=
  Option.some.inj (((h.owned l u).mpr hu).symm.trans ((h.owned l t).mpr ht))

theorem Disciplined.goto
    (h : Disciplined rank s)
    (hheld : Frame.held left = Frame.held (s.todo t))
    (hleft : Nested rank left) :
    Disciplined rank (s.goto t left) where
  nested := h.nested_goto hleft
  owned := by
    intro k u
    show s.owner k = some u ↔ k ∈ Frame.held (Function.update s.todo t left u)
    rw [h.owned k u]
    by_cases hut : u = t
    · rw [hut, Function.update_self, hheld]
    · rw [Function.update_of_ne hut]

variable [DecidableEq Λ]

theorem Disciplined.take
    (h : Disciplined rank s)
    (hheld : Frame.held left = l :: Frame.held (s.todo t))
    (hleft : Nested rank left)
    (htake : s.take t l left = some s') :
    Disciplined rank s' := by
  simp only [Threads.take, Option.ite_none_right_eq_some, Option.some.injEq] at htake
  obtain ⟨hfree, rfl⟩ := htake
  refine ⟨h.nested_goto hleft, ?_⟩
  intro k u
  show Function.update s.owner l (some t) k = some u ↔
    k ∈ Frame.held (Function.update s.todo t left u)
  by_cases hkl : k = l
  · subst hkl
    rw [Function.update_self]
    by_cases hut : u = t
    · rw [hut, Function.update_self, hheld]
      exact iff_of_true rfl List.mem_cons_self
    · rw [Function.update_of_ne hut]
      refine iff_of_false (fun hsame => hut (Option.some.inj hsame).symm) ?_
      intro hk
      rw [(h.owned k u).mpr hk] at hfree
      cases hfree
  · rw [Function.update_of_ne hkl, h.owned k u]
    by_cases hut : u = t
    · rw [hut, Function.update_self, hheld, List.mem_cons, or_iff_right hkl]
    · rw [Function.update_of_ne hut]

theorem Disciplined.give
    (h : Disciplined rank s)
    (hheld : Frame.held (s.todo t) = l :: Frame.held left)
    (hleft : Nested rank left) :
    Disciplined rank (s.give t l left) := by
  refine ⟨h.nested_goto hleft, ?_⟩
  intro k u
  show Function.update s.owner l none k = some u ↔
    k ∈ Frame.held (Function.update s.todo t left u)
  have hl : l ∈ Frame.held (s.todo t) := by rw [hheld]; exact List.mem_cons_self
  by_cases hkl : k = l
  · subst hkl
    rw [Function.update_self]
    refine iff_of_false (by rintro ⟨⟩) ?_
    by_cases hut : u = t
    · rw [hut, Function.update_self]
      have hnodup := (h.nested t).nodup
      rw [hheld] at hnodup
      exact (List.nodup_cons.mp hnodup).1
    · rw [Function.update_of_ne hut]
      exact fun hk => hut (h.unique hl hk)
  · rw [Function.update_of_ne hkl, h.owned k u]
    by_cases hut : u = t
    · rw [hut, Function.update_self, hheld, List.mem_cons, or_iff_right hkl]
    · rw [Function.update_of_ne hut]

theorem Disciplined.advance
    {branch : Bool}
    (h : Disciplined rank s)
    (hstep : s.advance t branch = some s') :
    Disciplined rank s' := by
  have hnested := h.nested t
  simp only [Threads.advance] at hstep
  cases htodo : s.todo t with
  | nil =>
      rw [htodo] at hstep
      cases hstep
  | cons frame rest =>
      rw [htodo] at hstep hnested
      cases frame with
      | catches =>
          obtain rfl := Option.some.inj hstep
          exact h.goto (by rw [htodo]; rfl) hnested
      | release l =>
          obtain rfl := Option.some.inj hstep
          exact h.give (by rw [htodo]; rfl) hnested.2
      | retake l =>
          obtain ⟨htop, hrest⟩ := hnested
          refine h.take ?_ hrest hstep
          rw [htodo]
          exact (List.cons_head?_tail htop).symm
      | run r =>
          obtain ⟨hordered, hrest⟩ := hnested
          cases r with
          | work =>
              obtain rfl := Option.some.inj hstep
              exact h.goto (by rw [htodo]; rfl) hrest
          | locked l body =>
              have hinside : Nested rank (.run body :: .release l :: rest) :=
                ⟨hordered.2, hordered.1, hrest⟩
              exact h.take (by rw [htodo]; rfl) hinside hstep
          | wait l =>
              obtain rfl := Option.some.inj hstep
              refine h.give ?_ ⟨hordered, hrest⟩
              rw [htodo]
              exact (List.cons_head?_tail hordered).symm
          | seq a b =>
              obtain rfl := Option.some.inj hstep
              have hboth : Nested rank (.run a :: .run b :: rest) :=
                ⟨hordered.1, hordered.2, hrest⟩
              exact h.goto (by rw [htodo]; rfl) hboth
          | either a b =>
              obtain rfl := Option.some.inj hstep
              have hway : Nested rank (.run (if branch then a else b) :: rest) := by
                refine ⟨?_, hrest⟩
                split
                · exact hordered.1
                · exact hordered.2
              exact h.goto (by rw [htodo]; rfl) hway
          | loop body =>
              obtain rfl := Option.some.inj hstep
              split
              · have hloop : Nested rank (.run body :: .run (.loop body) :: rest) :=
                  ⟨hordered, hordered, hrest⟩
                exact h.goto (by rw [htodo]; rfl) hloop
              · exact h.goto (by rw [htodo]; rfl) hrest
          | attempt body =>
              obtain rfl := Option.some.inj hstep
              have hbody : Nested rank (.run body :: .catches :: rest) := ⟨hordered, hrest⟩
              exact h.goto (by rw [htodo]; rfl) hbody

/-- **Every step keeps to the order.** -/
theorem Disciplined.step
    {turn : Turn}
    (h : Disciplined rank s)
    (hstep : s.step turn = some s') :
    Disciplined rank s' := by
  cases turn with
  | go t branch => exact h.advance hstep
  | throws t =>
      have hnested := h.nested t
      simp only [Threads.step] at hstep
      cases htodo : s.todo t with
      | nil =>
          rw [htodo] at hstep
          cases hstep
      | cons frame rest =>
          rw [htodo] at hstep hnested
          cases frame with
          | run r =>
              obtain rfl := Option.some.inj hstep
              refine h.goto ?_ hnested.2.unwound
              rw [held_unwound, htodo]
              rfl
          | _ => cases hstep

/-! ### Progress -/

def Threads.CanStep (s : Threads Λ) (t : Nat) : Prop :=
  ∃ branch, (s.step (.go t branch)).isSome = true

/-- A thread that cannot go on waits for a lock above all those it holds. -/
theorem Disciplined.blocked
    (h : Disciplined rank s)
    (ht : s.todo t ≠ []) :
    s.CanStep t ∨ ∃ l u, s.owner l = some u ∧ ∀ k ∈ Frame.held (s.todo t), rank k < rank l := by
  have hnested := h.nested t
  have htake : ∀ l left, (∀ k ∈ Frame.held (s.todo t), rank k < rank l) →
      (∀ branch, s.step (.go t branch) = s.take t l left) →
        s.CanStep t ∨
          ∃ l u, s.owner l = some u ∧ ∀ k ∈ Frame.held (s.todo t), rank k < rank l := by
    intro l left habove hstep
    cases howner : s.owner l with
    | none =>
        refine .inl ⟨true, ?_⟩
        rw [hstep true, Threads.take, if_pos howner]
        rfl
    | some u => exact .inr ⟨l, u, howner, habove⟩
  cases htodo : s.todo t with
  | nil => exact absurd htodo ht
  | cons frame rest =>
      rw [htodo] at hnested
      have hgo : (s.advance t true).isSome = true → s.CanStep t := fun hsome => ⟨true, hsome⟩
      cases frame with
      | retake l =>
          rw [← htodo]
          refine htake l rest ?_ (fun branch => by simp only [Threads.step, Threads.advance, htodo])
          obtain ⟨htop, hrest⟩ := hnested
          have hdecreasing := hrest.decreasing
          rw [← List.cons_head?_tail htop] at hdecreasing
          rw [htodo]
          exact fun k hk => List.rel_of_pairwise_cons hdecreasing hk
      | run r =>
          obtain ⟨hordered, hrest⟩ := hnested
          cases r with
          | locked l body =>
              rw [← htodo]
              refine htake l (.run body :: .release l :: rest) ?_
                (fun branch => by simp only [Threads.step, Threads.advance, htodo])
              rw [htodo]
              exact hrest.above hordered.1
          | _ => exact .inl (hgo (by simp only [Threads.advance, htodo, Option.isSome_some]))
      | _ => exact .inl (hgo (by simp only [Threads.advance, htodo, Option.isSome_some]))

/-- From an owner to the owner of what it waits for, and on, to one that can go on. -/
theorem Disciplined.owner_progress
    {bound : Nat}
    (hbound : ∀ l, rank l < bound)
    (h : Disciplined rank s)
    (howner : s.owner l = some t) :
    ∃ u, s.CanStep u ∧ ∃ k, s.owner k = some u := by
  induction hn : bound - rank l using Nat.strong_induction_on generalizing l t with
  | h n ih =>
      have hheld : l ∈ Frame.held (s.todo t) := (h.owned l t).mp howner
      have htodo : s.todo t ≠ [] := by
        intro hnil
        rw [hnil] at hheld
        cases hheld
      rcases h.blocked htodo with hgo | ⟨k, u, hu, habove⟩
      · exact ⟨t, hgo, l, howner⟩
      · have hless := habove l hheld
        have hk := hbound k
        exact ih (bound - rank k) (by omega) hu rfl

/-- **A thread with something left to do can go on, or the owner of some lock can.** -/
theorem Disciplined.progress
    {bound : Nat}
    (hbound : ∀ l, rank l < bound)
    (h : Disciplined rank s)
    (ht : s.todo t ≠ []) :
    s.CanStep t ∨ ∃ u, s.CanStep u ∧ ∃ k, s.owner k = some u := by
  rcases h.blocked ht with hgo | ⟨l, u, hu, -⟩
  · exact .inl hgo
  · exact .inr (h.owner_progress hbound hu)

theorem reachable_disciplined
    {programs : Nat → Routine Λ}
    (hprograms : ∀ t, (programs t).Ordered rank none)
    (h : (Threads.system programs).Reachable System.anyStep s) :
    Disciplined rank s :=
  h.invariant (disciplined_init hprograms) fun _ _ _ hs _ hstep => hs.step hstep

end Order

end Library
end ZeroRPC
