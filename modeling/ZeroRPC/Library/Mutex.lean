import Mathlib.Tactic

/-!
# One lock, many threads

Each thread stands at a point of its program.  `Exclusive inside threads lock` says
that a thread stands at a point inside the critical section only while it holds the
lock; a thread changes its own point, takes the lock when it is free, and gives it
back when it leaves.

Main facts:
* `Exclusive.eq`: at most one thread is inside;
* `Exclusive.move`, `Exclusive.acquire`, `Exclusive.release`: the three ways on.
-/

namespace ZeroRPC
namespace Library

universe u

variable {π : Type u} {inside : π → Bool} {threads : Nat → π} {lock : Option Nat} {t : Nat}

/-- Whoever is inside holds the lock. -/
def Exclusive (inside : π → Bool) (threads : Nat → π) (lock : Option Nat) : Prop :=
  ∀ t, inside (threads t) = true → lock = some t

namespace Exclusive

theorem eq
    {u : Nat}
    (h : Exclusive inside threads lock)
    (ht : inside (threads t) = true)
    (hu : inside (threads u) = true) :
    t = u :=
  Option.some.inj ((h t ht).symm.trans (h u hu))

/-- A thread goes on, but not into the critical section. -/
theorem move
    {p : π}
    (h : Exclusive inside threads lock)
    (hp : inside p = true → inside (threads t) = true) :
    Exclusive inside (Function.update threads t p) lock := by
  intro u hu
  by_cases hut : u = t
  · subst hut
    rw [Function.update_self] at hu
    exact h u (hp hu)
  · rw [Function.update_of_ne hut] at hu
    exact h u hu

theorem acquire
    (h : Exclusive inside threads none)
    (p : π) :
    Exclusive inside (Function.update threads t p) (some t) := by
  intro u hu
  by_cases hut : u = t
  · rw [hut]
  · rw [Function.update_of_ne hut] at hu
    cases h u hu

theorem release
    {p : π}
    (h : Exclusive inside threads (some t))
    (hp : inside p = false) :
    Exclusive inside (Function.update threads t p) none := by
  intro u hu
  by_cases hut : u = t
  · subst hut
    rw [Function.update_self, hp] at hu
    cases hu
  · rw [Function.update_of_ne hut] at hu
    exact absurd (Option.some.inj (h u hu)).symm hut

end Exclusive

end Library
end ZeroRPC
