import Mathlib.Tactic

/-!
# Ring buffers in a flat memory

`ring mem capacity head n` are the `n` elements found from `head` on when the index
wraps at `capacity`.  Block copies move them in and out in two pieces: up to the end
of the memory, and the rest from its start.

Main facts:
* `ring_eq_blocks`: two block reads give the elements of the ring;
* `ring_copyTwice`: two block writes after the last element append to the ring.
-/

namespace ZeroRPC
namespace Library
namespace Ring

universe u

variable {α : Type u}

/-- A memory with a block written at an address. -/
def copyTo (mem : Nat → α) (start : Nat) (xs : List α) : Nat → α := fun i =>
  if h : start ≤ i ∧ i - start < xs.length then
    xs.get ⟨i - start, h.2⟩
  else
    mem i

/-- The block of a length at an address. -/
def block (mem : Nat → α) (start n : Nat) : List α :=
  (List.range n).map fun i => mem (start + i)

/-- The elements from `head` on, wrapping at the capacity. -/
def ring (mem : Nat → α) (capacity head n : Nat) : List α :=
  (List.range n).map fun i => mem ((head + i) % capacity)

@[simp]
theorem block_length (mem : Nat → α) (start n : Nat) : (block mem start n).length = n := by
  simp [block]

@[simp]
theorem ring_length (mem : Nat → α) (capacity head n : Nat) :
    (ring mem capacity head n).length = n := by
  simp [ring]

/-- An index less than one turn ahead wraps at most once. -/
theorem wrap
    {capacity head i : Nat}
    (hhead : head < capacity)
    (hi : i ≤ capacity) :
    (head + i) % capacity = if head + i < capacity then head + i else head + i - capacity := by
  by_cases h : head + i < capacity
  · rw [if_pos h, Nat.mod_eq_of_lt h]
  · rw [if_neg h, Nat.mod_eq_sub_mod (by omega), Nat.mod_eq_of_lt (by omega)]

theorem ring_take
    (mem : Nat → α)
    (capacity head : Nat)
    {n count : Nat}
    (h : count ≤ n) :
    (ring mem capacity head n).take count = ring mem capacity head count := by
  rw [ring, ring, ← List.map_take, List.take_range, Nat.min_eq_left h]

theorem ring_drop
    (mem : Nat → α)
    (capacity head n count : Nat) :
    (ring mem capacity head n).drop count =
      ring mem capacity ((head + count) % capacity) (n - count) := by
  refine List.ext_getElem (by simp) ?_
  intro i hi hi'
  simp only [ring, List.getElem_drop, List.getElem_map, List.getElem_range, Nat.mod_add_mod,
    Nat.add_assoc]

/-- Two block reads give the elements of the ring. -/
theorem ring_eq_blocks
    (mem : Nat → α)
    {capacity head count : Nat}
    (hhead : head < capacity)
    (hcount : count ≤ capacity) :
    block mem head (min (capacity - head) count) ++
        block mem 0 (count - min (capacity - head) count) =
      ring mem capacity head count := by
  refine List.ext_getElem (by simp) ?_
  intro i hi hi'
  have hlt : i < count := by simpa using hi'
  simp only [ring, block, List.getElem_append, List.length_map, List.length_range,
    List.getElem_map, List.getElem_range, wrap hhead (by omega : i ≤ capacity)]
  by_cases hfirst : head + i < capacity
  · rw [dif_pos (by omega), if_pos hfirst]
  · rw [dif_neg (by omega), if_neg hfirst]
    congr 1
    omega

/-- The memory after two block writes, seen from the address of the first. -/
theorem copyTwice_apply
    (mem : Nat → α)
    {capacity tail i : Nat}
    {xs : List α}
    (htail : tail < capacity)
    (hi : i < capacity)
    (hcount : xs.length ≤ capacity) :
    copyTo (copyTo mem tail (xs.take (min (capacity - tail) xs.length))) 0
        (xs.drop (min (capacity - tail) xs.length)) ((tail + i) % capacity) =
      if h : i < xs.length then xs[i] else mem ((tail + i) % capacity) := by
  rw [wrap htail hi.le]
  by_cases hfirst : tail + i < capacity
  · rw [if_pos hfirst, copyTo, dif_neg (by simp; omega), copyTo]
    by_cases hin : i < xs.length
    · rw [dif_pos (by simp; omega), dif_pos hin]
      simp
    · rw [dif_neg (by simp; omega), dif_neg hin]
  · rw [if_neg hfirst, copyTo]
    by_cases hin : i < xs.length
    · rw [dif_pos (by simp; omega), dif_pos hin]
      simp only [List.get_eq_getElem, List.getElem_drop]
      congr 1
      omega
    · rw [dif_neg (by simp; omega), dif_neg hin, copyTo, dif_neg (by simp; omega)]

/-- **Two block writes after the last element append to the ring.** -/
theorem ring_copyTwice
    (mem : Nat → α)
    {capacity head size : Nat}
    {xs : List α}
    (hhead : head < capacity)
    (hroom : size + xs.length ≤ capacity) :
    ring
        (copyTo
          (copyTo mem ((head + size) % capacity)
            (xs.take (min (capacity - (head + size) % capacity) xs.length)))
          0 (xs.drop (min (capacity - (head + size) % capacity) xs.length)))
        capacity head (size + xs.length) =
      ring mem capacity head size ++ xs := by
  have htail : (head + size) % capacity < capacity := Nat.mod_lt _ (by omega)
  refine List.ext_getElem (by simp) ?_
  intro i hi hi'
  have hlt : i < size + xs.length := by simpa using hi
  -- an element is `i - size` steps after the tail, one turn later if it was there before
  by_cases hold : i < size
  · have hindex : (head + i) % capacity =
        ((head + size) % capacity + (capacity - size + i)) % capacity := by
      rw [Nat.mod_add_mod, show head + size + (capacity - size + i) = head + i + capacity by omega,
        Nat.add_mod_right]
    simp only [ring, List.getElem_map, List.getElem_range, List.getElem_append, List.length_map,
      List.length_range, dif_pos hold]
    rw [hindex, copyTwice_apply mem htail (by omega) (by omega), dif_neg (by omega)]
  · have hindex : (head + i) % capacity = ((head + size) % capacity + (i - size)) % capacity := by
      rw [Nat.mod_add_mod, show head + size + (i - size) = head + i by omega]
    simp only [ring, List.getElem_map, List.getElem_range, List.getElem_append, List.length_map,
      List.length_range, dif_neg hold]
    rw [hindex, copyTwice_apply mem htail (by omega) (by omega), dif_pos (by omega)]

end Ring
end Library
end ZeroRPC
