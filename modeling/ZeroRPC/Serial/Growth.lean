import ZeroRPC.Serial.Stream
import ZeroRPC.Library.Doubling

/-!
# The growth loop of `reserve`

`write_memory` hands its `uint32_t` length to `reserve`, which takes an `int32_t`.  A length
from `2 ^ 31` on is negative there, and the sum with the size wraps: either to less than the
size, and the loop does not run, or to just below `2 ^ 64`, where the doubled capacity has to
get by itself.

Main facts:
* `growCap_ends_iff`: the loop ends exactly when some doubling reaches what is needed;
* `growCap_rounds`: it ends within 130 rounds or never;
* `growth_ends_iff`: for which sizes, capacities and lengths it leaves enough room;
* `reserve_room_iff`: the same of `reserve` on a vector.
-/

namespace ZeroRPC
namespace Serial

open Library

/-- The loop ends, with room for the elements and `len` more. -/
def EndsWithRoom (size capacity : Nat) (len : BitVec 32) : Prop :=
  ∃ fuel cap, CharVector.growCap (needed size len) fuel capacity = some cap ∧
    size + len.toNat ≤ cap

/-- The capacity lies so little below a multiple of `2 ^ (64 - k)` that `k` doublings bring
it within `slack` of `2 ^ 64`. -/
def NearMultiple (capacity slack : Nat) : Prop :=
  ∃ k x, 0 < x ∧ x * 2 ^ k ≤ slack ∧ 2 ^ (64 - k) ∣ capacity + x

/-- The length is not negative in `reserve`; or the sum wraps to less than the size, and the
room is there already; or it wraps to just below `2 ^ 64`, and doubling gets there. -/
def GrowsEnough (size capacity : Nat) (len : BitVec 32) : Prop :=
  len.toNat < 2 ^ 31 ∨
    (2 ^ 32 ≤ size + len.toNat ∧ size + len.toNat ≤ capacity) ∨
    (size + len.toNat < 2 ^ 32 ∧ NearMultiple capacity (2 ^ 32 - (size + len.toNat)))

/-! ### The sum -/

section Needed

variable {size : Nat} {len : BitVec 32}

theorem needed_of_lt
    (hlen : len.toNat < 2 ^ 31)
    (hsum : size + len.toNat < 2 ^ 63) :
    needed size len = size + len.toNat := by
  have hmsb : len.msb = false := by
    rw [BitVec.msb_eq_decide]
    simpa using hlen
  have hext : (len.signExtend 64).toNat = len.toNat := by
    rw [BitVec.signExtend_eq_setWidth_of_msb_false hmsb, BitVec.toNat_setWidth]
    omega
  rw [needed, hext]
  omega

theorem needed_of_ge
    (hlen : 2 ^ 31 ≤ len.toNat) :
    needed size len = (size + (len.toNat + (2 ^ 64 - 2 ^ 32))) % 2 ^ 64 := by
  have hmsb : len.msb = true := by
    rw [BitVec.msb_eq_decide]
    simpa using hlen
  have hlt := len.isLt
  have hext : (len.signExtend 64).toNat = len.toNat + (2 ^ 64 - 2 ^ 32) := by
    rw [BitVec.toNat_signExtend, BitVec.toNat_setWidth, hmsb]
    simp only [if_true]
    omega
  rw [needed, hext]

/-- The sum wraps to less than the size. -/
theorem needed_wrapped
    (hlen : 2 ^ 31 ≤ len.toNat)
    (hsum : 2 ^ 32 ≤ size + len.toNat)
    (hsize : size + len.toNat < 2 ^ 63) :
    needed size len = size + len.toNat - 2 ^ 32 := by
  rw [needed_of_ge hlen]
  omega

/-- The sum wraps to just below `2 ^ 64`. -/
theorem needed_high
    (hlen : 2 ^ 31 ≤ len.toNat)
    (hsum : size + len.toNat < 2 ^ 32) :
    needed size len + (2 ^ 32 - (size + len.toNat)) = 2 ^ 64 := by
  rw [needed_of_ge hlen]
  omega

end Needed

/-! ### The loop -/

namespace CharVector

variable {need fuel cap c : Nat}

theorem growCap_le (h : growCap need fuel cap = some c) : need ≤ c := by
  induction fuel generalizing cap with
  | zero => cases h
  | succ fuel ih =>
      rw [growCap] at h
      by_cases hlt : cap < need
      · rw [if_pos hlt] at h
        exact ih h
      · rw [if_neg hlt] at h
        cases h
        omega

/-- The loop does not run. -/
theorem growCap_of_le (h : need ≤ cap) : growCap need (fuel + 1) cap = some cap := by
  rw [growCap, if_neg (by omega)]

theorem growCap_succ (h : growCap need fuel cap = some c) :
    growCap need (fuel + 1) cap = some c := by
  induction fuel generalizing cap with
  | zero => cases h
  | succ fuel ih =>
      rw [growCap] at h
      rw [growCap]
      by_cases hlt : cap < need
      · rw [if_pos hlt] at h ⊢
        exact ih h
      · rw [if_neg hlt] at h ⊢
        exact h

theorem growCap_mono
    {fuel' : Nat}
    (hle : fuel ≤ fuel')
    (h : growCap need fuel cap = some c) :
    growCap need fuel' cap = some c := by
  induction fuel', hle using Nat.le_induction with
  | base => exact h
  | succ fuel' _ ih => exact growCap_succ ih

/-- Two numbers of rounds that are enough give the same capacity. -/
theorem growCap_unique
    {fuel' c' : Nat}
    (h : growCap need fuel cap = some c)
    (h' : growCap need fuel' cap = some c') :
    c = c' := by
  have hmax := growCap_mono (Nat.le_max_left fuel fuel') h
  rw [growCap_mono (Nat.le_max_right fuel fuel') h'] at hmax
  exact (Option.some.inj hmax).symm

/-- What the loop reaches is a doubling of the capacity: starting over from 1 does not get
past the middle of the range. -/
theorem reaches_of_growCap
    (hneed : 2 ^ 63 < need)
    (hcap : cap < 2 ^ 64)
    (h : growCap need fuel cap = some c) :
    ∃ k, need ≤ Doubling.doubled 64 cap k := by
  induction fuel generalizing cap with
  | zero => cases h
  | succ fuel ih =>
      rw [growCap] at h
      by_cases hlt : cap < need
      · rw [if_pos hlt] at h
        by_cases hzero : cap = 0
        · rw [if_pos hzero] at h
          obtain ⟨k, hk⟩ := ih (by decide) h
          have hle : 2 ^ k % 2 ^ (63 + 1) ≤ 2 ^ 63 := Doubling.pow_mod_le
          rw [Doubling.doubled, Nat.one_mul] at hk
          omega
        · rw [if_neg hzero] at h
          obtain ⟨k, hk⟩ := ih (Nat.mod_lt _ (by decide)) h
          exact ⟨k + 1, by rwa [Doubling.doubled_succ] at hk⟩
      · exact ⟨0, by rw [Doubling.doubled_zero hcap]; omega⟩

theorem growCap_of_reaches
    {k : Nat}
    (hneed : 0 < need)
    (hcap : cap < 2 ^ 64)
    (hk : need ≤ Doubling.doubled 64 cap k) :
    ∃ c, growCap need (k + 1) cap = some c := by
  induction k generalizing cap with
  | zero =>
      rw [Doubling.doubled_zero hcap] at hk
      exact ⟨cap, growCap_of_le hk⟩
  | succ k ih =>
      by_cases hlt : cap < need
      · have hzero : cap ≠ 0 := by
          rintro rfl
          rw [Doubling.doubled, Nat.zero_mul, Nat.zero_mod] at hk
          omega
        rw [← Doubling.doubled_succ] at hk
        obtain ⟨c, hc⟩ := ih (Nat.mod_lt _ (by decide)) hk
        exact ⟨c, by rw [growCap, if_pos hlt, if_neg hzero, hc]⟩
      · exact ⟨cap, growCap_of_le (by omega)⟩

/-- Above the middle of the range only doubling gets there. -/
theorem growCap_ends_iff
    (hneed : 2 ^ 63 < need)
    (hcap : cap < 2 ^ 64) :
    (∃ fuel c, growCap need fuel cap = some c) ↔ ∃ k, need ≤ Doubling.doubled 64 cap k := by
  constructor
  · rintro ⟨fuel, c, h⟩
    exact reaches_of_growCap hneed hcap h
  · rintro ⟨k, hk⟩
    obtain ⟨c, hc⟩ := growCap_of_reaches (by omega) hcap hk
    exact ⟨k + 1, c, hc⟩

/-- Up to the middle of the range the loop ends. -/
theorem growCap_low
    (hneed : need ≤ 2 ^ 63) :
    ∃ c, growCap need 130 cap = some c := by
  by_cases hlt : cap < need
  · by_cases hzero : cap = 0
    · obtain ⟨c, hc, -⟩ : ∃ c, growCap need 129 1 = some c ∧ need ≤ c :=
        growCap_isSome 128 Nat.one_pos (by omega) hneed
      exact ⟨c, by rw [growCap, if_pos hlt, if_pos hzero, hc]⟩
    · have hreach : need ≤ cap * 2 ^ 129 :=
        le_trans (by omega : need ≤ 1 * 2 ^ 129) (Nat.mul_le_mul_right _ (by omega))
      obtain ⟨c, hc, -⟩ := growCap_isSome 129 (by omega) hreach hneed
      exact ⟨c, hc⟩
  · exact ⟨cap, growCap_of_le (by omega)⟩

/-- **The loop ends within 130 rounds or never.** -/
theorem growCap_rounds
    (hcap : cap < 2 ^ 64)
    (h : growCap need fuel cap = some c) :
    growCap need 130 cap = some c := by
  have hsome : ∃ c', growCap need 130 cap = some c' := by
    by_cases hneed : need ≤ 2 ^ 63
    · exact growCap_low hneed
    · obtain ⟨k, hk⟩ := reaches_of_growCap (by omega) hcap h
      have hpos : 0 < Doubling.doubled 64 cap k := by omega
      have hrounds : k < 64 := Doubling.lt_of_doubled_pos hpos
      obtain ⟨c', hc'⟩ := growCap_of_reaches (by omega) hcap hk
      exact ⟨c', growCap_mono (by omega) hc'⟩
  obtain ⟨c', hc'⟩ := hsome
  rw [hc', growCap_unique h hc']

end CharVector

/-! ### Enough room -/

section Room

variable {size capacity : Nat} {len : BitVec 32}

/-- When the length is not negative in `reserve` the loop does its work. -/
theorem endsWithRoom_of_lt
    (hlen : len.toNat < 2 ^ 31)
    (hsum : size + len.toNat < 2 ^ 63) :
    EndsWithRoom size capacity len := by
  have hneed := needed_of_lt hlen hsum
  obtain ⟨c, hc⟩ : ∃ c, CharVector.growCap (needed size len) 130 capacity = some c :=
    CharVector.growCap_low (by omega)
  have hle := CharVector.growCap_le hc
  exact ⟨130, c, hc, by omega⟩

/-- When the sum wraps to less than the size the loop does not run. -/
theorem endsWithRoom_wrapped
    (hsize : size ≤ capacity)
    (hlen : 2 ^ 31 ≤ len.toNat)
    (hwrap : 2 ^ 32 ≤ size + len.toNat)
    (hsum : size + len.toNat < 2 ^ 63) :
    EndsWithRoom size capacity len ↔ size + len.toNat ≤ capacity := by
  have hneed := needed_wrapped hlen hwrap hsum
  have hlt := len.isLt
  have hstays : CharVector.growCap (needed size len) 1 capacity = some capacity :=
    CharVector.growCap_of_le (by omega)
  constructor
  · rintro ⟨fuel, cap, hcap, hroom⟩
    rwa [CharVector.growCap_unique hcap hstays] at hroom
  · intro hroom
    exact ⟨1, capacity, hstays, hroom⟩

/-- When the sum wraps to just below `2 ^ 64`, ending is all that is in question. -/
theorem endsWithRoom_high
    (hcapacity : capacity < 2 ^ 64)
    (hlen : 2 ^ 31 ≤ len.toNat)
    (hhigh : size + len.toNat < 2 ^ 32) :
    EndsWithRoom size capacity len ↔
      NearMultiple capacity (2 ^ 32 - (size + len.toNat)) := by
  have hneed := needed_high hlen hhigh
  have hslack : 2 ^ 32 - (size + len.toNat) = 2 ^ 64 - needed size len := by omega
  have hends : EndsWithRoom size capacity len ↔
      ∃ fuel cap, CharVector.growCap (needed size len) fuel capacity = some cap := by
    constructor
    · rintro ⟨fuel, cap, hcap, -⟩
      exact ⟨fuel, cap, hcap⟩
    · rintro ⟨fuel, cap, hcap⟩
      have hle := CharVector.growCap_le hcap
      exact ⟨fuel, cap, hcap, by omega⟩
  rw [hends, CharVector.growCap_ends_iff (by omega) hcapacity,
    Doubling.reaches_iff (by omega) (by omega), NearMultiple, hslack]

/-- **For which sizes, capacities and lengths the loop ends with enough room.** -/
theorem growth_ends_iff
    (size capacity : Nat)
    (len : BitVec 32)
    (hsize : size ≤ capacity)
    (hcapacity : capacity < 2 ^ 64)
    (hsum : size + len.toNat < 2 ^ 63) :
    EndsWithRoom size capacity len ↔ GrowsEnough size capacity len := by
  rw [GrowsEnough]
  by_cases hlen : len.toNat < 2 ^ 31
  · have hends : EndsWithRoom size capacity len := endsWithRoom_of_lt hlen hsum
    simp only [hlen, hends, true_or]
  · by_cases hwrap : 2 ^ 32 ≤ size + len.toNat
    · have hnot : ¬ size + len.toNat < 2 ^ 32 := by omega
      rw [endsWithRoom_wrapped hsize (by omega) hwrap hsum]
      simp only [hlen, hwrap, hnot, true_and, false_and, false_or, or_false]
    · have hhigh : size + len.toNat < 2 ^ 32 := by omega
      rw [endsWithRoom_high hcapacity (by omega) hhigh]
      simp only [hlen, hwrap, hhigh, true_and, false_and, false_or]

end Room

/-- The same of `reserve` on a vector: a `reserve` that returns has left the room, and one
that does not return has its loop go on for ever. -/
theorem CharVector.reserve_room_iff
    (b : CharVector)
    (len : BitVec 32)
    (hcapacity : b.capacity < 2 ^ 64) :
    (∃ b', b.reserve len = .ok b' ∧ b.size + len.toNat ≤ b'.capacity) ↔
      EndsWithRoom b.size b.capacity len := by
  have hsize : b.size ≤ b.capacity := Nat.le_add_right _ _
  have hgrow : ∀ {cap : Nat}, b.size ≤ cap → (b.grow cap).capacity = cap := by
    intro cap hle
    simp only [CharVector.capacity, grow, List.length_replicate, CharVector.size] at hle ⊢
    omega
  unfold reserve
  by_cases hlt : b.capacity < needed b.size len
  · rw [if_pos hlt]
    constructor
    · rintro ⟨b', hb', hroom⟩
      cases hcap : growCap (needed b.size len) 130 b.capacity with
      | none =>
          rw [hcap] at hb'
          cases hb'
      | some cap =>
          rw [hcap] at hb'
          cases hb'
          have hle := growCap_le hcap
          exact ⟨130, cap, hcap, by rwa [hgrow (by omega)] at hroom⟩
    · rintro ⟨fuel, cap, hcap, hroom⟩
      have hle := growCap_le hcap
      refine ⟨b.grow cap, by rw [growCap_rounds hcapacity hcap], ?_⟩
      rw [hgrow (by omega)]
      exact hroom
  · rw [if_neg hlt]
    have hstays : growCap (needed b.size len) 1 b.capacity = some b.capacity :=
      growCap_of_le (by omega)
    constructor
    · rintro ⟨b', hb', hroom⟩
      cases hb'
      exact ⟨1, b.capacity, hstays, hroom⟩
    · rintro ⟨fuel, cap, hcap, hroom⟩
      rw [growCap_unique hcap hstays] at hroom
      exact ⟨b, rfl, hroom⟩

/-! ### Two gibibytes -/

/-- The tag and the length of a string have been written, and its `2 ^ 31` bytes follow. -/
theorem long_string_grows_for_ever :
    ¬ ∀ (size capacity : Nat) (len : BitVec 32), size ≤ capacity → capacity < 2 ^ 64 →
      size + len.toNat < 2 ^ 63 → EndsWithRoom size capacity len := by
  intro h
  obtain ⟨fuel, cap, hcap, -⟩ := h 6 8 (2 ^ 31) (by decide) (by decide) (by decide)
  obtain ⟨k, hk⟩ := CharVector.reaches_of_growCap (by decide) (by decide) hcap
  have hpow : Doubling.doubled 64 8 k = 2 ^ (k + 3) % 2 ^ (63 + 1) := by
    rw [Doubling.doubled, Nat.mul_comm]
    norm_num [pow_add]
  have hle : 2 ^ (k + 3) % 2 ^ (63 + 1) ≤ 2 ^ 63 := Doubling.pow_mod_le
  have hneed : 2 ^ 63 < needed 6 (2 ^ 31) := by decide
  omega

theorem short_write_grows : EndsWithRoom 6 8 (100 : BitVec 32) :=
  (growth_ends_iff 6 8 100 (by decide) (by decide) (by decide)).mpr (.inl (by decide))

end Serial
end ZeroRPC
