import Mathlib.Tactic

/-!
# Doubling in fixed-width arithmetic

A number of `w` bits that is doubled again and again loses its upper bits, and after `w`
doublings it is zero.  It comes near the top of the range only when it starts just below a
multiple of a power of two.

Main facts:
* `pow_mod_le`: a power of two never gets past the middle of the range;
* `reaches_iff`: a doubling gets to a bound exactly when the distance to a multiple of a
  power of two is small enough.
-/

namespace ZeroRPC
namespace Library
namespace Doubling

variable {w k bound start : Nat}

/-- The state after `k` doublings. -/
def doubled (w start k : Nat) : Nat := start * 2 ^ k % 2 ^ w

theorem doubled_zero (h : start < 2 ^ w) : doubled w start 0 = start := by
  rw [doubled, pow_zero, Nat.mul_one, Nat.mod_eq_of_lt h]

theorem doubled_succ : doubled w (start * 2 % 2 ^ w) k = doubled w start (k + 1) := by
  rw [doubled, doubled, Nat.mod_mul_mod, pow_succ, Nat.mul_assoc, Nat.mul_comm 2]

/-- After `w` doublings nothing is left. -/
theorem doubled_eq_zero (h : w ≤ k) : doubled w start k = 0 :=
  Nat.mod_eq_zero_of_dvd (Dvd.dvd.mul_left (pow_dvd_pow 2 h) start)

theorem lt_of_doubled_pos (h : 0 < doubled w start k) : k < w := by
  by_contra hle
  rw [doubled_eq_zero (by omega)] at h
  exact absurd h (by decide)

theorem pow_mod_le : 2 ^ k % 2 ^ (w + 1) ≤ 2 ^ w := by
  by_cases hk : k ≤ w
  · have hle : 2 ^ k ≤ 2 ^ w := Nat.pow_le_pow_right (by decide) hk
    exact (Nat.mod_le _ _).trans hle
  · have hdvd : 2 ^ (w + 1) ∣ 2 ^ k := pow_dvd_pow 2 (by omega)
    rw [Nat.mod_eq_zero_of_dvd hdvd]
    exact Nat.zero_le _

/-- A doubling that falls short of `2 ^ w` by `gap` comes from a number just below a
multiple of a power of two. -/
theorem dvd_of_doubled
    {gap : Nat}
    (hgap : doubled w start k + gap = 2 ^ w)
    (hpos : 0 < doubled w start k) :
    ∃ x, gap = x * 2 ^ k ∧ 2 ^ (w - k) ∣ start + x := by
  have hk := lt_of_doubled_pos hpos
  have hpow : 2 ^ w = 2 ^ (w - k) * 2 ^ k := by rw [← pow_add, Nat.sub_add_cancel hk.le]
  have hsum : 2 ^ w ∣ start * 2 ^ k + gap := by
    refine ⟨start * 2 ^ k / 2 ^ w + 1, ?_⟩
    have hsplit := Nat.div_add_mod (start * 2 ^ k) (2 ^ w)
    rw [doubled] at hgap
    rw [Nat.mul_add, Nat.mul_one]
    omega
  have hshift : 2 ^ k ∣ start * 2 ^ k + gap := (pow_dvd_pow 2 hk.le).trans hsum
  obtain ⟨x, hx⟩ := (Nat.dvd_add_right (Nat.dvd_mul_left _ _)).mp hshift
  refine ⟨x, by rw [hx, Nat.mul_comm], ?_⟩
  rw [hx, Nat.mul_comm (2 ^ k) x, ← Nat.add_mul, hpow] at hsum
  exact Nat.dvd_of_mul_dvd_mul_right (Nat.pow_pos (by decide)) hsum

theorem doubled_of_dvd
    {x : Nat}
    (hx : 0 < x)
    (hsmall : x * 2 ^ k < 2 ^ w)
    (hdvd : 2 ^ (w - k) ∣ start + x) :
    doubled w start k + x * 2 ^ k = 2 ^ w := by
  have hk : k < w := by
    have hle : 2 ^ k ≤ x * 2 ^ k := Nat.le_mul_of_pos_left _ hx
    exact (Nat.pow_lt_pow_iff_right (by decide)).mp (lt_of_le_of_lt hle hsmall)
  have hpow : 2 ^ w = 2 ^ (w - k) * 2 ^ k := by rw [← pow_add, Nat.sub_add_cancel hk.le]
  obtain ⟨q, hq⟩ := hdvd
  have hsum : start * 2 ^ k + x * 2 ^ k = 2 ^ w * q := by
    rw [← Nat.add_mul, hq, hpow]
    ring
  have hqpos : q ≠ 0 := by
    rintro rfl
    omega
  obtain ⟨q, rfl⟩ := Nat.exists_eq_succ_of_ne_zero hqpos
  have hsplit : start * 2 ^ k = (2 ^ w - x * 2 ^ k) + 2 ^ w * q := by
    rw [Nat.succ_eq_add_one, Nat.mul_add, Nat.mul_one] at hsum
    omega
  have hxpos : 0 < x * 2 ^ k := Nat.mul_pos hx (Nat.pow_pos (by decide))
  rw [doubled, hsplit, Nat.add_mul_mod_self_left, Nat.mod_eq_of_lt (by omega)]
  omega

/-- **Which numbers get to a bound by doubling.** -/
theorem reaches_iff
    (hpos : 0 < bound)
    (hbound : bound ≤ 2 ^ w) :
    (∃ k, bound ≤ doubled w start k) ↔
      ∃ k x, 0 < x ∧ x * 2 ^ k ≤ 2 ^ w - bound ∧ 2 ^ (w - k) ∣ start + x := by
  constructor
  · rintro ⟨k, hk⟩
    have hlt : doubled w start k < 2 ^ w := Nat.mod_lt _ (Nat.pow_pos (by decide))
    have hgap : doubled w start k + (2 ^ w - doubled w start k) = 2 ^ w := by omega
    obtain ⟨x, hx, hdvd⟩ := dvd_of_doubled hgap (by omega)
    refine ⟨k, x, ?_, by omega, hdvd⟩
    rcases Nat.eq_zero_or_pos x with rfl | hxpos
    · omega
    · exact hxpos
  · rintro ⟨k, x, hx, hsmall, hdvd⟩
    have hend := doubled_of_dvd hx (by omega) hdvd
    exact ⟨k, by omega⟩

end Doubling
end Library
end ZeroRPC
