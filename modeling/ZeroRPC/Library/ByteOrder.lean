import Mathlib.Tactic

/-!
# Fixed-width numbers as bytes

A number of `k` bytes is written least significant byte first by `leBytes` and
read back by `leValue`.  A host of either byte order keeps a number in memory
as `Endian.store` and loads it with `Endian.fetch`; reversing the bytes on a
big-endian host therefore yields the little-endian form, whichever host does
it.

Main facts:
* `leValue_leBytes`, `leBytes_leValue`: the two directions are inverse;
* `store_eq_orderBytes`: what a host stores, reversed or not, is the
  little-endian form up to one reversal that depends on the two flags only.
-/

namespace ZeroRPC
namespace Library

/-- The `k` low bytes of `n`, least significant first. -/
def leBytes : Nat → Nat → List UInt8
  | 0, _ => []
  | k + 1, n => UInt8.ofNat n :: leBytes k (n / 256)

/-- The number whose little-endian bytes are given. -/
def leValue : List UInt8 → Nat
  | [] => 0
  | b :: bs => b.toNat + 256 * leValue bs

@[simp] theorem leBytes_length (k n : Nat) : (leBytes k n).length = k := by
  induction k generalizing n with
  | zero => rfl
  | succ k ih => simp [leBytes, ih]

theorem leValue_leBytes (k n : Nat) : leValue (leBytes k n) = n % 256 ^ k := by
  induction k generalizing n with
  | zero => simp [leBytes, leValue, Nat.mod_one]
  | succ k ih =>
      have hsplit : n % 256 ^ (k + 1) = n % 256 + 256 * (n / 256 % 256 ^ k) := by
        rw [pow_succ, Nat.mul_comm, Nat.mod_mul]
      simp only [leBytes, leValue, ih, hsplit]
      simp

theorem leValue_lt (bs : List UInt8) : leValue bs < 256 ^ bs.length := by
  induction bs with
  | nil => simp [leValue]
  | cons b bs ih =>
      have hb : b.toNat < 256 := b.toNat_lt
      simp only [leValue, List.length_cons, pow_succ]
      omega

theorem leBytes_leValue (bs : List UInt8) : leBytes bs.length (leValue bs) = bs := by
  induction bs with
  | nil => rfl
  | cons b bs ih =>
      have hb : b.toNat < 256 := b.toNat_lt
      have hdiv : (b.toNat + 256 * leValue bs) / 256 = leValue bs := by omega
      have hmod : UInt8.ofNat (b.toNat + 256 * leValue bs) = b := by
        apply UInt8.toNat_inj.mp
        rw [UInt8.toNat_ofNat']
        omega
      simp only [List.length_cons, leBytes, leValue, hdiv, hmod, ih]

/-- A number that its reversed bytes stand for as well has palindromic bytes. -/
theorem reverse_leBytes_of_leValue
    {k n : Nat}
    (h : leValue (leBytes k n).reverse = n) :
    (leBytes k n).reverse = leBytes k n := by
  have hback := leBytes_leValue (leBytes k n).reverse
  rw [List.length_reverse, leBytes_length, h] at hback
  exact hback.symm

/-- The two byte orders a host may have. -/
inductive Endian
  | little
  | big
deriving DecidableEq, Repr

namespace Endian

/-- Whether the host keeps the most significant byte first. -/
def isBig : Endian → Bool
  | .little => false
  | .big => true

@[simp] theorem isBig_inj (e f : Endian) : e.isBig = f.isBig ↔ e = f := by
  cases e <;> cases f <;> decide

/-- The bytes of a `k`-byte number in the host's memory, lowest address first. -/
def store (e : Endian) (k n : Nat) : List UInt8 :=
  match e with
  | .little => leBytes k n
  | .big => (leBytes k n).reverse

/-- The number the host loads from the given bytes. -/
def fetch (e : Endian) (bs : List UInt8) : Nat :=
  match e with
  | .little => leValue bs
  | .big => leValue bs.reverse

end Endian

/-- `bs`, reversed when `r` is set. -/
def orderBytes (r : Bool) (bs : List UInt8) : List UInt8 :=
  if r then bs.reverse else bs

@[simp] theorem orderBytes_false (bs : List UInt8) : orderBytes false bs = bs := rfl

@[simp] theorem orderBytes_true (bs : List UInt8) : orderBytes true bs = bs.reverse := rfl

@[simp] theorem orderBytes_length (r : Bool) (bs : List UInt8) :
    (orderBytes r bs).length = bs.length := by
  cases r <;> simp

@[simp] theorem orderBytes_orderBytes (r : Bool) (bs : List UInt8) :
    orderBytes r (orderBytes r bs) = bs := by
  cases r <;> simp

/-- Reversing what a host stores leaves the little-endian form exactly when the
reversal is done on a big-endian host. -/
theorem store_eq_orderBytes (e : Endian) (r : Bool) (k n : Nat) :
    orderBytes r (e.store k n) = orderBytes (r != e.isBig) (leBytes k n) := by
  cases e <;> cases r <;> simp [Endian.store, Endian.isBig]

/-- Loading bytes after the same reversal undoes it. -/
theorem fetch_eq_orderBytes (e : Endian) (r : Bool) (bs : List UInt8) :
    e.fetch (orderBytes r bs) = leValue (orderBytes (r != e.isBig) bs) := by
  cases e <;> cases r <;> simp [Endian.fetch, Endian.isBig]

end Library
end ZeroRPC
