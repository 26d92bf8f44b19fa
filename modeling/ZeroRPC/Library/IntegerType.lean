import ZeroRPC.Library.ByteOrder

/-!
# Integer types

An integer type has a width in bytes and is signed or not.  Its values are the integers of
its range, and the bits of a value are its remainder modulo `256 ^ width`; for a signed type
that is two's complement.  Every pattern of bits is a value.

Main facts:
* `ofBits_toBits`, `toBits_ofBits`: values and bits correspond;
* `decode_encode`, `encode_decode`: so do values and little-endian bytes;
* `decode_inj`: different bytes are different values.
-/

namespace ZeroRPC
namespace Library

structure IntegerType where
  width : Nat
  signed : Bool
deriving DecidableEq, Repr

namespace IntegerType

def modulus (T : IntegerType) : Nat := 256 ^ T.width

/-- The least value. -/
def low (T : IntegerType) : Int := if T.signed then -(T.modulus / 2 : Nat) else 0

/-- A value lies in the range of its type. -/
structure Value (T : IntegerType) where
  val : Int
  low_le : T.low ≤ val
  lt_high : val < T.low + T.modulus
deriving DecidableEq

variable {T : IntegerType}

theorem modulus_pos : 0 < T.modulus := Nat.pow_pos (by decide)

theorem Value.ext
    {v w : T.Value}
    (h : v.val = w.val) :
    v = w := by
  cases v
  cases w
  cases h
  rfl

/-- The bits of a value. -/
def Value.toBits (v : T.Value) : Nat := (v.val % T.modulus).toNat

/-- The value with given bits: the one in the range that leaves the same remainder. -/
def ofBits (T : IntegerType) (bits : Nat) : T.Value where
  val := T.low + (bits - T.low) % T.modulus
  low_le := by
    have hnonneg : 0 ≤ ((bits : Int) - T.low) % T.modulus :=
      Int.emod_nonneg _ (by exact_mod_cast T.modulus_pos.ne')
    omega
  lt_high := by
    have hlt : ((bits : Int) - T.low) % T.modulus < T.modulus :=
      Int.emod_lt_of_pos _ (by exact_mod_cast T.modulus_pos)
    omega

theorem Value.toBits_cast (v : T.Value) : (v.toBits : Int) = v.val % T.modulus :=
  Int.toNat_of_nonneg (Int.emod_nonneg _ (by exact_mod_cast T.modulus_pos.ne'))

theorem Value.toBits_lt (v : T.Value) : v.toBits < T.modulus := by
  have hlt : v.val % T.modulus < T.modulus :=
    Int.emod_lt_of_pos _ (by exact_mod_cast T.modulus_pos)
  rw [← v.toBits_cast] at hlt
  exact_mod_cast hlt

theorem ofBits_toBits (v : T.Value) : T.ofBits v.toBits = v := by
  apply Value.ext
  have hlow := v.low_le
  have hhigh := v.lt_high
  have hinside : (v.val - T.low) % T.modulus = v.val - T.low :=
    Int.emod_eq_of_lt (by omega) (by omega)
  show T.low + ((v.toBits : Int) - T.low) % T.modulus = v.val
  rw [v.toBits_cast, Int.emod_sub_emod, hinside]
  omega

theorem toBits_ofBits
    {bits : Nat}
    (h : bits < T.modulus) :
    (T.ofBits bits).toBits = bits := by
  have hcast : ((T.ofBits bits).toBits : Int) = bits := by
    rw [Value.toBits_cast]
    show (T.low + ((bits : Int) - T.low) % T.modulus) % T.modulus = bits
    rw [Int.add_emod_emod, add_sub_cancel]
    exact Int.emod_eq_of_lt (by omega) (by exact_mod_cast h)
  exact_mod_cast hcast

/-- The bytes of a value, least significant first. -/
def encode (v : T.Value) : List UInt8 := leBytes T.width v.toBits

/-- The value of bytes, least significant first. -/
def decode (T : IntegerType) (bytes : List UInt8) : T.Value := T.ofBits (leValue bytes)

@[simp]
theorem encode_length (v : T.Value) : (encode v).length = T.width :=
  leBytes_length ..

theorem decode_encode (v : T.Value) : T.decode (encode v) = v := by
  have hbits : v.toBits < 256 ^ T.width := v.toBits_lt
  rw [decode, encode, leValue_leBytes, Nat.mod_eq_of_lt hbits, ofBits_toBits]

theorem encode_decode
    {bytes : List UInt8}
    (h : bytes.length = T.width) :
    encode (T.decode bytes) = bytes := by
  have hbits : leValue bytes < T.modulus := by
    rw [modulus, ← h]
    exact leValue_lt bytes
  rw [encode, decode, toBits_ofBits hbits, ← h]
  exact leBytes_leValue bytes

theorem decode_inj
    {bytes bytes' : List UInt8}
    (h : bytes.length = T.width)
    (h' : bytes'.length = T.width) :
    T.decode bytes = T.decode bytes' ↔ bytes = bytes' := by
  constructor
  · intro heq
    have hencode := congrArg encode heq
    rwa [encode_decode h, encode_decode h'] at hencode
  · rintro rfl
    rfl

end IntegerType

end Library
end ZeroRPC
