import ZeroRPC.Serial.Value

/-!
# The Data_Stream object

A `DataStream` has the three members of the class: the flag `is_big_endian`, the
`std::vector<char>` `_buf` and the position `_pos`.  A vector is its elements
followed by its spare storage, because `load` copies into storage without changing
the size and the readers index past the size; a cell of the storage that was never
written is `none`.  Allocation is taken to succeed.

Positions are integers.  While a buffer holds fewer than `2 ^ 31` bytes, `_pos`
cannot leave the range of `int32_t` without a byte outside the storage being
inspected first, which is a `Fault`.

Main facts:
* `writeMemory_appends`: below `2 ^ 31` bytes, `write_memory` appends its bytes;
* `Ahead`: what the next bytes to be read are, and what reading them yields.
-/

namespace ZeroRPC
namespace Serial

open Library

/-- What ends an operation without a result. -/
inductive Fault
  | outOfRange (i : Int)
  | indeterminate (i : Int)
  | uninitialisedLength
  | hang
  | nullPointer
deriving DecidableEq, Repr

section Results

variable {α β : Type}

@[simp] theorem ok_bind (a : α) (f : α → Except Fault β) :
    (Except.ok a >>= f) = f a := rfl

@[simp] theorem error_bind (e : Fault) (f : α → Except Fault β) :
    (Except.error e >>= f) = .error e := rfl

@[simp] theorem pure_eq_ok (a : α) : (pure a : Except Fault α) = .ok a := rfl

@[simp] theorem throw_eq_error (e : Fault) : (throw e : Except Fault α) = .error e := rfl

end Results

/-- `std::vector<char>`: its elements and the storage reserved behind them. -/
structure CharVector where
  elems : List UInt8
  spare : List (Option UInt8)
deriving DecidableEq

/-- `size + len` in `reserve`, in 64-bit unsigned arithmetic. -/
def needed (size : Nat) (len : BitVec 32) : Nat :=
  (size + (len.signExtend 64).toNat) % 2 ^ 64

namespace CharVector

def size (b : CharVector) : Nat := b.elems.length

def capacity (b : CharVector) : Nat := b.elems.length + b.spare.length

/-- The cells of the allocation, lowest address first. -/
def storage (b : CharVector) : List (Option UInt8) := b.elems.map some ++ b.spare

/-- `_buf[i]`. -/
def cell (b : CharVector) (i : Int) : Except Fault UInt8 :=
  if i < 0 then
    .error (.outOfRange i)
  else
    match b.storage[i.toNat]? with
    | none => .error (.outOfRange i)
    | some none => .error (.indeterminate i)
    | some (some c) => .ok c

/-- `n` bytes starting at `&_buf[i]`; none are touched when `n` is zero. -/
def range (b : CharVector) (i : Int) : Nat → Except Fault (List UInt8)
  | 0 => .ok []
  | n + 1 => do
      let c ← b.cell i
      let cs ← b.range (i + 1) n
      return c :: cs

/-- `while (size + len > cap)` in `reserve`, in 64-bit arithmetic.  A capacity that
is doubled 64 times wraps to 0 and restarts at 1, so a loop that has not ended
after 130 rounds never does. -/
def growCap (need : Nat) : Nat → Nat → Option Nat
  | 0, _ => none
  | fuel + 1, cap =>
      if cap < need then
        growCap need fuel (if cap = 0 then 1 else cap * 2 % 2 ^ 64)
      else
        some cap

/-- `_buf.reserve(cap)`: a new allocation, of which only the elements are copied. -/
def grow (b : CharVector) (cap : Nat) : CharVector :=
  { b with spare := List.replicate (cap - b.size) none }

/-- `reserve(int32_t len)`. -/
def reserve (b : CharVector) (len : BitVec 32) : Except Fault CharVector :=
  if b.capacity < needed b.size len then
    match growCap (needed b.size len) 130 b.capacity with
    | none => .error .hang
    | some cap => .ok (b.grow cap)
  else
    .ok b

/-- `_buf.resize(size + len)` and the copy into the new elements. -/
def append (b : CharVector) (bs : List UInt8) : CharVector :=
  { elems := b.elems ++ bs, spare := b.spare.drop bs.length }

/-- `std::memcpy(_buf.data(), data, n)`: the size stays what it was. -/
def overwrite (b : CharVector) (bs : List UInt8) : CharVector :=
  { elems := (bs ++ b.elems.drop bs.length).take b.size
    spare := (bs.drop b.size).map some ++ b.spare.drop (bs.length - b.size) }

end CharVector

/-- The members of a `Data_Stream`. -/
structure DataStream where
  isBigEndian : Bool
  buf : CharVector
  pos : Int
deriving DecidableEq

/-- The stream without the storage behind the elements of its vector. -/
def DataStream.trimmed (s : DataStream) : DataStream := { s with buf := { s.buf with spare := [] } }

/-- The object as `SERIALIZE(is_big_endian, _buf, _pos)` hands it on. -/
def DataStream.members (s : DataStream) : Ty.dataStream.Val :=
  (s.isBigEndian, s.buf.elems, BitVec.ofInt 32 s.pos, ())

/-- What a `read` leaves behind: its result, the target and the stream. -/
structure Read (α : Type) where
  ok : Bool
  value : α
  stream : DataStream

namespace DataStream

/-- `Data_Stream()`: the flag is the byte order of the host. -/
def empty (host : Endian) : DataStream :=
  { isBigEndian := host.isBig, buf := { elems := [], spare := [] }, pos := 0 }

/-- `data()`. -/
def data (s : DataStream) : List UInt8 := s.buf.elems

/-- `_pos += n`. -/
def skip (s : DataStream) (n : Nat) : DataStream := { s with pos := s.pos + n }

/-- `_buf[_pos]`. -/
def cell (s : DataStream) : Except Fault UInt8 := s.buf.cell s.pos

/-- `write_memory(data, len)`: `len` is a `uint32_t` there and an `int32_t` in
`reserve`. -/
def writeMemory (s : DataStream) (bytes : List UInt8) (len : BitVec 32) :
    Except Fault DataStream := do
  let b ← s.buf.reserve len
  return { s with buf := b.append (bytes.take len.toNat) }

/-- `load(data)`. -/
def load (s : DataStream) (bytes : List UInt8) : Except Fault DataStream := do
  let b ← s.buf.reserve (BitVec.ofNat 32 bytes.length)
  if b.capacity < bytes.length then
    throw (.outOfRange b.capacity)
  return { s with buf := b.overwrite bytes, pos := 0 }

end DataStream

/-! ### Room for what is written -/

/-- The loop ends below `2 ^ 64` once doubling can reach what is needed. -/
theorem CharVector.growCap_isSome
    (fuel : Nat)
    {need cap : Nat}
    (hcap : 0 < cap)
    (hreach : need ≤ cap * 2 ^ fuel)
    (hneed : need ≤ 2 ^ 63) :
    ∃ c, growCap need (fuel + 1) cap = some c ∧ need ≤ c := by
  induction fuel generalizing cap with
  | zero =>
      refine ⟨cap, ?_, by simpa using hreach⟩
      simp [growCap, Nat.not_lt.mpr (by simpa using hreach)]
  | succ fuel ih =>
      by_cases hlt : cap < need
      · have hnz : cap ≠ 0 := by omega
        have hmod : cap * 2 % 2 ^ 64 = cap * 2 := Nat.mod_eq_of_lt (by omega)
        have hreach' : need ≤ cap * 2 * 2 ^ fuel := by
          rw [pow_succ] at hreach
          linarith
        obtain ⟨c, hc, hle⟩ := ih (by omega : 0 < cap * 2) hreach'
        refine ⟨c, ?_, hle⟩
        rw [growCap, if_pos hlt, if_neg hnz, hmod, hc]
      · exact ⟨cap, by simp [growCap, hlt], by omega⟩

/-- A need beyond `2 ^ 63` is never met by doubling. -/
theorem CharVector.growCap_none
    {need : Nat}
    (hneed : 2 ^ 63 < need)
    (fuel : Nat) :
    ∀ {cap : Nat}, (cap = 0 ∨ ∃ k ≤ 63, cap = 2 ^ k) → growCap need fuel cap = none := by
  induction fuel with
  | zero => exact fun _ => rfl
  | succ fuel ih =>
      rintro cap (rfl | ⟨k, hk, rfl⟩)
      · rw [growCap, if_pos (by omega), if_pos rfl]
        exact ih (.inr ⟨0, by omega, rfl⟩)
      · have hle : 2 ^ k ≤ 2 ^ 63 := Nat.pow_le_pow_right (by decide) hk
        rw [growCap, if_pos (hle.trans_lt hneed), if_neg (by positivity)]
        apply ih
        rcases hk.lt_or_eq with hlt | rfl
        · refine .inr ⟨k + 1, hlt, ?_⟩
          have hlt' : 2 ^ k * 2 < 2 ^ 64 := by
            rw [← pow_succ]
            exact Nat.pow_lt_pow_right (by decide) (by omega)
          rw [Nat.mod_eq_of_lt hlt', pow_succ]
        · exact .inl (by norm_num)

/-- `reserve` keeps the elements and leaves the room asked for, in new storage or
the old. -/
theorem CharVector.reserve_ok
    (b : CharVector)
    {n : Nat}
    (hn : n < 2 ^ 31)
    (hsize : b.size + n ≤ 2 ^ 63) :
    ∃ b', b.reserve (BitVec.ofNat 32 n) = .ok b' ∧
      b'.elems = b.elems ∧ b.size + n ≤ b'.capacity ∧
      (b'.spare = b.spare ∨ ∃ k, b'.spare = List.replicate k none) := by
  have hext : ((BitVec.ofNat 32 n).signExtend 64).toNat = n := by
    have hmsb : (BitVec.ofNat 32 n).msb = false := by
      rw [BitVec.msb_eq_decide]
      simp only [BitVec.toNat_ofNat, decide_eq_false_iff_not]
      omega
    rw [BitVec.signExtend_eq_setWidth_of_msb_false hmsb]
    simp only [BitVec.toNat_setWidth, BitVec.toNat_ofNat]
    omega
  have hneed : needed b.size (BitVec.ofNat 32 n) = b.size + n := by
    rw [needed, hext]
    omega
  unfold reserve
  simp only [hneed]
  by_cases hlt : b.capacity < b.size + n
  · rw [if_pos hlt]
    have hgrow : ∃ c, growCap (b.size + n) 130 b.capacity = some c ∧ b.size + n ≤ c := by
      by_cases hz : b.capacity = 0
      · rw [growCap, if_pos hlt, if_pos hz]
        exact growCap_isSome 128 (by omega) (by omega) (by omega)
      · exact growCap_isSome 129 (by omega)
          (le_trans (by omega : b.size + n ≤ 1 * 2 ^ 129)
            (Nat.mul_le_mul_right _ (by omega))) (by omega)
    obtain ⟨c, hc, hle⟩ := hgrow
    refine ⟨b.grow c, by rw [hc], rfl, ?_, Or.inr ⟨_, rfl⟩⟩
    simp only [CharVector.capacity, grow, List.length_replicate, CharVector.size] at hle ⊢
    omega
  · exact ⟨b, by rw [if_neg hlt], rfl, by omega, Or.inl rfl⟩

/-- `s'` is `s` with `bs` written at the end. -/
structure Appends (s s' : DataStream) (bs : List UInt8) : Prop where
  elems : s'.buf.elems = s.buf.elems ++ bs
  flag : s'.isBigEndian = s.isBigEndian
  pos : s'.pos = s.pos

theorem Appends.refl (s : DataStream) : Appends s s [] :=
  ⟨by simp, rfl, rfl⟩

theorem Appends.trans
    {s t u : DataStream}
    {as bs : List UInt8}
    (h₁ : Appends s t as)
    (h₂ : Appends t u bs) :
    Appends s u (as ++ bs) :=
  ⟨by rw [h₂.elems, h₁.elems, List.append_assoc], h₂.flag.trans h₁.flag,
    h₂.pos.trans h₁.pos⟩

theorem Appends.size_eq
    {s s' : DataStream}
    {bs : List UInt8}
    (h : Appends s s' bs) :
    s'.buf.size = s.buf.size + bs.length := by
  simp [CharVector.size, h.elems]

/-- `write_memory` appends its bytes while the buffer stays below `2 ^ 31`. -/
theorem writeMemory_appends
    (s : DataStream)
    {bytes : List UInt8}
    (hsize : s.buf.size + bytes.length < 2 ^ 31) :
    ∃ s', s.writeMemory bytes (BitVec.ofNat 32 bytes.length) = .ok s' ∧
      Appends s s' bytes := by
  obtain ⟨b, hb, helems, _, _⟩ := s.buf.reserve_ok (n := bytes.length) (by omega) (by omega)
  have hlen : (BitVec.ofNat 32 bytes.length).toNat = bytes.length := by
    rw [BitVec.toNat_ofNat]
    omega
  refine ⟨{ s with buf := b.append bytes }, ?_, ?_, rfl, rfl⟩
  · simp [DataStream.writeMemory, hb, hlen]
  · simp [CharVector.append, helems]

/-! ### The bytes to be read next -/

/-- The bytes from `_pos` on start with `bs`. -/
def Ahead (s : DataStream) (bs : List UInt8) : Prop :=
  0 ≤ s.pos ∧ ∃ rest, s.buf.storage.drop s.pos.toNat = bs.map some ++ rest

@[simp] theorem skip_zero (s : DataStream) : s.skip 0 = s := by
  simp [DataStream.skip]

@[simp] theorem skip_skip (s : DataStream) (m n : Nat) :
    (s.skip m).skip n = s.skip (m + n) := by
  simp only [DataStream.skip, Nat.cast_add, add_assoc]

@[simp] theorem skip_buf (s : DataStream) (n : Nat) : (s.skip n).buf = s.buf := rfl

theorem Ahead.left
    {s : DataStream}
    {as bs : List UInt8}
    (h : Ahead s (as ++ bs)) :
    Ahead s as := by
  obtain ⟨hpos, rest, hrest⟩ := h
  exact ⟨hpos, bs.map some ++ rest, by simpa using hrest⟩

theorem Ahead.skip
    {s : DataStream}
    {as bs : List UInt8}
    (h : Ahead s (as ++ bs)) :
    Ahead (s.skip as.length) bs := by
  obtain ⟨hpos, rest, hrest⟩ := h
  refine ⟨by simp only [DataStream.skip]; omega, rest, ?_⟩
  have htoNat : (s.skip as.length).pos.toNat = s.pos.toNat + as.length := by
    simp only [DataStream.skip]
    omega
  rw [skip_buf, htoNat, ← List.drop_drop, hrest]
  simp

theorem Ahead.tail
    {s : DataStream}
    {c : UInt8}
    {bs : List UInt8}
    (h : Ahead s (c :: bs)) :
    Ahead (s.skip 1) bs := by
  have h' : Ahead s ([c] ++ bs) := h
  exact h'.skip

theorem Ahead.cell
    {s : DataStream}
    {c : UInt8}
    {bs : List UInt8}
    (h : Ahead s (c :: bs)) :
    s.buf.cell s.pos = .ok c := by
  obtain ⟨hpos, rest, hrest⟩ := h
  have hget : s.buf.storage[s.pos.toNat]? = some (some c) := by
    have := congrArg (·[0]?) hrest
    simpa using this
  simp [CharVector.cell, Int.not_lt.mpr hpos, hget]

theorem Ahead.range
    {s : DataStream}
    {as bs : List UInt8}
    (h : Ahead s (as ++ bs)) :
    s.buf.range s.pos as.length = .ok as := by
  induction as generalizing s with
  | nil => rfl
  | cons c as ih =>
      have hnext : (s.skip 1).buf.range (s.skip 1).pos as.length = .ok as :=
        ih (Ahead.tail h)
      simp only [List.length_cons, CharVector.range, Ahead.cell h]
      simp only [DataStream.skip, Nat.cast_one] at hnext
      simp [hnext]

theorem CharVector.range_length
    {b : CharVector} :
    ∀ {n : Nat} {i : Int} {bs : List UInt8}, b.range i n = .ok bs → bs.length = n
  | 0, _, _, h => by
      cases h
      rfl
  | n + 1, i, bs, h => by
      rw [CharVector.range] at h
      cases hc : b.cell i with
      | error e =>
          rw [hc, error_bind] at h
          cases h
      | ok c =>
          cases hcs : b.range (i + 1) n with
          | error e =>
              simp only [hc, hcs, ok_bind, error_bind] at h
              cases h
          | ok cs =>
              simp only [hc, hcs, ok_bind, pure_eq_ok] at h
              cases h
              rw [List.length_cons, CharVector.range_length hcs]

/-- A fresh stream into which bytes were loaded: they are followed by storage that
was never written. -/
theorem load_fresh
    (host : Endian)
    {bytes : List UInt8}
    (hsize : bytes.length < 2 ^ 31) :
    ∃ s k, (DataStream.empty host).load bytes = .ok s ∧
      s.isBigEndian = host.isBig ∧ s.pos = 0 ∧
      s.buf.storage = bytes.map some ++ List.replicate k none := by
  have hfit : (DataStream.empty host).buf.size + bytes.length < 2 ^ 31 := by
    simpa [DataStream.empty, CharVector.size] using hsize
  obtain ⟨b, hb, helems, hroom, hspare⟩ := (DataStream.empty host).buf.reserve_ok hsize (by omega)
  have hnil : b.elems = [] := helems
  have hcap : ¬ b.capacity < bytes.length := by omega
  obtain ⟨k, hk⟩ : ∃ k, b.spare = List.replicate k none := by
    rcases hspare with hspare | hspare
    · exact ⟨0, hspare⟩
    · exact hspare
  refine ⟨{ DataStream.empty host with buf := b.overwrite bytes, pos := 0 },
    k - bytes.length, ?_, rfl, rfl, ?_⟩
  · simp [DataStream.load, hb, hcap]
  · simp [CharVector.storage, CharVector.overwrite, CharVector.size, hnil, hk]

theorem load_ahead
    (host : Endian)
    {bytes : List UInt8}
    (hsize : bytes.length < 2 ^ 31) :
    ∃ s, (DataStream.empty host).load bytes = .ok s ∧
      s.isBigEndian = host.isBig ∧ Ahead s bytes := by
  obtain ⟨s, k, hs, hflag, hpos, hstorage⟩ := load_fresh host hsize
  refine ⟨s, hs, hflag, by rw [hpos], List.replicate k none, ?_⟩
  rw [hpos, hstorage]
  rfl

end Serial
end ZeroRPC
