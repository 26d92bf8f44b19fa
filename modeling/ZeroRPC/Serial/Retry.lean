import ZeroRPC.Serial.Checks

/-!
# Reads that return false

A read may ask for bytes that are not there, and test a length that was never read.  What a
program goes on with then is whatever its memory holds.  `readIn` is `Data_Stream::read` in
surroundings that supply it: bytes for the cells without one, and a value for an unset length.

Main facts:
* `Ty.readIn_of_read`: a read that has a result has it in all surroundings;
* `Ty.readIn_false`: a read that is not that of a string returns false at another tag only;
* `read_harmless_iff`: when a read that returns false changes nothing, whatever surrounds it.
-/

namespace ZeroRPC
namespace Serial

open Library

/-! ### Surroundings -/

/-- The bytes around the stream, and what an unset length holds at a position. -/
structure Surroundings where
  byte : Int → UInt8
  length : Int → BitVec 32

namespace Surroundings

/-- `_buf[_pos]`. -/
def cell (g : Surroundings) (s : DataStream) : UInt8 :=
  match s.cell with
  | .ok c => c
  | .error _ => g.byte s.pos

/-- The `n` bytes from `&_buf[_pos]` on. -/
def range (g : Surroundings) : Nat → DataStream → List UInt8
  | 0, _ => []
  | n + 1, s => g.cell s :: g.range n (s.skip 1)

theorem cell_eq
    {g : Surroundings}
    {s : DataStream}
    {c : UInt8}
    (h : s.cell = .ok c) :
    g.cell s = c := by
  rw [cell, h]

theorem range_eq
    {g : Surroundings} :
    ∀ {n : Nat} {s : DataStream} {bs : List UInt8},
      s.buf.range s.pos n = .ok bs → g.range n s = bs
  | 0, s, bs, h => by
      cases h
      rfl
  | n + 1, s, bs, h => by
      rw [CharVector.range] at h
      cases hc : s.buf.cell s.pos with
      | error e =>
          rw [hc, error_bind] at h
          cases h
      | ok c =>
          cases hcs : s.buf.range (s.pos + 1) n with
          | error e =>
              simp only [hc, hcs, ok_bind, error_bind] at h
              cases h
          | ok cs =>
              simp only [hc, hcs, ok_bind, pure_eq_ok] at h
              cases h
              have hrest : g.range n (s.skip 1) = cs := range_eq hcs
              have hfirst : g.cell s = c := cell_eq hc
              rw [range, hfirst, hrest]

end Surroundings

/-! ### The readers -/

section Readers

variable (g : Surroundings) (host : Endian)

/-- `read(bool&)`. -/
def readBoolIn (s : DataStream) (value : Bool) : Read Bool :=
  if g.cell s ≠ DataType.bool.code then
    ⟨false, value, s⟩
  else
    ⟨true, g.cell (s.skip 1) ≠ 0, s.skip 2⟩

/-- `read(char&)`. -/
def readCharIn (s : DataStream) (value : UInt8) : Read UInt8 :=
  if g.cell s ≠ DataType.char.code then
    ⟨false, value, s⟩
  else
    ⟨true, g.cell (s.skip 1), s.skip 2⟩

/-- The common body of the number overloads. -/
def readNumberIn {w : Nat} (type : DataType) (k : Nat) (s : DataStream) (value : BitVec w) :
    Read (BitVec w) :=
  if g.cell s ≠ type.code then
    ⟨false, value, s⟩
  else
    ⟨true, BitVec.ofNat w (host.fetch (orderBytes s.isBigEndian (g.range k (s.skip 1)))),
      s.skip (1 + k)⟩

/-- `int len; read(len);`. -/
def readLengthIn (s : DataStream) : BitVec 32 × DataStream :=
  let r := readNumberIn g host .int32 4 s (g.length s.pos)
  (r.value, r.stream)

/-- `read(std::string&)`. -/
def readStringIn (s : DataStream) (value : List UInt8) : Read (List UInt8) :=
  if g.cell s ≠ DataType.string.code then
    ⟨false, value, s⟩
  else
    let r := readLengthIn g host (s.skip 1)
    if r.1.toInt < 0 then
      ⟨false, value, r.2⟩
    else
      ⟨true, g.range r.1.toNat r.2, r.2.skip r.1.toNat⟩

/-- `for (int i = 0; i < n; i ++)`. -/
def repeatReadIn {β : Type} (body : DataStream → β → β × DataStream) :
    Nat → DataStream → β → β × DataStream
  | 0, s, value => (value, s)
  | n + 1, s, value => repeatReadIn body n (body s value).2 (body s value).1

/-- The common body of the container overloads. -/
def readContainerIn {β : Type} (type : DataType) (body : DataStream → β → β × DataStream)
    (s : DataStream) (value start : β) : Read β :=
  if g.cell s ≠ type.code then
    ⟨false, value, s⟩
  else
    let len := readLengthIn g host (s.skip 1)
    let r := repeatReadIn body len.1.toInt.toNat len.2 start
    ⟨true, r.1, r.2⟩

end Readers

section Read

variable (P : Program) (g : Surroundings)

/-- `T v; read(v);` as a step of a container's loop. -/
def readElementIn {α β : Type} (read : DataStream → α → Read α) (init : α) (add : β → α → β)
    (s : DataStream) (value : β) : β × DataStream :=
  let r := read s init
  (add value r.value, r.stream)

/-- `K k; read(k); V v; read(v);` as a step of a map's loop. -/
def readEntryIn {κ ν β : Type} (readKey : DataStream → κ → Read κ) (initKey : κ)
    (readVal : DataStream → ν → Read ν) (initVal : ν) (add : β → κ × ν → β)
    (s : DataStream) (value : β) : β × DataStream :=
  let k := readKey s initKey
  let v := readVal k.stream initVal
  (add value (k.value, v.value), v.stream)

mutual
/-- `Data_Stream::read` in its surroundings. -/
def Ty.readIn : (T : Ty) → DataStream → T.Val → Read T.Val
  | .bool, s, value => readBoolIn g s value
  | .char, s, value => readCharIn g s value
  | .int32, s, value => readNumberIn g P.host .int32 4 s value
  | .int64, s, value => readNumberIn g P.host .int64 8 s value
  | .float, s, value => readNumberIn g P.host .float 4 s value
  | .double, s, value => readNumberIn g P.host .double 8 s value
  | .string, s, value => readStringIn g P.host s value
  | .vector T, s, value =>
      readContainerIn g P.host .vector
        (readElementIn T.readIn (P.init T) fun (xs : List T.Val) x => xs ++ [x]) s value []
  | .list T, s, value =>
      readContainerIn g P.host .list
        (readElementIn T.readIn (P.init T) fun (xs : List T.Val) x => xs ++ [x]) s value []
  | .set T, s, value =>
      readContainerIn g P.host .set
        (readElementIn T.readIn (P.init T) (P.insert .ordered T)) s value value
  | .map K V, s, value =>
      readContainerIn g P.host .map
        (readEntryIn K.readIn (P.init K) V.readIn (P.init V) (P.assign .ordered K V)) s value value
  | .unorderedSet T, s, value =>
      readContainerIn g P.host .set
        (readElementIn T.readIn (P.init T) (P.insert .unordered T)) s value value
  | .unorderedMap K V, s, value =>
      readContainerIn g P.host .map
        (readEntryIn K.readIn (P.init K) V.readIn (P.init V) (P.assign .unordered K V)) s value
        value
  | .user _ Ts, s, value =>
      if g.cell s ≠ DataType.custom.code then
        ⟨false, value, s.skip 1⟩
      else
        let r := Ty.readArgsIn Ts (s.skip 1) value
        ⟨true, r.value, r.stream⟩

/-- `read_args`. -/
def Ty.readArgsIn : (Ts : List Ty) → DataStream → Ty.Tuple Ts → Read (Ty.Tuple Ts)
  | [], s, value => ⟨true, value, s⟩
  | T :: Ts, s, (value, values) =>
      let r := T.readIn s value
      if r.ok then
        let rs := Ty.readArgsIn Ts r.stream values
        ⟨rs.ok, (r.value, rs.value), rs.stream⟩
      else
        ⟨false, (r.value, values), r.stream⟩
end

end Read

/-! ### Results do not depend on the surroundings -/

section Results

variable {P : Program} {g : Surroundings} {host : Endian}

/-- What `read` returns, `h` returns. -/
def Agrees {α : Type} (read : DataStream → α → Except Fault (Read α))
    (h : DataStream → α → Read α) : Prop :=
  ∀ s t r, read s t = .ok r → h s t = r

/-- The same for a step of a loop. -/
def AgreesStep {β : Type} (body : DataStream → β → Except Fault (β × DataStream))
    (h : DataStream → β → β × DataStream) : Prop :=
  ∀ s b r, body s b = .ok r → h s b = r

theorem readBoolIn_agrees : Agrees readBool (readBoolIn g) := by
  intro s t r hread
  cases hc : s.cell with
  | error e =>
      rw [readBool, hc, error_bind] at hread
      cases hread
  | ok c =>
      simp only [readBool, hc, ok_bind] at hread
      rw [readBoolIn, Surroundings.cell_eq hc]
      by_cases htag : c ≠ DataType.bool.code
      · rw [if_pos htag] at hread ⊢
        cases hread
        rfl
      · rw [if_neg htag] at hread ⊢
        cases hd : (s.skip 1).cell with
        | error e =>
            rw [hd, error_bind] at hread
            cases hread
        | ok d =>
            rw [hd, ok_bind] at hread
            cases hread
            rw [Surroundings.cell_eq hd]

theorem readCharIn_agrees : Agrees readChar (readCharIn g) := by
  intro s t r hread
  cases hc : s.cell with
  | error e =>
      rw [readChar, hc, error_bind] at hread
      cases hread
  | ok c =>
      simp only [readChar, hc, ok_bind] at hread
      rw [readCharIn, Surroundings.cell_eq hc]
      by_cases htag : c ≠ DataType.char.code
      · rw [if_pos htag] at hread ⊢
        cases hread
        rfl
      · rw [if_neg htag] at hread ⊢
        cases hd : (s.skip 1).cell with
        | error e =>
            rw [hd, error_bind] at hread
            cases hread
        | ok d =>
            rw [hd, ok_bind] at hread
            cases hread
            rw [Surroundings.cell_eq hd]

theorem readNumberIn_agrees
    {w : Nat}
    (type : DataType)
    (k : Nat) :
    Agrees (readNumber (w := w) host type k) (readNumberIn g host type k) := by
  intro s t r hread
  cases hc : s.cell with
  | error e =>
      rw [readNumber, hc, error_bind] at hread
      cases hread
  | ok c =>
      simp only [readNumber, hc, ok_bind] at hread
      rw [readNumberIn, Surroundings.cell_eq hc]
      by_cases htag : c ≠ type.code
      · rw [if_pos htag] at hread ⊢
        cases hread
        rfl
      · rw [if_neg htag] at hread ⊢
        cases hbytes : s.buf.range (s.skip 1).pos k with
        | error e =>
            rw [hbytes, error_bind] at hread
            cases hread
        | ok bytes =>
            rw [hbytes, ok_bind] at hread
            cases hread
            rw [Surroundings.range_eq (s := s.skip 1) hbytes]

/-- A length that was read is set. -/
theorem readLengthIn_eq
    {s : DataStream}
    {r : BitVec 32 × DataStream}
    (hread : readLength host s = .ok r) :
    readLengthIn g host s = r := by
  cases hr : readInt32 host s 0 with
  | error e =>
      rw [readLength, hr, error_bind] at hread
      cases hread
  | ok out =>
      rw [readLength, hr, ok_bind] at hread
      split at hread
      case isFalse => cases hread
      case isTrue hok =>
        cases hread
        -- with the tag there, the value before the read plays no part
        have hsame : readNumberIn g host .int32 4 s (g.length s.pos) =
            readNumberIn g host .int32 4 s 0 := by
          have hzero := readNumberIn_agrees (g := g) .int32 4 s 0 out hr
          rw [readNumberIn] at hzero
          by_cases htag : g.cell s ≠ DataType.int32.code
          · rw [if_pos htag] at hzero
            rw [← hzero] at hok
            cases hok
          · rw [readNumberIn, readNumberIn, if_neg htag, if_neg htag]
        rw [readLengthIn, hsame, readNumberIn_agrees (g := g) .int32 4 s 0 out hr]

theorem readStringIn_agrees : Agrees (readString host) (readStringIn g host) := by
  intro s t r hread
  cases hc : s.cell with
  | error e =>
      rw [readString, hc, error_bind] at hread
      cases hread
  | ok c =>
      simp only [readString, hc, ok_bind] at hread
      rw [readStringIn, Surroundings.cell_eq hc]
      by_cases htag : c ≠ DataType.string.code
      · rw [if_pos htag] at hread ⊢
        cases hread
        rfl
      · rw [if_neg htag] at hread ⊢
        cases hl : readLength host (s.skip 1) with
        | error e =>
            rw [hl, error_bind] at hread
            cases hread
        | ok out =>
            rw [hl, ok_bind] at hread
            rw [readLengthIn_eq hl]
            by_cases hneg : out.1.toInt < 0
            · simp only [hneg, if_true] at hread ⊢
              cases hread
              rfl
            · simp only [hneg, if_false] at hread ⊢
              cases hbytes : out.2.buf.range out.2.pos out.1.toNat with
              | error e =>
                  rw [hbytes, error_bind] at hread
                  cases hread
              | ok bytes =>
                  rw [hbytes, ok_bind] at hread
                  cases hread
                  rw [Surroundings.range_eq hbytes]

theorem repeatReadIn_agrees
    {β : Type}
    {body : DataStream → β → Except Fault (β × DataStream)}
    {h : DataStream → β → β × DataStream}
    (hbody : AgreesStep body h) :
    ∀ n, AgreesStep (fun s b => repeatRead body n s b) (repeatReadIn h n)
  | 0, s, b, r, hread => by
      cases hread
      rfl
  | n + 1, s, b, r, hread => by
      simp only [repeatRead] at hread
      cases hone : body s b with
      | error e =>
          rw [hone, error_bind] at hread
          cases hread
      | ok out =>
          rw [hone, ok_bind] at hread
          rw [repeatReadIn, hbody s b out hone]
          exact repeatReadIn_agrees hbody n out.2 out.1 r hread

theorem readContainerIn_agrees
    {β : Type}
    {type : DataType}
    {body : DataStream → β → Except Fault (β × DataStream)}
    {h : DataStream → β → β × DataStream}
    (hbody : AgreesStep body h)
    {s : DataStream}
    {t start : β}
    {r : Read β}
    (hread : readContainer host type body s t start = .ok r) :
    readContainerIn g host type h s t start = r := by
  cases hc : s.cell with
  | error e =>
      rw [readContainer, hc, error_bind] at hread
      cases hread
  | ok c =>
      simp only [readContainer, hc, ok_bind] at hread
      rw [readContainerIn, Surroundings.cell_eq hc]
      by_cases htag : c ≠ type.code
      · rw [if_pos htag] at hread ⊢
        cases hread
        rfl
      · rw [if_neg htag] at hread ⊢
        cases hl : readLength host (s.skip 1) with
        | error e =>
            rw [hl, error_bind] at hread
            cases hread
        | ok out =>
            rw [hl, ok_bind] at hread
            rw [readLengthIn_eq hl]
            cases hloop : repeatRead body out.1.toInt.toNat out.2 start with
            | error e =>
                rw [hloop, error_bind] at hread
                cases hread
            | ok last =>
                rw [hloop, ok_bind] at hread
                cases hread
                have hsame := repeatReadIn_agrees hbody out.1.toInt.toNat out.2 start last hloop
                simp only [hsame]

theorem readElementIn_agrees
    {α β : Type}
    {read : DataStream → α → Except Fault (Read α)}
    {h : DataStream → α → Read α}
    (hread : Agrees read h)
    (init : α)
    (add : β → α → β) :
    AgreesStep (readElement read init add) (readElementIn h init add) := by
  intro s b r hstep
  cases hr : read s init with
  | error e =>
      rw [readElement, hr, error_bind] at hstep
      cases hstep
  | ok out =>
      rw [readElement, hr, ok_bind] at hstep
      cases hstep
      rw [readElementIn, hread s init out hr]

theorem readEntryIn_agrees
    {κ ν β : Type}
    {readKey : DataStream → κ → Except Fault (Read κ)}
    {readVal : DataStream → ν → Except Fault (Read ν)}
    {hKey : DataStream → κ → Read κ}
    {hVal : DataStream → ν → Read ν}
    (hkey : Agrees readKey hKey)
    (hval : Agrees readVal hVal)
    (initKey : κ)
    (initVal : ν)
    (add : β → κ × ν → β) :
    AgreesStep (readEntry readKey initKey readVal initVal add)
      (readEntryIn hKey initKey hVal initVal add) := by
  intro s b r hstep
  cases hk : readKey s initKey with
  | error e =>
      rw [readEntry, hk, error_bind] at hstep
      cases hstep
  | ok k =>
      rw [readEntry, hk, ok_bind] at hstep
      cases hv : readVal k.stream initVal with
      | error e =>
          rw [hv, error_bind] at hstep
          cases hstep
      | ok v =>
          rw [hv, ok_bind] at hstep
          cases hstep
          rw [readEntryIn, hkey s initKey k hk, hval k.stream initVal v hv]

theorem Ty.readArgsIn_agrees :
    ∀ {Ts : List Ty}, (∀ T ∈ Ts, Agrees (T.read P) (T.readIn P g)) →
      Agrees (Ty.readArgs P Ts) (Ty.readArgsIn P g Ts)
  | [], _, s, t, r, hread => by
      cases hread
      rfl
  | T :: Ts, hall, s, (t, ts), r, hread => by
      simp only [Ty.readArgs] at hread
      cases hr : T.read P s t with
      | error e =>
          rw [hr, error_bind] at hread
          cases hread
      | ok out =>
          rw [hr, ok_bind] at hread
          rw [Ty.readArgsIn, hall T List.mem_cons_self s t out hr]
          have hrest := Ty.readArgsIn_agrees fun U hU => hall U (List.mem_cons_of_mem T hU)
          cases hok : out.ok with
          | false =>
              simp only [hok, Bool.false_eq_true, if_false] at hread ⊢
              cases hread
              rfl
          | true =>
              simp only [hok, if_true] at hread ⊢
              cases hrs : Ty.readArgs P Ts out.stream ts with
              | error e =>
                  rw [hrs, error_bind] at hread
                  cases hread
              | ok last =>
                  rw [hrs, ok_bind] at hread
                  cases hread
                  rw [hrest out.stream ts last hrs]

/-- **A read that has a result has it in all surroundings.** -/
theorem Ty.readIn_of_read (T : Ty) : Agrees (T.read P) (T.readIn P g) := by
  induction T using Ty.induct with
  | bool => exact readBoolIn_agrees
  | char => exact readCharIn_agrees
  | int32 => exact readNumberIn_agrees .int32 4
  | int64 => exact readNumberIn_agrees .int64 8
  | float => exact readNumberIn_agrees .float 4
  | double => exact readNumberIn_agrees .double 8
  | string => exact readStringIn_agrees
  | vector T ih =>
      exact fun s t r hread => readContainerIn_agrees (readElementIn_agrees ih _ _) hread
  | list T ih =>
      exact fun s t r hread => readContainerIn_agrees (readElementIn_agrees ih _ _) hread
  | set T ih =>
      exact fun s t r hread => readContainerIn_agrees (readElementIn_agrees ih _ _) hread
  | map K V ihK ihV =>
      exact fun s t r hread => readContainerIn_agrees (readEntryIn_agrees ihK ihV _ _ _) hread
  | unorderedSet T ih =>
      exact fun s t r hread => readContainerIn_agrees (readElementIn_agrees ih _ _) hread
  | unorderedMap K V ihK ihV =>
      exact fun s t r hread => readContainerIn_agrees (readEntryIn_agrees ihK ihV _ _ _) hread
  | user cls Ts ih =>
      intro s t r hread
      cases hc : s.cell with
      | error e =>
          simp only [Ty.read, hc, error_bind] at hread
          cases hread
      | ok c =>
          simp only [Ty.read, hc, ok_bind] at hread
          rw [Ty.readIn, Surroundings.cell_eq hc]
          by_cases htag : c ≠ DataType.custom.code
          · rw [if_pos htag] at hread ⊢
            cases hread
            rfl
          · rw [if_neg htag] at hread ⊢
            cases hargs : Ty.readArgs P Ts (s.skip 1) t with
            | error e =>
                rw [hargs, error_bind] at hread
                cases hread
            | ok last =>
                rw [hargs, ok_bind] at hread
                cases hread
                rw [Ty.readArgsIn_agrees ih (s.skip 1) t last hargs]

end Results

/-! ### False without effect -/

/-- Whatever surrounds it, a read that returns false leaves the position and the target. -/
def Ty.Harmless (P : Program) (T : Ty) (s : DataStream) (t : T.Val) : Prop :=
  ∀ g, (T.readIn P g s t).ok = false →
    (T.readIn P g s t).stream.pos = s.pos ∧ (T.readIn P g s t).value = t

/-- The position of the byte with the sign of a length, when its tag stands at the position
of the stream. -/
def signOffset (P : Program) (s : DataStream) : Nat :=
  if s.isBigEndian != P.host.isBig then 1 else 4

/-- If the type is a class, then its tag stands at the position.  If it is a string, then a
byte other than its tag stands there, or an INT32 and the sign of one that is not negative
stand behind it. -/
def Ty.Retryable (P : Program) (T : Ty) (s : DataStream) : Prop :=
  (∀ cls Ts, T = .user cls Ts → s.cell = .ok DataType.custom.code) ∧
    (T = .string →
      (∃ c, s.cell = .ok c ∧ c ≠ DataType.string.code) ∨
        ((s.skip 1).cell = .ok DataType.int32.code ∧
          ∃ c, (s.skip (1 + signOffset P s)).cell = .ok c ∧ c < 128))

section Harmless

variable {P : Program} {g : Surroundings} {s : DataStream}

theorem readNumberIn_false
    {w k : Nat}
    {type : DataType}
    {host : Endian}
    {t : BitVec w}
    (h : (readNumberIn g host type k s t).ok = false) :
    readNumberIn g host type k s t = ⟨false, t, s⟩ := by
  rw [readNumberIn] at h ⊢
  split at h
  case isTrue htag => rw [if_pos htag]
  case isFalse => cases h

theorem readContainerIn_false
    {β : Type}
    {type : DataType}
    {host : Endian}
    {body : DataStream → β → β × DataStream}
    {t start : β}
    (h : (readContainerIn g host type body s t start).ok = false) :
    readContainerIn g host type body s t start = ⟨false, t, s⟩ := by
  rw [readContainerIn] at h ⊢
  split at h
  case isTrue htag => rw [if_pos htag]
  case isFalse => cases h

/-- **Whatever is not a string returns false at another tag only**, and leaves the target. -/
theorem Ty.readIn_false
    {T : Ty}
    {t : T.Val}
    (hkind : T ≠ .string)
    (h : (T.readIn P g s t).ok = false) :
    T.readIn P g s t = ⟨false, t, T.afterOtherTag s⟩ := by
  cases T with
  | bool =>
      simp only [Ty.readIn, readBoolIn] at h ⊢
      split at h
      case isTrue htag => exact if_pos htag
      case isFalse => cases h
  | char =>
      simp only [Ty.readIn, readCharIn] at h ⊢
      split at h
      case isTrue htag => exact if_pos htag
      case isFalse => cases h
  | int32 => exact readNumberIn_false h
  | int64 => exact readNumberIn_false h
  | float => exact readNumberIn_false h
  | double => exact readNumberIn_false h
  | string => exact absurd rfl hkind
  | vector T => exact readContainerIn_false h
  | list T => exact readContainerIn_false h
  | set T => exact readContainerIn_false h
  | map K V => exact readContainerIn_false h
  | unorderedSet T => exact readContainerIn_false h
  | unorderedMap K V => exact readContainerIn_false h
  | user cls Ts =>
      simp only [Ty.readIn] at h ⊢
      split at h
      case isTrue htag => exact if_pos htag
      case isFalse => cases h

/-- A class: the tag is consumed before it is tested. -/
theorem harmless_class_iff
    {cls : String}
    {Ts : List Ty}
    {t : Ty.Tuple Ts} :
    (Ty.user cls Ts).Harmless P s t ↔ s.cell = .ok DataType.custom.code := by
  constructor
  · intro h
    by_contra hother
    -- surroundings in which the byte at the position is no tag of a class
    let g : Surroundings := ⟨fun _ => 0, fun _ => 0⟩
    have htag : g.cell s ≠ DataType.custom.code := by
      cases hc : s.cell with
      | error e =>
          rw [Surroundings.cell, hc]
          show (0 : UInt8) ≠ DataType.custom.code
          decide
      | ok c =>
          rw [Surroundings.cell_eq hc]
          rintro rfl
          exact hother hc
    have hread : (Ty.user cls Ts).readIn P g s t = ⟨false, t, s.skip 1⟩ := by
      simp only [Ty.readIn]
      exact if_pos htag
    have hpos := (h g (by rw [hread])).1
    rw [hread] at hpos
    simp only [DataStream.skip] at hpos
    omega
  · intro hc g hfalse
    have htag : ¬ g.cell s ≠ DataType.custom.code := not_not.mpr (Surroundings.cell_eq hc)
    simp only [Ty.readIn, if_neg htag] at hfalse
    cases hfalse

/-- The sign of a length is the top bit of one of its bytes. -/
theorem length_neg_iff
    {swap : Bool}
    {a b c d : UInt8} :
    (BitVec.ofNat 32 (leValue (orderBytes swap [a, b, c, d]))).toInt < 0 ↔
      ¬ (if swap then a else d) < 128 := by
  have hlt : leValue (orderBytes swap [a, b, c, d]) < 2 ^ 32 := by
    have hbytes := leValue_lt (orderBytes swap [a, b, c, d])
    rw [orderBytes_length] at hbytes
    simpa using hbytes
  rw [toInt_ofNat_neg_iff hlt, UInt8.lt_iff_toNat_lt]
  have ha := a.toNat_lt
  have hb := b.toNat_lt
  have hc := c.toNat_lt
  have hd := d.toNat_lt
  cases swap with
  | true =>
      simp only [orderBytes_true, List.reverse_cons, List.reverse_nil, List.nil_append,
        List.cons_append, leValue, if_true, show (128 : UInt8).toNat = 128 from rfl]
      omega
  | false =>
      simp only [orderBytes_false, leValue, Bool.false_eq_true, if_false,
        show (128 : UInt8).toNat = 128 from rfl]
      omega

/-- A length that is tagged INT32 is negative when its sign says so. -/
theorem readLengthIn_neg_iff
    (htag : g.cell s = DataType.int32.code) :
    (readLengthIn g P.host s).1.toInt < 0 ↔ ¬ g.cell (s.skip (signOffset P s)) < 128 := by
  have hbytes : g.range 4 (s.skip 1) =
      [g.cell (s.skip 1), g.cell (s.skip 2), g.cell (s.skip 3), g.cell (s.skip 4)] := by
    simp only [Surroundings.range, skip_skip]
  have hsign : g.cell (s.skip (signOffset P s)) =
      if (s.isBigEndian != P.host.isBig) then g.cell (s.skip 1) else g.cell (s.skip 4) := by
    rw [signOffset]
    split <;> rfl
  rw [readLengthIn, readNumberIn, if_neg (not_not.mpr htag), hbytes, hsign, fetch_eq_orderBytes]
  exact length_neg_iff

/-- A string: a negative length is tested after the tag and the length are consumed. -/
theorem harmless_string_iff
    {t : List UInt8} :
    Ty.string.Harmless P s t ↔
      (∃ c, s.cell = .ok c ∧ c ≠ DataType.string.code) ∨
        ((s.skip 1).cell = .ok DataType.int32.code ∧
          ∃ c, (s.skip (1 + signOffset P s)).cell = .ok c ∧ c < 128) := by
  constructor
  · intro h
    by_contra hother
    push Not at hother
    obtain ⟨hfirst, hrest⟩ := hother
    -- surroundings with the tag of a string, no tag of a number, and else negative numbers
    let g : Surroundings :=
      ⟨fun i => if i = s.pos then DataType.string.code else if i = s.pos + 1 then 0 else 255,
        fun _ => -1⟩
    have htag : g.cell s = DataType.string.code := by
      cases hc : s.cell with
      | error e =>
          rw [Surroundings.cell, hc]
          exact if_pos rfl
      | ok c => rw [Surroundings.cell_eq hc, hfirst c hc]
    have hneg : (readLengthIn g P.host (s.skip 1)).1.toInt < 0 := by
      by_cases hint : g.cell (s.skip 1) = DataType.int32.code
      · refine (readLengthIn_neg_iff hint).mpr ?_
        have hthere : (s.skip 1).cell = .ok DataType.int32.code := by
          cases hc : (s.skip 1).cell with
          | error e =>
              rw [Surroundings.cell, hc] at hint
              simp [g, DataStream.skip, DataType.code] at hint
          | ok c => rw [← hint, Surroundings.cell_eq hc]
        have hoffset : signOffset P (s.skip 1) = signOffset P s := rfl
        rw [hoffset, skip_skip]
        cases hc : (s.skip (1 + signOffset P s)).cell with
        | ok c =>
            rw [Surroundings.cell_eq hc]
            exact hrest hthere c hc
        | error e =>
            have hfar : 1 ≤ signOffset P s := by
              rw [signOffset]
              split <;> omega
            have hpast : (s.skip (1 + signOffset P s)).pos ≠ s.pos ∧
                (s.skip (1 + signOffset P s)).pos ≠ s.pos + 1 := by
              simp only [DataStream.skip]
              omega
            rw [Surroundings.cell, hc]
            simp only [g]
            rw [if_neg hpast.1, if_neg hpast.2]
            decide
      · rw [readLengthIn, readNumberIn, if_pos hint]
        show (-1 : BitVec 32).toInt < 0
        decide
    have hread : Ty.string.readIn P g s t =
        ⟨false, t, (readLengthIn g P.host (s.skip 1)).2⟩ := by
      simp only [Ty.readIn, readStringIn, htag, ne_eq, not_true_eq_false, if_false, hneg, if_true]
      rfl
    have hpos : (readLengthIn g P.host (s.skip 1)).2.pos = s.pos := by
      have hsame := (h g (by rw [hread])).1
      rwa [hread] at hsame
    have hmoved : s.pos + 1 ≤ (readLengthIn g P.host (s.skip 1)).2.pos := by
      rw [readLengthIn, readNumberIn]
      split
      · exact le_rfl
      · simp only [DataStream.skip]
        omega
    omega
  · intro h g hfalse
    by_cases htag : g.cell s ≠ DataType.string.code
    · have hread : Ty.string.readIn P g s t = ⟨false, t, s⟩ := by
        simp only [Ty.readIn, readStringIn]
        exact if_pos htag
      rw [hread]
      exact ⟨rfl, rfl⟩
    · rcases h with ⟨c, hc, hne⟩ | ⟨hint, c, hc, hsign⟩
      · exact absurd (by rwa [Surroundings.cell_eq hc]) htag
      · have hnonneg : ¬ (readLengthIn g P.host (s.skip 1)).1.toInt < 0 := by
          rw [readLengthIn_neg_iff (Surroundings.cell_eq hint), not_not]
          have hoffset : signOffset P (s.skip 1) = signOffset P s := rfl
          rw [hoffset, skip_skip, Surroundings.cell_eq hc]
          exact hsign
        simp only [Ty.readIn, readStringIn, htag, if_false, hnonneg] at hfalse
        cases hfalse

end Harmless

/-- **When false means untouched.**  A read that returns false leaves the position and the
target, whatever surrounds the stream, exactly when it is that of a class at its tag, that of
a string that is not at its tag or at a length that is not negative, or of another type. -/
theorem read_harmless_iff
    (P : Program)
    (T : Ty)
    (s : DataStream)
    (t : T.Val) :
    T.Harmless P s t ↔ T.Retryable P s := by
  have hother : (∀ cls Ts, T ≠ .user cls Ts) → T ≠ .string → T.afterOtherTag s = s →
      (T.Harmless P s t ↔ T.Retryable P s) := by
    intro hclass hstring hsame
    refine iff_of_true (fun g hfalse => ?_)
      ⟨fun cls Ts heq => absurd heq (hclass cls Ts), fun heq => absurd heq hstring⟩
    rw [Ty.readIn_false hstring hfalse, hsame]
    exact ⟨rfl, rfl⟩
  cases T with
  | string =>
      refine (harmless_string_iff (t := t)).trans ?_
      exact ⟨fun h => ⟨fun _ _ heq => (by cases heq), fun _ => h⟩, fun h => h.2 rfl⟩
  | user cls Ts =>
      refine (harmless_class_iff (t := t)).trans ?_
      exact ⟨fun h => ⟨fun _ _ _ => h, fun heq => by cases heq⟩, fun h => h.1 cls Ts rfl⟩
  | _ => exact hother (by simp) (by simp) rfl

/-- The tag of a `bool` where an object should be: the read returns false one byte on. -/
theorem point_at_bool_not_harmless :
    ¬ ∀ (P : Program) (T : Ty) (s : DataStream) (t : T.Val), T.Harmless P s t := by
  intro h
  have hpos := (h (Program.plain .little) Ty.point (streamHolding [0, 1]) (pointOf 0)
    ⟨fun _ => 0, fun _ => 0⟩ rfl).1
  exact absurd hpos (by decide)

end Serial
end ZeroRPC
