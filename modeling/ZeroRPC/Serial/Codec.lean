import ZeroRPC.Serial.Stream

/-!
# write and read

The overloads of `Data_Stream::write` and `Data_Stream::read`, chosen by the type
as the C++ overload resolution does.  The four number types share one body, and
so do the containers: each `write` puts a tag, the tagged length and the elements,
each `read` tests the tag, reads the length and runs its loop.

As in the source, the containers ignore the results of their inner reads, a
failed read of `int len` leaves `len` unset and the next test branches on it, and
the sets and maps add to what the target holds while `vector` and `list` clear it
first.
-/

namespace ZeroRPC
namespace Serial

open Library

section Write

variable (host : Endian)

/-- `char type {...}; write_memory(&type, sizeof(char))`. -/
def writeTag (s : DataStream) (type : DataType) : Except Fault DataStream :=
  s.writeMemory [type.code] 1

/-- `write(bool)`. -/
def writeBool (s : DataStream) (value : Bool) : Except Fault DataStream := do
  let s ← writeTag s .bool
  s.writeMemory [value.toUInt8] 1

/-- `write(char)`. -/
def writeChar (s : DataStream) (value : UInt8) : Except Fault DataStream := do
  let s ← writeTag s .char
  s.writeMemory [value] 1

/-- The common body of the number overloads: the bytes of `value` in memory,
reversed when `is_big_endian` is set. -/
def writeNumber (type : DataType) (k : Nat) (s : DataStream) (value : Nat) :
    Except Fault DataStream := do
  let s ← writeTag s type
  s.writeMemory (orderBytes s.isBigEndian (host.store k value)) (BitVec.ofNat 32 k)

/-- `write(int32_t)`. -/
def writeInt32 (s : DataStream) (value : BitVec 32) : Except Fault DataStream :=
  writeNumber host .int32 4 s value.toNat

/-- `write(int64_t)`. -/
def writeInt64 (s : DataStream) (value : BitVec 64) : Except Fault DataStream :=
  writeNumber host .int64 8 s value.toNat

/-- `write(float)`. -/
def writeFloat (s : DataStream) (value : BitVec 32) : Except Fault DataStream :=
  writeNumber host .float 4 s value.toNat

/-- `write(double)`. -/
def writeDouble (s : DataStream) (value : BitVec 64) : Except Fault DataStream :=
  writeNumber host .double 8 s value.toNat

/-- `write(const std::string&)`. -/
def writeString (s : DataStream) (data : List UInt8) : Except Fault DataStream := do
  let s ← writeTag s .string
  let s ← writeInt32 host s (BitVec.ofNat 32 data.length)
  s.writeMemory data (BitVec.ofNat 32 data.length)

/-- `write(const char*)`: the characters up to the first NUL. -/
def writeCString (s : DataStream) (value : List UInt8) : Except Fault DataStream :=
  writeString host s (value.takeWhile (· ≠ 0))

/-- The common body of the container overloads. -/
def writeContainer {α : Type} (type : DataType)
    (write : DataStream → α → Except Fault DataStream) (s : DataStream) (value : List α) :
    Except Fault DataStream := do
  let s ← writeTag s type
  let s ← writeInt32 host s (BitVec.ofNat 32 value.length)
  value.foldlM write s

mutual
/-- `Data_Stream::write`. -/
def Ty.write : (T : Ty) → DataStream → T.Val → Except Fault DataStream
  | .bool, s, b => writeBool s b
  | .char, s, c => writeChar s c
  | .int32, s, n => writeInt32 host s n
  | .int64, s, n => writeInt64 host s n
  | .float, s, n => writeFloat host s n
  | .double, s, n => writeDouble host s n
  | .string, s, data => writeString host s data
  | .vector T, s, xs => writeContainer host .vector T.write s xs
  | .list T, s, xs => writeContainer host .list T.write s xs
  | .set T, s, xs => writeContainer host .set T.write s xs
  | .map K V, s, es =>
      writeContainer host .map
        (fun s e => do
          let s ← K.write s e.1
          V.write s e.2)
        s es
  | .unorderedSet T, s, xs => writeContainer host .set T.write s xs
  | .unorderedMap K V, s, es =>
      writeContainer host .map
        (fun s e => do
          let s ← K.write s e.1
          V.write s e.2)
        s es
  | .user _ Ts, s, v => do
      let s ← writeTag s .custom
      Ty.writeArgs Ts s v

/-- `write_args`. -/
def Ty.writeArgs : (Ts : List Ty) → DataStream → Ty.Tuple Ts → Except Fault DataStream
  | [], s, _ => .ok s
  | T :: Ts, s, (v, vs) => do
      let s ← T.write s v
      Ty.writeArgs Ts s vs
end

end Write

section ReadScalars

variable (host : Endian)

/-- `read(bool&)`. -/
def readBool (s : DataStream) (value : Bool) : Except Fault (Read Bool) := do
  let tag ← s.cell
  if tag ≠ DataType.bool.code then
    return ⟨false, value, s⟩
  else
    let c ← (s.skip 1).cell
    return ⟨true, c ≠ 0, s.skip 2⟩

/-- `read(char&)`. -/
def readChar (s : DataStream) (value : UInt8) : Except Fault (Read UInt8) := do
  let tag ← s.cell
  if tag ≠ DataType.char.code then
    return ⟨false, value, s⟩
  else
    let c ← (s.skip 1).cell
    return ⟨true, c, s.skip 2⟩

/-- The common body of the number overloads: the bytes are loaded and reversed
when `is_big_endian` is set. -/
def readNumber {w : Nat} (type : DataType) (k : Nat) (s : DataStream) (value : BitVec w) :
    Except Fault (Read (BitVec w)) := do
  let tag ← s.cell
  if tag ≠ type.code then
    return ⟨false, value, s⟩
  else
    let bytes ← s.buf.range (s.skip 1).pos k
    return ⟨true, BitVec.ofNat w (host.fetch (orderBytes s.isBigEndian bytes)),
      s.skip (1 + k)⟩

/-- `read(int32_t&)`. -/
def readInt32 (s : DataStream) (value : BitVec 32) : Except Fault (Read (BitVec 32)) :=
  readNumber host .int32 4 s value

/-- `read(int64_t&)`. -/
def readInt64 (s : DataStream) (value : BitVec 64) : Except Fault (Read (BitVec 64)) :=
  readNumber host .int64 8 s value

/-- `read(float&)`. -/
def readFloat (s : DataStream) (value : BitVec 32) : Except Fault (Read (BitVec 32)) :=
  readNumber host .float 4 s value

/-- `read(double&)`. -/
def readDouble (s : DataStream) (value : BitVec 64) : Except Fault (Read (BitVec 64)) :=
  readNumber host .double 8 s value

/-- `int len; read(len);` followed by a test of `len`. -/
def readLength (s : DataStream) : Except Fault (BitVec 32 × DataStream) := do
  let r ← readInt32 host s 0
  if r.ok then
    return (r.value, r.stream)
  else
    throw .uninitialisedLength

/-- `read(std::string&)`. -/
def readString (s : DataStream) (value : List UInt8) : Except Fault (Read (List UInt8)) := do
  let tag ← s.cell
  if tag ≠ DataType.string.code then
    return ⟨false, value, s⟩
  else
    let (len, s) ← readLength host (s.skip 1)
    if len.toInt < 0 then
      return ⟨false, value, s⟩
    else
      let bytes ← s.buf.range s.pos len.toNat
      return ⟨true, bytes, s.skip len.toNat⟩

/-- `for (int i = 0; i < n; i ++)`, with the target and the stream as its state. -/
def repeatRead {β : Type} (body : DataStream → β → Except Fault (β × DataStream)) :
    Nat → DataStream → β → Except Fault (β × DataStream)
  | 0, s, value => .ok (value, s)
  | n + 1, s, value => do
      let (value, s) ← body s value
      repeatRead body n s value

/-- The common body of the container overloads: `start` is the target when the
loop begins. -/
def readContainer {β : Type} (type : DataType)
    (body : DataStream → β → Except Fault (β × DataStream))
    (s : DataStream) (value start : β) :
    Except Fault (Read β) := do
  let tag ← s.cell
  if tag ≠ type.code then
    return ⟨false, value, s⟩
  else
    let (len, s) ← readLength host (s.skip 1)
    let (value, s) ← repeatRead body len.toInt.toNat s start
    return ⟨true, value, s⟩

end ReadScalars

section Read

variable (P : Program)

/-- `T v; read(v);` with the result ignored, as a step of a container's loop. -/
def readElement {α β : Type} (read : DataStream → α → Except Fault (Read α)) (init : α)
    (add : β → α → β) (s : DataStream) (value : β) :
    Except Fault (β × DataStream) := do
  let r ← read s init
  return (add value r.value, r.stream)

/-- `K k; read(k); V v; read(v);` as a step of a map's loop. -/
def readEntry {κ ν β : Type}
    (readKey : DataStream → κ → Except Fault (Read κ)) (initKey : κ)
    (readVal : DataStream → ν → Except Fault (Read ν)) (initVal : ν)
    (add : β → κ × ν → β) (s : DataStream) (value : β) :
    Except Fault (β × DataStream) := do
  let k ← readKey s initKey
  let v ← readVal k.stream initVal
  return (add value (k.value, v.value), v.stream)

mutual
/-- `Data_Stream::read` into a target that holds the given value. -/
def Ty.read : (T : Ty) → DataStream → T.Val → Except Fault (Read T.Val)
  | .bool, s, value => readBool s value
  | .char, s, value => readChar s value
  | .int32, s, value => readInt32 P.host s value
  | .int64, s, value => readInt64 P.host s value
  | .float, s, value => readFloat P.host s value
  | .double, s, value => readDouble P.host s value
  | .string, s, value => readString P.host s value
  | .vector T, s, value =>
      readContainer P.host .vector
        (readElement T.read (P.init T) fun (xs : List T.Val) x => xs ++ [x]) s value []
  | .list T, s, value =>
      readContainer P.host .list
        (readElement T.read (P.init T) fun (xs : List T.Val) x => xs ++ [x]) s value []
  | .set T, s, value =>
      readContainer P.host .set
        (readElement T.read (P.init T) (P.insert .ordered T)) s value value
  | .map K V, s, value =>
      readContainer P.host .map
        (readEntry K.read (P.init K) V.read (P.init V) (P.assign .ordered K V)) s value value
  | .unorderedSet T, s, value =>
      readContainer P.host .set
        (readElement T.read (P.init T) (P.insert .unordered T)) s value value
  | .unorderedMap K V, s, value =>
      readContainer P.host .map
        (readEntry K.read (P.init K) V.read (P.init V) (P.assign .unordered K V)) s value value
  | .user _ Ts, s, value => do
      let type ← s.cell
      if type ≠ DataType.custom.code then
        return ⟨false, value, s.skip 1⟩
      else
        let r ← Ty.readArgs Ts (s.skip 1) value
        return ⟨true, r.value, r.stream⟩

/-- `read_args`: stops at the first member that is not read. -/
def Ty.readArgs :
    (Ts : List Ty) → DataStream → Ty.Tuple Ts → Except Fault (Read (Ty.Tuple Ts))
  | [], s, value => .ok ⟨true, value, s⟩
  | T :: Ts, s, (value, values) => do
      let r ← T.read s value
      if r.ok then
        let rs ← Ty.readArgs Ts r.stream values
        return ⟨rs.ok, (r.value, rs.value), rs.stream⟩
      else
        return ⟨false, (r.value, values), r.stream⟩
end

/-- `get<T>()`. -/
def Ty.get (T : Ty) (s : DataStream) : Except Fault (T.Val × DataStream) := do
  let r ← T.read P s (P.init T)
  return (r.value, r.stream)

end Read

end Serial
end ZeroRPC
