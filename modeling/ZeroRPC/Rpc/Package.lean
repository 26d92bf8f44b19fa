import ZeroRPC.Serial.RoundTrip

/-!
# Requests and responses

`RPCRequest` and `RPCResponse` are classes with `SERIALIZE`; their `params` and
`result` are streams, which are themselves serialised as a flag, a vector of
characters and a position.  A stream that was copied has no spare storage.

Main facts:
* `serialise_eq`, `deserialise_eq`: the bytes of an object, and the object read
  from them on a host of the same byte order;
* `RPCRequest.deserialise_bytes`, `RPCResponse.deserialise_bytes`: the two packages
  arrive as they were sent.
-/

namespace ZeroRPC
namespace Rpc

open Library Serial

/-- `Data_Stream buf; buf << v; buf.data()`. -/
def serialise (host : Endian) (T : Ty) (v : T.Val) : Except Fault (List UInt8) := do
  let s ← T.write host (DataStream.empty host) v
  return s.data

/-- `Data_Stream buf; buf.load(bytes); buf >> value`. -/
def deserialise (P : Program) (T : Ty) (value : T.Val) (bytes : List UInt8) :
    Except Fault T.Val := do
  let s ← (DataStream.empty P.host).load bytes
  let r ← T.read P s value
  return r.value

theorem serialise_eq
    (host : Endian)
    {T : Ty}
    {v : T.Val}
    (hsize : ((T.tree v).encode false).length < 2 ^ 31) :
    serialise host T v = .ok ((T.tree v).encode false) := by
  have hflag : ((DataStream.empty host).isBigEndian != host.isBig) = false := by
    simp [DataStream.empty]
  have hroom : (DataStream.empty host).buf.size + ((T.tree v).encode false).length < 2 ^ 31 := by
    simpa [DataStream.empty, CharVector.size] using hsize
  obtain ⟨s, hs, happ⟩ := Ty.write_encodes T v _ hflag hroom
  have hs : T.write host (DataStream.empty host) v = .ok s := hs
  have hdata : s.data = (T.tree v).encode false := by
    simpa [DataStream.data, DataStream.empty] using happ.elems
  simp only [serialise, hs, ok_bind, pure_eq_ok, hdata]

theorem deserialise_eq
    (P : Program)
    {T : Ty}
    (value v : T.Val)
    (hsize : ((T.tree v).encode false).length < 2 ^ 31) :
    deserialise P T value ((T.tree v).encode false) = .ok (T.merge P value v) := by
  obtain ⟨s, hs, hflag, hahead⟩ := load_ahead P.host hsize
  have hread : T.read P s value = _ :=
    Ty.read_encoded P T value v hsize s (by simp [hflag]) hahead
  simp only [deserialise, hs, ok_bind, hread, pure_eq_ok]

/-! ### Streams as values -/

/-- A copy of the object: the copied vector has no spare storage. -/
def copy (s : DataStream) : DataStream := s.trimmed

/-- The stream with the given members. -/
def streamOfMembers (v : Ty.dataStream.Val) : DataStream :=
  { isBigEndian := v.1
    buf := { elems := v.2.1, spare := [] }
    pos := BitVec.toInt v.2.2.1 }

/-- A position that was not moved survives the conversion to `int32_t`. -/
theorem streamOfMembers_members
    {s : DataStream}
    (hpos : s.pos = 0) :
    streamOfMembers s.members = copy s := by
  simp [streamOfMembers, DataStream.members, copy, DataStream.trimmed, hpos]

/-! ### The two packages -/

/-- `SERIALIZE(method, params, id)`. -/
def rpcRequest : Ty := .user "RPCRequest" [.string, .dataStream, .string]

/-- `SERIALIZE(result, error, id)`. -/
def rpcResponse : Ty := .user "RPCResponse" [.dataStream, .string, .string]

structure RPCRequest where
  id : List UInt8
  method : List UInt8
  params : DataStream

structure RPCResponse where
  result : DataStream
  error : List UInt8
  id : List UInt8

namespace RPCRequest

/-- A default-constructed request. -/
def init (host : Endian) : RPCRequest :=
  { id := [], method := [], params := DataStream.empty host }

def members (r : RPCRequest) : rpcRequest.Val :=
  (r.method, r.params.members, r.id, ())

def ofMembers (v : rpcRequest.Val) : RPCRequest :=
  { id := v.2.2.1, method := v.1, params := streamOfMembers v.2.1 }

/-- The encoding of a request. -/
def bytes (r : RPCRequest) : List UInt8 := (rpcRequest.tree r.members).encode false

/-- `request_buf << request`. -/
def serialise (host : Endian) (r : RPCRequest) : Except Fault (List UInt8) :=
  Rpc.serialise host rpcRequest r.members

/-- `value.load(data); value >> request`. -/
def deserialise (P : Program) (data : List UInt8) : Except Fault RPCRequest := do
  let v ← Rpc.deserialise P rpcRequest (init P.host).members data
  return ofMembers v

theorem serialise_bytes
    (host : Endian)
    {r : RPCRequest}
    (hsize : r.bytes.length < 2 ^ 31) :
    r.serialise host = .ok r.bytes :=
  serialise_eq host hsize

/-- A request arrives with the members it was sent with. -/
theorem deserialise_members
    (P : Program)
    {r : RPCRequest}
    (hsize : r.bytes.length < 2 ^ 31) :
    deserialise P r.bytes = .ok (ofMembers r.members) := by
  have hmerge : rpcRequest.merge P (init P.host).members r.members = r.members := by
    show (r.method, Ty.dataStream.merge P _ r.params.members, r.id, ()) = r.members
    rw [merge_dataStream]
    rfl
  have hread : Rpc.deserialise P rpcRequest (init P.host).members r.bytes = .ok r.members := by
    rw [← hmerge]
    exact deserialise_eq P (init P.host).members r.members hsize
  rw [deserialise, hread, ok_bind, pure_eq_ok]

/-- So it arrives as it was sent, its parameters as a copy. -/
theorem deserialise_bytes
    (P : Program)
    {r : RPCRequest}
    (hsize : r.bytes.length < 2 ^ 31)
    (hpos : r.params.pos = 0) :
    deserialise P r.bytes = .ok { r with params := copy r.params } := by
  rw [deserialise_members P hsize, ← streamOfMembers_members hpos]
  rfl

end RPCRequest

namespace RPCResponse

/-- A default-constructed response. -/
def init (host : Endian) : RPCResponse :=
  { result := DataStream.empty host, error := [], id := [] }

def members (r : RPCResponse) : rpcResponse.Val :=
  (r.result.members, r.error, r.id, ())

def ofMembers (v : rpcResponse.Val) : RPCResponse :=
  { result := streamOfMembers v.1, error := v.2.1, id := v.2.2.1 }

/-- The encoding of a response. -/
def bytes (r : RPCResponse) : List UInt8 := (rpcResponse.tree r.members).encode false

/-- `response_buf << response`. -/
def serialise (host : Endian) (r : RPCResponse) : Except Fault (List UInt8) :=
  Rpc.serialise host rpcResponse r.members

/-- `response_buf.load(data); response_buf >> response`. -/
def deserialise (P : Program) (data : List UInt8) : Except Fault RPCResponse := do
  let v ← Rpc.deserialise P rpcResponse (init P.host).members data
  return ofMembers v

theorem serialise_bytes
    (host : Endian)
    {r : RPCResponse}
    (hsize : r.bytes.length < 2 ^ 31) :
    r.serialise host = .ok r.bytes :=
  serialise_eq host hsize

/-- A response arrives with the members it was sent with. -/
theorem deserialise_members
    (P : Program)
    {r : RPCResponse}
    (hsize : r.bytes.length < 2 ^ 31) :
    deserialise P r.bytes = .ok (ofMembers r.members) := by
  have hmerge : rpcResponse.merge P (init P.host).members r.members = r.members := by
    show (Ty.dataStream.merge P _ r.result.members, r.error, r.id, ()) = r.members
    rw [merge_dataStream]
    rfl
  have hread : Rpc.deserialise P rpcResponse (init P.host).members r.bytes = .ok r.members := by
    rw [← hmerge]
    exact deserialise_eq P (init P.host).members r.members hsize
  rw [deserialise, hread, ok_bind, pure_eq_ok]

/-- So it arrives as it was sent, its result as a copy. -/
theorem deserialise_bytes
    (P : Program)
    {r : RPCResponse}
    (hsize : r.bytes.length < 2 ^ 31)
    (hpos : r.result.pos = 0) :
    deserialise P r.bytes = .ok { r with result := copy r.result } := by
  rw [deserialise_members P hsize, ← streamOfMembers_members hpos]
  rfl

end RPCResponse

end Rpc
end ZeroRPC
