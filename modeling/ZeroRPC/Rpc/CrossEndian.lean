import ZeroRPC.Serial.Swapped
import ZeroRPC.Rpc.Call

/-!
# Streams carried between hosts of different byte order

A stream of values is written on one host, carried to another as the `params` of a
request or the `result` of a response, and read there.  The outer message has the
flag of the host that handles it at either end and arrives intact; the flag of the
nested stream is a serialised member and stays that of the sender.

Main facts:
* `Envelope.carry_eq`: the nested stream arrives byte by byte, with the sender's flag;
* `survives_iff_absorb`: when the hosts agree or every number is its own reversal, its
  values are read back if they absorb the objects they are read into;
* `survives_plain_iff`: values of plain types are read back only then;
* `cross_endian_iff`: the two together.
-/

namespace ZeroRPC
namespace Rpc

open Library Serial

/-- The message that carries the stream, with its other members. -/
inductive Envelope
  | request (method id : List UInt8)
  | response (error id : List UInt8)

/-- The outer message on the wire, when the stream has the given bytes. -/
def Envelope.frame (sender : Endian) (bytes : List UInt8) : Envelope → List UInt8
  | .request method id =>
      RPCRequest.bytes { id := id, method := method, params := streamOf sender bytes }
  | .response error id =>
      RPCResponse.bytes { result := streamOf sender bytes, error := error, id := id }

/-- The stream is serialised as a member by the sender and deserialised by the
receiver. -/
def Envelope.carry (sender : Endian) (P : Program) (ds : DataStream) :
    Envelope → Except Fault DataStream
  | .request method id => do
      let request : RPCRequest := { id := id, method := method, params := copy ds }
      let data ← request.serialise sender
      let request ← RPCRequest.deserialise P data
      return request.params
  | .response error id => do
      let response : RPCResponse := { result := copy ds, error := error, id := id }
      let data ← response.serialise sender
      let response ← RPCResponse.deserialise P data
      return response.result

/-- Values of the given types, read one after the other. -/
def readAll (P : Program) :
    (Ts : List Ty) → DataStream → Except Fault (Ty.Tuple Ts × DataStream)
  | [], s => .ok ((), s)
  | T :: Ts, s => do
      let (v, s) ← T.get P s
      let (vs, s) ← readAll P Ts s
      return ((v, vs), s)

/-- The values written on the sender are those read on the receiver. -/
def Survives (sender : Endian) (P : Program) (envelope : Envelope) (Ts : List Ty)
    (vs : Ty.Tuple Ts) : Prop :=
  ∃ ds s rs s',
    Ty.writeArgs sender Ts (DataStream.empty sender) vs = .ok ds ∧
    envelope.carry sender P ds = .ok s ∧
    readAll P Ts s = .ok (rs, s') ∧
    Ty.SameAll Ts rs vs

section Carry

variable {sender : Endian} {P : Program} {envelope : Envelope}

/-- **The nested stream arrives as the sender wrote it, flag included.** -/
theorem Envelope.carry_eq
    {ds : DataStream}
    {bytes : List UInt8}
    (hds : copy ds = streamOf sender bytes)
    (hsize : (envelope.frame sender bytes).length < 2 ^ 31) :
    envelope.carry sender P ds = .ok (streamOf sender bytes) := by
  cases envelope with
  | request method id =>
      have hsent := RPCRequest.serialise_bytes sender hsize
      have harrives := RPCRequest.deserialise_bytes P hsize rfl
      simp only [Envelope.carry, hds, hsent, harrives, ok_bind, pure_eq_ok, copy_streamOf]
  | response error id =>
      have hsent := RPCResponse.serialise_bytes sender hsize
      have harrives := RPCResponse.deserialise_bytes P hsize rfl
      simp only [Envelope.carry, hds, hsent, harrives, ok_bind, pure_eq_ok, copy_streamOf]

theorem Envelope.stream_length_le
    (sender : Endian)
    (envelope : Envelope)
    (bytes : List UInt8) :
    bytes.length ≤ (envelope.frame sender bytes).length := by
  cases envelope with
  | request method id =>
      exact RPCRequest.params_length_le
        { id := id, method := method, params := streamOf sender bytes }
  | response error id =>
      exact RPCResponse.result_length_le
        { result := streamOf sender bytes, error := error, id := id }

theorem writeArgs_eq
    (sender : Endian)
    {Ts : List Ty}
    {vs : Ty.Tuple Ts}
    (hsize : (Value.encodeAll false (Ty.trees Ts vs)).length < 2 ^ 31) :
    ∃ ds, Ty.writeArgs sender Ts (DataStream.empty sender) vs = .ok ds ∧
      copy ds = streamOf sender (Value.encodeAll false (Ty.trees Ts vs)) := by
  have hflag : ((DataStream.empty sender).isBigEndian != sender.isBig) = false := by
    simp [DataStream.empty]
  have hroom : (DataStream.empty sender).buf.size +
      (Value.encodeAll false (Ty.trees Ts vs)).length < 2 ^ 31 := by
    simpa [DataStream.empty, CharVector.size] using hsize
  obtain ⟨ds, hds, happ⟩ :=
    Ty.writeArgs_encodes (fun T _ v => Ty.write_encodes T v) vs _ hflag hroom
  exact ⟨ds, hds, copy_eq_streamOf happ⟩

/-- What survives is decided by the reads alone. -/
theorem survives_iff
    {Ts : List Ty}
    {vs : Ty.Tuple Ts}
    (hsize : (envelope.frame sender
      (Value.encodeAll false (Ty.trees Ts vs))).length < 2 ^ 31) :
    Survives sender P envelope Ts vs ↔
      ∃ rs s', readAll P Ts (streamOf sender (Value.encodeAll false (Ty.trees Ts vs))) =
        .ok (rs, s') ∧ Ty.SameAll Ts rs vs := by
  have hlen := lt_of_le_of_lt (Envelope.stream_length_le sender envelope
    (Value.encodeAll false (Ty.trees Ts vs))) hsize
  obtain ⟨ds, hds, hcopy⟩ := writeArgs_eq sender hlen
  have hcarry := Envelope.carry_eq (P := P) hcopy hsize
  constructor
  · rintro ⟨ds', s, rs, s', hwrite, hcarried, hread, hsame⟩
    rw [hds] at hwrite
    cases hwrite
    rw [hcarry] at hcarried
    cases hcarried
    exact ⟨rs, s', hread, hsame⟩
  · rintro ⟨rs, s', hread, hsame⟩
    exact ⟨ds, _, rs, s', hds, hcarry, hread, hsame⟩

end Carry

section Reads

variable {P : Program} {swap : Bool}

theorem readAll_encoded :
    ∀ {Ts : List Ty} {vs : Ty.Tuple Ts} {s : DataStream},
      (Value.encodeAll swap (Ty.trees Ts vs)).length < 2 ^ 31 →
      (s.isBigEndian != P.host.isBig) = swap →
      Ahead s (Value.encodeAll swap (Ty.trees Ts vs)) →
        ∃ s', readAll P Ts s = .ok (received P Ts vs, s')
  | [], (), s, _, _, _ => ⟨s, rfl⟩
  | T :: Ts, (v, vs), s, hlen, hflag, hahead => by
      simp only [Ty.trees, Value.encodeAll, List.length_append] at hlen hahead
      have hfirst : T.read P s (P.init T) = _ :=
        Ty.read_encoded P T (P.init T) v (by omega) s hflag hahead.left
      obtain ⟨s', hrest⟩ := readAll_encoded (s := s.skip _) (by omega) hflag hahead.skip
      refine ⟨s', ?_⟩
      simp only [readAll, Ty.get, hfirst, ok_bind, pure_eq_ok, hrest]
      rfl

/-- Plain values that are all read back across a reversal have palindromic numbers. -/
theorem neutral_of_readAll :
    ∀ {Ts : List Ty} {vs rs : Ty.Tuple Ts} {s s' : DataStream},
      (∀ T ∈ Ts, T.Plain) →
      (Value.encodeAll false (Ty.trees Ts vs)).length < 2 ^ 31 →
      (s.isBigEndian != P.host.isBig) = true →
      Ahead s (Value.encodeAll false (Ty.trees Ts vs)) →
      readAll P Ts s = .ok (rs, s') → Ty.SameAll Ts rs vs →
        Neutral (Ty.trees Ts vs)
  | [], _, _, _, _, _, _, _, _, _, _ => rfl
  | T :: Ts, (v, vs), (r, rs), s, s', hplain, hlen, hflag, hahead, hread, hsame => by
      simp only [Ty.trees, Value.encodeAll, List.length_append] at hlen hahead
      have hT := Ty.swapReads P T (hplain T (by simp))
      cases hfirst : T.read P s (P.init T) with
      | error e =>
          simp only [readAll, Ty.get, hfirst, error_bind] at hread
          cases hread
      | ok x =>
          simp only [readAll, Ty.get, hfirst, ok_bind, pure_eq_ok] at hread
          cases hrest : readAll P Ts x.stream with
          | error e =>
              simp only [hrest, error_bind] at hread
              cases hread
          | ok out =>
              simp only [hrest, ok_bind] at hread
              cases hread
              have hvalue : x.value = v := Ty.same_plain T (hplain T (by simp)) _ _ hsame.1
              have hneutral := hT.neutral hflag hahead.left (by omega) hfirst hvalue
              have hnext : T.read P s (P.init T) = _ :=
                hT.advance v (by rw [hneutral]; omega) s hflag (hneutral ▸ hahead.left)
              rw [hfirst] at hnext
              cases hnext
              rw [hneutral] at hrest
              have ih := neutral_of_readAll (fun U hU => hplain U (by simp [hU])) (by omega)
                (s := s.skip _) hflag hahead.skip hrest hsame.2
              rw [Neutral, Ty.trees, Value.encodeAll, Value.encodeAll, hneutral, ih]

end Reads

/-- Equal hosts, or numbers that are their own reversal: the reads are the usual
ones. -/
theorem survives_iff_absorb
    {sender : Endian}
    {P : Program}
    {envelope : Envelope}
    {Ts : List Ty}
    {vs : Ty.Tuple Ts}
    (hsize : (envelope.frame sender
      (Value.encodeAll false (Ty.trees Ts vs))).length < 2 ^ 31)
    (h : sender = P.host ∨ Neutral (Ty.trees Ts vs)) :
    Survives sender P envelope Ts vs ↔ ArgsAbsorb P Ts vs := by
  have hlen := lt_of_le_of_lt (Envelope.stream_length_le sender envelope
    (Value.encodeAll false (Ty.trees Ts vs))) hsize
  have hbytes : Value.encodeAll false (Ty.trees Ts vs) =
      Value.encodeAll (sender.isBig != P.host.isBig) (Ty.trees Ts vs) := by
    rcases h with rfl | hneutral
    · rw [bne_self_eq_false]
    · cases (sender.isBig != P.host.isBig) with
      | false => rfl
      | true => exact hneutral.symm
  have hahead : Ahead (streamOf sender (Value.encodeAll false (Ty.trees Ts vs)))
      (Value.encodeAll (sender.isBig != P.host.isBig) (Ty.trees Ts vs)) := by
    rw [← hbytes]
    exact streamOf_ahead _ _
  have hlen' :
      (Value.encodeAll (sender.isBig != P.host.isBig) (Ty.trees Ts vs)).length < 2 ^ 31 := by
    rw [← hbytes]
    exact hlen
  obtain ⟨s', hread⟩ := readAll_encoded hlen' rfl hahead
  rw [survives_iff hsize]
  constructor
  · rintro ⟨rs, t, hread', hsame⟩
    rw [hread] at hread'
    cases hread'
    exact hsame
  · intro hsame
    exact ⟨_, s', hread, hsame⟩

/-- Plain types replace their targets. -/
theorem argsAbsorb_of_plain {P : Program} :
    ∀ {Ts : List Ty} {vs : Ty.Tuple Ts}, (∀ T ∈ Ts, T.Plain) → ArgsAbsorb P Ts vs
  | [], _, _ => trivial
  | T :: Ts, (v, vs), h => by
      refine ⟨?_, argsAbsorb_of_plain fun U hU => h U (by simp [hU])⟩
      rw [Ty.merge_plain P T (h T (by simp))]
      exact T.same_refl v

theorem survives_plain_iff
    {sender : Endian}
    {P : Program}
    {envelope : Envelope}
    {Ts : List Ty}
    {vs : Ty.Tuple Ts}
    (hsize : (envelope.frame sender
      (Value.encodeAll false (Ty.trees Ts vs))).length < 2 ^ 31)
    (hplain : ∀ T ∈ Ts, T.Plain) :
    Survives sender P envelope Ts vs ↔ sender = P.host ∨ Neutral (Ty.trees Ts vs) := by
  constructor
  · intro h
    by_cases hhost : sender = P.host
    · exact Or.inl hhost
    · right
      obtain ⟨rs, s', hread, hsame⟩ := (survives_iff hsize).mp h
      have hlen := lt_of_le_of_lt (Envelope.stream_length_le sender envelope
        (Value.encodeAll false (Ty.trees Ts vs))) hsize
      have hflag : (sender.isBig != P.host.isBig) = true := by
        simpa [bne_iff_ne] using hhost
      exact neutral_of_readAll hplain hlen hflag (streamOf_ahead _ _) hread hsame
  · intro h
    exact (survives_iff_absorb hsize h).mpr (argsAbsorb_of_plain hplain)

/-- A request that carries the number 1. -/
def oneRequest : Envelope :=
  .request (HandlerManager.text "say") (HandlerManager.text "1")

/-- The number 1 arrives only on a host of the sender's byte order: any other reverses
its bytes once more than the sender did. -/
theorem one_survives_iff
    (sender : Endian)
    (P : Program) :
    Survives sender P oneRequest [.int32] ((1 : BitVec 32), ()) ↔ sender = P.host := by
  have hplain : ∀ T ∈ [Ty.int32], T.Plain := by
    intro T hT
    obtain rfl := List.mem_singleton.mp hT
    exact trivial
  have hsize : (oneRequest.frame sender
      (Value.encodeAll false (Ty.trees [.int32] ((1 : BitVec 32), ())))).length < 2 ^ 31 := by
    cases sender <;> decide
  rw [survives_plain_iff hsize hplain]
  constructor
  · rintro (hhost | hneutral)
    · exact hhost
    · have hbyte : (0 : UInt8) = 1 := congrArg (fun bs => bs.getD 1 0) hneutral
      exact absurd hbyte (by decide)
  · exact Or.inl

/-- **When values survive the change of hosts.**  Every list of values that absorb the
objects they are read into does exactly when the hosts have one byte order; between
any two hosts the lists do whose numbers are their own reversal; and plain values
survive in no other case. -/
theorem cross_endian_iff
    (sender : Endian)
    (P : Program) :
    ((∀ (envelope : Envelope) (Ts : List Ty) (vs : Ty.Tuple Ts),
      (envelope.frame sender (Value.encodeAll false (Ty.trees Ts vs))).length < 2 ^ 31 →
        ArgsAbsorb P Ts vs → Survives sender P envelope Ts vs) ↔ sender = P.host) ∧
    ∀ (envelope : Envelope) (Ts : List Ty) (vs : Ty.Tuple Ts),
      (envelope.frame sender (Value.encodeAll false (Ty.trees Ts vs))).length < 2 ^ 31 →
      (sender = P.host ∨ Neutral (Ty.trees Ts vs) →
        (Survives sender P envelope Ts vs ↔ ArgsAbsorb P Ts vs)) ∧
      ((∀ T ∈ Ts, T.Plain) →
        (Survives sender P envelope Ts vs ↔ sender = P.host ∨ Neutral (Ty.trees Ts vs))) := by
  refine ⟨⟨fun h => ?_, fun hhost => ?_⟩, fun envelope Ts vs hsize =>
    ⟨survives_iff_absorb hsize, survives_plain_iff hsize⟩⟩
  · refine (one_survives_iff sender P).mp (h oneRequest [.int32] _ ?_ ⟨rfl, trivial⟩)
    cases sender <;> decide
  · exact fun envelope Ts vs hsize habsorb =>
      (survives_iff_absorb hsize (Or.inl hhost)).mpr habsorb

/-- 0x01000001 and an empty string, from a little-endian to a big-endian host. -/
theorem palindrome_survives :
    Survives .little (Program.plain .big)
      (.request (HandlerManager.text "say") (HandlerManager.text "1"))
      [.int32, .string] ((0x01000001 : BitVec 32), ([] : List UInt8), ()) := by
  refine (((cross_endian_iff _ _).2 _ _ _ (by decide)).2 ?_).mpr (Or.inr rfl)
  intro T hT
  simp only [List.mem_cons, List.not_mem_nil, or_false] at hT
  rcases hT with rfl | rfl <;> exact trivial

/-- The number 1, from a little-endian to a big-endian host. -/
theorem one_not_survives :
    ¬ Survives .little (Program.plain .big) oneRequest [.int32] ((1 : BitVec 32), ()) :=
  fun h => absurd ((one_survives_iff .little (Program.plain .big)).mp h) (by decide)

end Rpc
end ZeroRPC
