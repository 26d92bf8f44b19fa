import ZeroRPC.Rpc.Handler

/-!
# A remote call, end to end

The request built by `Rpc_Client::call` is handed to the server callback, and the
frame it writes back to the client callback, which completes the promise the call
waits for.  Client and server are two programs on hosts of the same byte order.

Main facts:
* `execute_eq`: the handler is applied once, to what `get_args` makes of the
  arguments, and what it returns is in the reply;
* `finish_eq`: the caller gets what a read makes of that;
* `call_faithful_iff`: arguments and result arrive as they were exactly when each
  absorbs the default-constructed object it is read into.
-/

namespace ZeroRPC
namespace Rpc

open Library Serial

/-! ### The client -/

/-- `Rpc_Client::call` up to `send_message`: the bytes of the request. -/
def prepare (host : Endian) (method id : List UInt8) {Ts : List Ty} (args : Args Ts) :
    Except Fault (List UInt8) := do
  let ds ← writeArgsReversed host (DataStream.empty host) args
  let request : RPCRequest := { id := id, method := method, params := copy ds }
  request.serialise host

/-- `Ret result; result_buf >> result; return result;`, and nothing for `void`. -/
def readResult (P : Program) : (R : Option Ty) → DataStream → Except Fault (Ret R)
  | none, _ => .ok ()
  | some T, s => do
      let (result, _) ← T.get P s
      return result

/-- What a promise is completed with. -/
inductive Completion
  | value (result : DataStream)
  | exception (what : List UInt8)

/-- `set_exception` for a response with an error, `set_value` for any other. -/
def RPCResponse.completion (response : RPCResponse) : Completion :=
  if response.error ≠ [] then
    .exception response.error
  else
    .value (copy response.result)

/-- `future.get()` and the rest of `Rpc_Client::call`. -/
def Completion.get (P : Program) (R : Option Ty) :
    Completion → Except Fault (Except (List UInt8) (Ret R))
  | .exception what => .ok (.error what)
  | .value result => do
      let result ← readResult P R result
      return .ok result

/-- The client callback, as the call waiting under `id` sees it: nothing happens when
the response is another's. -/
def finish (P : Program) (id : List UInt8) (R : Option Ty) (data : List UInt8) :
    Except Fault (Option (Except (List UInt8) (Ret R))) := do
  let response ← RPCResponse.deserialise P data
  if response.id ≠ id then
    return none
  else
    let result ← response.completion.get P R
    return some result

/-- The request of a call in the hands of the server. -/
def execute (client server : Program) (S : RpcServer) (fd : Int) (method id : List UInt8)
    {Ts : List Ty} (args : Args Ts) : Outcome (List UInt8) := do
  let request ← prepare client.host method id args
  S.onReadMessage server fd request

/-! ### What goes over the wire -/

/-- The request of a call. -/
def sentRequest (host : Endian) (method id : List UInt8) (Ts : List Ty) (vs : Ty.Tuple Ts) :
    RPCRequest :=
  { id := id
    method := method
    params := streamOf host (Value.encodeAll false (argTrees Ts vs)) }

/-- The response to a call whose function was applied to `args`. -/
def sentResponse (host : Endian) (id : List UInt8) (h : FunctionHandler)
    (args : Ty.Tuple h.params) : RPCResponse :=
  match h.func args with
  | .ok ret =>
      { RPCResponse.init host with
        id := id
        result := streamOf host (Value.encodeAll false (Ret.trees h.ret ret)) }
  | .error what => { RPCResponse.init host with id := id, error := what }

/-- What a read of the result makes of it. -/
def Ret.received (P : Program) : (R : Option Ty) → Ret R → Ret R
  | none, r => r
  | some T, r => T.merge P (P.init T) r

/-- Equality of results. -/
def Ret.Same : (R : Option Ty) → Ret R → Ret R → Prop
  | none, _, _ => True
  | some T, r, r' => T.Same r r'

theorem encodeAll_map_char_length (swap : Bool) (cs : List UInt8) :
    (Value.encodeAll swap (cs.map Value.char)).length = 2 * cs.length := by
  induction cs with
  | nil => rfl
  | cons c cs ih =>
      simp only [List.map_cons, Value.encodeAll, Value.encode, List.length_append, ih,
        List.length_cons, List.length_nil]
      omega

/-- A stream is shorter than its own encoding. -/
theorem stream_length_le (s : DataStream) :
    s.buf.elems.length ≤ ((Ty.dataStream.tree s.members).encode false).length := by
  have hchars : (Value.encodeAll false (List.map Value.char s.buf.elems)).length =
      2 * s.buf.elems.length :=
    encodeAll_map_char_length false s.buf.elems
  have htree : Ty.dataStream.tree s.members =
      .user [.bool s.isBigEndian, .vector (s.buf.elems.map Value.char),
        .int32 (BitVec.ofInt 32 s.pos)] := rfl
  rw [htree]
  simp only [Value.encode, Value.encodeAll, List.length_cons, List.length_append, hchars]
  omega

theorem RPCRequest.params_length_le (r : RPCRequest) :
    r.params.buf.elems.length ≤ r.bytes.length := by
  have hparams := stream_length_le r.params
  have htree : rpcRequest.tree r.members =
      .user [.string r.method, Ty.dataStream.tree r.params.members, .string r.id] := rfl
  rw [RPCRequest.bytes, htree]
  simp only [Value.encode, Value.encodeAll, List.length_cons, List.length_append]
  omega

theorem RPCResponse.result_length_le (r : RPCResponse) :
    r.result.buf.elems.length ≤ r.bytes.length := by
  have hresult := stream_length_le r.result
  have htree : rpcResponse.tree r.members =
      .user [Ty.dataStream.tree r.result.members, .string r.error, .string r.id] := rfl
  rw [RPCResponse.bytes, htree]
  simp only [Value.encode, Value.encodeAll, List.length_cons, List.length_append]
  omega

section Exchange

variable {client server : Program}

theorem prepare_eq
    {host : Endian}
    {method id : List UInt8}
    {Ts : List Ty}
    {args : Args Ts}
    (hsize : (sentRequest host method id Ts args.vals).bytes.length < 2 ^ 31) :
    prepare host method id args = .ok (sentRequest host method id Ts args.vals).bytes := by
  have hparams : (Value.encodeAll false (argTrees Ts args.vals)).length < 2 ^ 31 :=
    lt_of_le_of_lt (RPCRequest.params_length_le (sentRequest host method id Ts args.vals)) hsize
  have hflag : ((DataStream.empty host).isBigEndian != host.isBig) = false := by
    simp [DataStream.empty]
  have hroom : (DataStream.empty host).buf.size +
      (Value.encodeAll false (argTrees Ts args.vals)).length < 2 ^ 31 := by
    simpa [DataStream.empty, CharVector.size] using hparams
  obtain ⟨ds, hds, happ⟩ := writeArgsReversed_encodes args _ hflag hroom
  have hds : writeArgsReversed host (DataStream.empty host) args = .ok ds := hds
  rw [prepare, hds, ok_bind, copy_eq_streamOf happ]
  exact RPCRequest.serialise_bytes host hsize

/-- What the response says of the outcome of a handler. -/
theorem apply_eq
    {h : FunctionHandler}
    {args : Ty.Tuple h.params}
    (request : RPCRequest)
    (hsize : (sentResponse server.host request.id h args).bytes.length < 2 ^ 31) :
    ∃ result, h.apply server args = .ok result ∧
      respond server.host request (result.map some) =
        sentResponse server.host request.id h args := by
  cases hfunc : h.func args with
  | error what =>
      refine ⟨.error what, ?_, ?_⟩
      · simp only [FunctionHandler.apply, hfunc]
      · simp only [sentResponse, hfunc]
        rfl
  | ok ret =>
      have hresult : (Value.encodeAll false (Ret.trees h.ret ret)).length < 2 ^ 31 := by
        refine lt_of_le_of_lt ?_ hsize
        have hle := RPCResponse.result_length_le (sentResponse server.host request.id h args)
        simpa only [sentResponse, hfunc, streamOf] using hle
      obtain ⟨s, hs, hcopy⟩ := Ret.write_encodes server.host hresult
      refine ⟨.ok s, ?_, ?_⟩
      · simp only [FunctionHandler.apply, hfunc, hs, ok_bind, pure_eq_ok]
      · simp only [sentResponse, hfunc, ← hcopy]
        rfl

/-- The answer to the request of a call. -/
theorem answer_eq
    {S : RpcServer}
    {fd : Int}
    {h : FunctionHandler}
    {vs : Ty.Tuple h.params}
    {request : RPCRequest}
    (hfd : fd ∈ S.users)
    (hfind : S.manager.find request.method = some h)
    (hparams : request.params =
      streamOf server.host (Value.encodeAll false (argTrees h.params vs)))
    (hlen : (Value.encodeAll false (argTrees h.params vs)).length < 2 ^ 31)
    (hsize : (sentResponse server.host request.id h
      (received server h.params vs)).bytes.length < 2 ^ 31) :
    S.answer server fd request =
      ⟨[⟨request.method, h.params, received server h.params vs⟩],
        .ok (sentResponse server.host request.id h (received server h.params vs))⟩ := by
  obtain ⟨result, happly, hrespond⟩ := apply_eq request hsize
  have hcall : S.manager.call server request.method request.params =
      ⟨[⟨request.method, h.params, received server h.params vs⟩], .ok (result.map some)⟩ := by
    rw [HandlerManager.call, hfind, hparams, copy_streamOf]
    simp only [h.call_encoded request.method vs hlen, happly, Outcome.calls_bind,
      Outcome.pure_eq, List.append_nil]
  rw [RpcServer.answer, RpcServer.updateHeartbeat, if_pos hfd, hcall]
  simp only [Outcome.lift_eq, Outcome.calls_bind, Outcome.pure_eq, List.append_nil,
    List.nil_append, hrespond]

/-- **The handler is applied once, and its outcome is in the reply.** -/
theorem execute_eq
    {S : RpcServer}
    {fd : Int}
    {method id : List UInt8}
    {h : FunctionHandler}
    {args : Args h.params}
    (hhost : client.host = server.host)
    (hfd : fd ∈ S.users)
    (hfind : S.manager.find method = some h)
    (hrequest : (sentRequest client.host method id h.params args.vals).bytes.length < 2 ^ 31)
    (hresponse : (sentResponse server.host id h
      (received server h.params args.vals)).bytes.length < 2 ^ 31) :
    execute client server S fd method id args =
      ⟨[⟨method, h.params, received server h.params args.vals⟩],
        .ok (sentResponse server.host id h (received server h.params args.vals)).bytes⟩ := by
  have hlen : (Value.encodeAll false (argTrees h.params args.vals)).length < 2 ^ 31 :=
    lt_of_le_of_lt
      (RPCRequest.params_length_le (sentRequest client.host method id h.params args.vals)) hrequest
  have harrives : RPCRequest.deserialise server
      (sentRequest client.host method id h.params args.vals).bytes =
        .ok (sentRequest client.host method id h.params args.vals) :=
    RPCRequest.deserialise_bytes server hrequest rfl
  have hparams : (sentRequest client.host method id h.params args.vals).params =
      streamOf server.host (Value.encodeAll false (argTrees h.params args.vals)) := by
    rw [← hhost]
    rfl
  have hanswer : S.answer server fd (sentRequest client.host method id h.params args.vals) =
      ⟨[⟨method, h.params, received server h.params args.vals⟩],
        .ok (sentResponse server.host id h (received server h.params args.vals))⟩ :=
    answer_eq hfd hfind hparams hlen hresponse
  rw [execute, prepare_eq hrequest]
  simp only [Outcome.lift_eq, RpcServer.onReadMessage, harrives, hanswer, Outcome.calls_bind,
    RPCResponse.serialise_bytes server.host hresponse, List.append_nil, List.nil_append]

theorem readResult_encoded :
    ∀ {R : Option Ty} {r : Ret R},
      (Value.encodeAll false (Ret.trees R r)).length < 2 ^ 31 →
      client.host = server.host →
        readResult client R (streamOf server.host (Value.encodeAll false (Ret.trees R r))) =
          .ok (Ret.received client R r)
  | none, _, _, _ => rfl
  | some T, r, hlen, hhost => by
      have hbytes : Value.encodeAll false (Ret.trees (some T) r) = (T.tree r).encode false := by
        simp [Ret.trees, Value.encodeAll]
      rw [hbytes] at hlen ⊢
      have hread : T.read client (streamOf server.host ((T.tree r).encode false))
          (client.init T) = _ :=
        Ty.read_encoded client T (client.init T) r hlen _ (by simp [streamOf, hhost])
          (streamOf_ahead _ _)
      simp only [readResult, Ty.get, hread, ok_bind, pure_eq_ok]
      rfl

/-- **The caller gets what a read makes of the value returned.** -/
theorem finish_eq
    {id : List UInt8}
    {h : FunctionHandler}
    {args : Ty.Tuple h.params}
    {r : Ret h.ret}
    (hhost : client.host = server.host)
    (hfunc : h.func args = .ok r)
    (hresponse : (sentResponse server.host id h args).bytes.length < 2 ^ 31) :
    finish client id h.ret (sentResponse server.host id h args).bytes =
      .ok (some (.ok (Ret.received client h.ret r))) := by
  have hpos : (sentResponse server.host id h args).result.pos = 0 := by
    simp [sentResponse, hfunc, streamOf]
  have hle := RPCResponse.result_length_le (sentResponse server.host id h args)
  rw [finish, RPCResponse.deserialise_bytes client hresponse hpos, ok_bind]
  simp only [sentResponse, hfunc] at hle hresponse ⊢
  have hread := readResult_encoded (R := h.ret) (r := r)
    (lt_of_le_of_lt hle hresponse) hhost
  simp only [ne_eq, not_true_eq_false, if_false, RPCResponse.init, RPCResponse.completion,
    Completion.get, copy_streamOf, hread, ok_bind, pure_eq_ok]

/-- Without a user for the connection the callback dereferences a null pointer. -/
theorem execute_unregistered
    {S : RpcServer}
    {fd : Int}
    {method id : List UInt8}
    {Ts : List Ty}
    {args : Args Ts}
    (hfd : fd ∉ S.users)
    (hrequest : (sentRequest client.host method id Ts args.vals).bytes.length < 2 ^ 31) :
    execute client server S fd method id args = ⟨[], .error .nullPointer⟩ := by
  have harrives : RPCRequest.deserialise server
      (sentRequest client.host method id Ts args.vals).bytes =
        .ok (sentRequest client.host method id Ts args.vals) :=
    RPCRequest.deserialise_bytes server hrequest rfl
  have hanswer : S.answer server fd (sentRequest client.host method id Ts args.vals) =
      ⟨[], .error .nullPointer⟩ := by
    rw [RpcServer.answer, RpcServer.updateHeartbeat, if_neg hfd]
    rfl
  rw [execute, prepare_eq hrequest]
  simp only [Outcome.lift_eq, Outcome.ok_bind, RpcServer.onReadMessage, harrives, hanswer,
    Outcome.error_bind]

/-- The handler registered under the name runs once, on arguments equal to those
passed, and a value it returns is what the call returns. -/
def CallFaithful (client server : Program) (S : RpcServer) (fd : Int) (method id : List UInt8)
    (h : FunctionHandler) (args : Args h.params) : Prop :=
  ∃ args' reply,
    execute client server S fd method id args = ⟨[⟨method, h.params, args'⟩], .ok reply⟩ ∧
    Ty.SameAll h.params args' args.vals ∧
    ∀ r, h.func args' = .ok r →
      ∃ r', finish client id h.ret reply = .ok (some (.ok r')) ∧ Ret.Same h.ret r' r

/-- Every argument absorbs the default-constructed object it is read into. -/
def ArgsAbsorb (P : Program) (Ts : List Ty) (vs : Ty.Tuple Ts) : Prop :=
  Ty.SameAll Ts (received P Ts vs) vs

/-- So does the value returned. -/
def Ret.Absorbs (P : Program) (R : Option Ty) (r : Ret R) : Prop :=
  Ret.Same R (Ret.received P R r) r

theorem callFaithful_iff
    {S : RpcServer}
    {fd : Int}
    {method id : List UInt8}
    {h : FunctionHandler}
    {args : Args h.params}
    (hhost : client.host = server.host)
    (hfind : S.manager.find method = some h)
    (hrequest : (sentRequest client.host method id h.params args.vals).bytes.length < 2 ^ 31)
    (hresponse : (sentResponse server.host id h
      (received server h.params args.vals)).bytes.length < 2 ^ 31) :
    CallFaithful client server S fd method id h args ↔
      fd ∈ S.users ∧ ArgsAbsorb server h.params args.vals ∧
        ∀ r, h.func (received server h.params args.vals) = .ok r →
          Ret.Absorbs client h.ret r := by
  by_cases hfd : fd ∈ S.users
  · have hexec := execute_eq hhost hfd hfind hrequest hresponse
    constructor
    · rintro ⟨args', reply, hrun, hsame, hret⟩
      rw [hexec] at hrun
      cases hrun
      refine ⟨hfd, hsame, fun r hr => ?_⟩
      obtain ⟨r', hfinish, hr'⟩ := hret r hr
      rw [finish_eq hhost hr hresponse] at hfinish
      cases hfinish
      exact hr'
    · rintro ⟨_, hsame, hret⟩
      exact ⟨_, _, hexec, hsame, fun r hr =>
        ⟨_, finish_eq hhost hr hresponse, hret r hr⟩⟩
  · constructor
    · rintro ⟨args', reply, hrun, _⟩
      rw [execute_unregistered hfd hrequest] at hrun
      cases hrun
    · rintro ⟨hmem, _⟩
      exact absurd hmem hfd

end Exchange

/-- The types of a list have empty default objects. -/
theorem argsAbsorb_of_emptyDefaults
    {P : Program}
    (hlaw : P.KeyLaw) :
    ∀ {Ts : List Ty} {vs : Ty.Tuple Ts},
      (∀ T ∈ Ts, T.EmptyDefaults P) → Ty.WellKeyedAll P Ts vs → ArgsAbsorb P Ts vs
  | [], _, _, _ => trivial
  | T :: Ts, (v, vs), h, hkeys =>
      ⟨Ty.absorbs_of_emptyDefaults hlaw (h T (by simp)) hkeys.1,
        argsAbsorb_of_emptyDefaults hlaw (fun U hU => h U (by simp [hU])) hkeys.2⟩

/-- Every set and map in the value returned has pairwise different keys. -/
def Ret.WellKeyed (P : Program) : (R : Option Ty) → Ret R → Prop
  | none, _ => True
  | some T, r => T.WellKeyed P r

theorem Ret.absorbs_of_emptyDefaults
    {P : Program}
    (hlaw : P.KeyLaw) :
    ∀ {R : Option Ty} {r : Ret R},
      (∀ T ∈ R, T.EmptyDefaults P) → Ret.WellKeyed P R r → Ret.Absorbs P R r
  | none, _, _, _ => trivial
  | some T, _, h, hkeys => Ty.absorbs_of_emptyDefaults hlaw (h T rfl) hkeys

/-- **When a call is faithful.**  Exactly when the connection has a user and the
arguments and the result absorb the objects they are read into; so always when
the default objects of their types hold no elements. -/
theorem call_faithful_iff
    (client server : Program)
    (S : RpcServer)
    (fd : Int)
    (method id : List UInt8)
    (h : FunctionHandler)
    (args : Args h.params)
    (hhost : client.host = server.host)
    (hfind : S.manager.find method = some h)
    (hrequest : (sentRequest client.host method id h.params args.vals).bytes.length < 2 ^ 31)
    (hresponse : (sentResponse server.host id h
      (received server h.params args.vals)).bytes.length < 2 ^ 31) :
    (CallFaithful client server S fd method id h args ↔
      fd ∈ S.users ∧ ArgsAbsorb server h.params args.vals ∧
        ∀ r, h.func (received server h.params args.vals) = .ok r →
          Ret.Absorbs client h.ret r) ∧
    (client.KeyLaw → server.KeyLaw → fd ∈ S.users →
      (∀ T ∈ h.params, T.EmptyDefaults server) → (∀ T ∈ h.ret, T.EmptyDefaults client) →
      Ty.WellKeyedAll server h.params args.vals →
      (∀ r, h.func (received server h.params args.vals) = .ok r → Ret.WellKeyed client h.ret r) →
        CallFaithful client server S fd method id h args) := by
  have hiff : CallFaithful client server S fd method id h args ↔ _ :=
    callFaithful_iff hhost hfind hrequest hresponse
  refine ⟨hiff, fun hclient hserver hfd hparams hret hkeys hretKeys => hiff.mpr ⟨hfd, ?_, ?_⟩⟩
  · exact argsAbsorb_of_emptyDefaults hserver hparams hkeys
  · exact fun r hr => Ret.absorbs_of_emptyDefaults hclient hret (hretKeys r hr)

/-- `int32_t count(const std::string&, std::vector<int32_t>)`. -/
def countHandler : FunctionHandler where
  params := [.string, .vector .int32]
  ret := some .int32
  func := fun args => .ok (BitVec.ofNat 32 (List.length args.2.1))

/-- `call<int32_t>("count", "hi", std::vector<int32_t>{7, 8})` on two little-endian hosts. -/
theorem count_call_faithful :
    CallFaithful (Program.plain .little) (Program.plain .little)
      { manager := { handlers := [(HandlerManager.text "count", countHandler)] }, users := [5] }
      5 (HandlerManager.text "count") (HandlerManager.text "1") countHandler
      (.literal [104, 105, 0], .value ([7, 8] : List (BitVec 32)), ()) := by
  refine (call_faithful_iff _ _ _ _ _ _ _ _ rfl rfl (by decide) (by decide)).2
    (Program.plain_keyLaw .little) (Program.plain_keyLaw .little) (by decide) ?_ ?_ ?_ ?_
  · intro T hT
    simp only [countHandler, List.mem_cons, List.not_mem_nil, or_false] at hT
    rcases hT with rfl | rfl
    · exact ⟨trivial, trivial⟩
    · exact ⟨trivial, trivial, trivial⟩
  · intro T hT
    obtain rfl : T = .int32 := (Option.mem_some_iff.mp hT).symm
    exact ⟨trivial, trivial⟩
  · exact ⟨trivial, fun _ _ => trivial, trivial⟩
  · exact fun _ _ => trivial

/-- `void put(Seeded)`. -/
def putHandler : FunctionHandler where
  params := [.seeded]
  ret := none
  func := fun _ => .ok ()

/-- A `Seeded` that holds 2. -/
def putArgs : Args putHandler.params := (.value (([2] : List (BitVec 32)), ()), ())

/-- The handler sees the 1 that a default-constructed `Seeded` holds. -/
theorem put_call_not_faithful :
    Program.seeded.KeyLaw ∧ Ty.WellKeyedAll Program.seeded putHandler.params putArgs.vals ∧
      ¬ CallFaithful Program.seeded Program.seeded
        { manager := { handlers := [(HandlerManager.text "put", putHandler)] }, users := [5] }
        5 (HandlerManager.text "put") (HandlerManager.text "1") putHandler putArgs := by
  refine ⟨Program.seeded_keyLaw, ?_, fun h => ?_⟩
  · exact ⟨⟨⟨List.pairwise_singleton _ _, fun _ _ => trivial⟩, trivial⟩, trivial⟩
  · have hiff := (callFaithful_iff rfl rfl (by decide) (by decide)).mp h
    exact Ty.seeded_not_absorbs hiff.2.1.1

end Rpc
end ZeroRPC
