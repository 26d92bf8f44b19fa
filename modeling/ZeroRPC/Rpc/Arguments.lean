import ZeroRPC.Rpc.Call

/-!
# What a handler runs on

`get_args` ignores the results of its reads, so that `Function_Handler::call` has
no branch in which the user function is not applied: parameters that are not read
are the default-constructed ones, and bytes left over are not looked at.

Main facts:
* `HandlerManager.call_calls`: the function of a registered method is applied exactly
  once, unless reading the parameters ends in a fault;
* `handler_runs_only_on_sent_iff`: a request is treated as it should be exactly when
  its parameters are the encoding of one value for each parameter type.
-/

namespace ZeroRPC
namespace Rpc

open Library Serial

/-- The unread bytes of the parameters are an encoding of one value for each type,
last type first, and nothing else.  No container holds the same key twice. -/
def ExactArgs (P : Program) (Ts : List Ty) (params : DataStream) : Prop :=
  0 ≤ params.pos ∧ ∃ vs : Ty.Tuple Ts, Ty.WellKeyedAll P Ts vs ∧
    params.buf.elems.drop params.pos.toNat =
      Value.encodeAll (params.isBigEndian != P.host.isBig) (argTrees Ts vs)

/-- The function of the handler is applied, once. -/
def Invoked (P : Program) (S : RpcServer) (fd : Int) (request : RPCRequest)
    (h : FunctionHandler) : Prop :=
  ∃ args, (S.answer P fd request).calls = [⟨request.method, h.params, args⟩]

/-- No function is applied and the response carries an error. -/
def Rejected (P : Program) (S : RpcServer) (fd : Int) (request : RPCRequest) : Prop :=
  ∃ response, S.answer P fd request = ⟨[], .ok response⟩ ∧ response.error ≠ []

/-- The function is applied if and only if the parameters are exact, and every other
request is rejected. -/
def RunsOnlyOnSent (P : Program) (S : RpcServer) (fd : Int) (request : RPCRequest)
    (h : FunctionHandler) : Prop :=
  (Invoked P S fd request h ↔ ExactArgs P h.params request.params) ∧
    (¬ ExactArgs P h.params request.params → Rejected P S fd request)

section Invocation

variable {P : Program} {S : RpcServer} {fd : Int} {request : RPCRequest} {h : FunctionHandler}

/-- The manager applies the function once, unless `get_args` ends in a fault. -/
theorem HandlerManager.call_calls
    {m : HandlerManager}
    {name : List UInt8}
    (params : DataStream)
    (hfind : m.find name = some h) :
    (m.call P name params).calls =
      match getArgs P h.params (copy params) with
      | .error _ => []
      | .ok (args, _) => [⟨name, h.params, args⟩] := by
  have hcalls : (m.call P name params).calls = (h.call P name (copy params)).calls := by
    rw [HandlerManager.call, hfind]
    exact Outcome.calls_bind_of_nil _ (f := fun r => pure (Except.map some r)) fun _ => rfl
  rw [hcalls, FunctionHandler.call]
  cases getArgs P h.params (copy params) with
  | error e => rfl
  | ok r => rfl

/-- The functions applied for a request on a registered connection. -/
theorem RpcServer.answer_calls
    (hfd : fd ∈ S.users)
    (hfind : S.manager.find request.method = some h) :
    (S.answer P fd request).calls =
      match getArgs P h.params (copy request.params) with
      | .error _ => []
      | .ok (args, _) => [⟨request.method, h.params, args⟩] := by
  rw [← HandlerManager.call_calls request.params hfind, RpcServer.answer,
    RpcServer.updateHeartbeat, if_pos hfd]
  exact Outcome.calls_bind_of_nil _ (f := fun result => pure (respond P.host request result))
    fun _ => rfl

theorem RpcServer.answer_unregistered (hfd : fd ∉ S.users) :
    S.answer P fd request = ⟨[], .error .nullPointer⟩ := by
  rw [RpcServer.answer, RpcServer.updateHeartbeat, if_neg hfd]
  rfl

/-- `get_args` reads exact parameters. -/
theorem getArgs_exact
    {Ts : List Ty}
    {params : DataStream}
    (hexact : ExactArgs P Ts params)
    (hsize : params.buf.elems.length < 2 ^ 31) :
    ∃ args s, getArgs P Ts (copy params) = .ok (args, s) := by
  obtain ⟨hpos, vs, _, hbytes⟩ := hexact
  have hlen : (Value.encodeAll (params.isBigEndian != P.host.isBig)
      (argTrees Ts vs)).length < 2 ^ 31 := by
    rw [← hbytes, List.length_drop]
    omega
  have hahead : Ahead (copy params)
      (Value.encodeAll (params.isBigEndian != P.host.isBig) (argTrees Ts vs)) := by
    refine ⟨hpos, [], ?_⟩
    rw [← hbytes]
    simp [copy, DataStream.trimmed, CharVector.storage, List.map_drop]
  exact ⟨_, _, getArgs_encoded hlen rfl hahead⟩

/-- Exact parameters on a registered connection reach the function. -/
theorem invoked_of_exact
    (hfd : fd ∈ S.users)
    (hfind : S.manager.find request.method = some h)
    (hsize : request.params.buf.elems.length < 2 ^ 31)
    (hexact : ExactArgs P h.params request.params) :
    Invoked P S fd request h := by
  obtain ⟨args, s, hargs⟩ := getArgs_exact hexact hsize
  refine ⟨args, ?_⟩
  rw [RpcServer.answer_calls hfd hfind, hargs]

/-- A request for a registered method is never rejected: `get_args` gives up
nowhere. -/
theorem not_rejected (hfind : S.manager.find request.method = some h) :
    ¬ Rejected P S fd request := by
  rintro ⟨response, hanswer, _⟩
  by_cases hfd : fd ∈ S.users
  · have hcalls := RpcServer.answer_calls (P := P) hfd hfind
    rw [hanswer] at hcalls
    cases hargs : getArgs P h.params (copy request.params) with
    | error e =>
        -- without arguments there is no response
        rw [RpcServer.answer, RpcServer.updateHeartbeat, if_pos hfd, HandlerManager.call,
          hfind] at hanswer
        simp only [FunctionHandler.call, hargs, Outcome.lift_eq, Outcome.ok_bind,
          Outcome.error_bind] at hanswer
        cases hanswer
    | ok r =>
        rw [hargs] at hcalls
        cases hcalls
  · rw [RpcServer.answer_unregistered hfd] at hanswer
    cases hanswer

theorem exact_of_runsOnlyOnSent
    (hfind : S.manager.find request.method = some h)
    (hruns : RunsOnlyOnSent P S fd request h) :
    ExactArgs P h.params request.params := by
  by_contra hnot
  exact not_rejected hfind (hruns.2 hnot)

theorem registered_of_invoked
    (hinvoked : Invoked P S fd request h) :
    fd ∈ S.users := by
  by_contra hfd
  obtain ⟨args, hcalls⟩ := hinvoked
  rw [RpcServer.answer_unregistered hfd] at hcalls
  cases hcalls

end Invocation

/-- **When a handler runs only on what was sent.**  Exactly for the requests whose
parameters are an encoding of the parameter types on a connection with a user. -/
theorem handler_runs_only_on_sent_iff
    (P : Program)
    (S : RpcServer)
    (fd : Int)
    (request : RPCRequest)
    (h : FunctionHandler)
    (hfind : S.manager.find request.method = some h)
    (hsize : request.params.buf.elems.length < 2 ^ 31) :
    RunsOnlyOnSent P S fd request h ↔
      fd ∈ S.users ∧ ExactArgs P h.params request.params := by
  constructor
  · intro hruns
    have hexact := exact_of_runsOnlyOnSent hfind hruns
    exact ⟨registered_of_invoked (hruns.1.mpr hexact), hexact⟩
  · rintro ⟨hfd, hexact⟩
    have hinvoked := invoked_of_exact hfd hfind hsize hexact
    exact ⟨⟨fun _ => hexact, fun _ => hinvoked⟩, fun hnot => absurd hexact hnot⟩

/-- `void say(const std::string&)`. -/
def sayHandler : FunctionHandler where
  params := [.string]
  ret := none
  func := fun _ => .ok ()

/-- A server with `say` and one user. -/
def sayServer : RpcServer :=
  { manager := { handlers := [(HandlerManager.text "say", sayHandler)] }, users := [5] }

/-- A request for `say` whose parameters are the given bytes. -/
def sayRequest (bytes : List UInt8) : RPCRequest :=
  { id := HandlerManager.text "1"
    method := HandlerManager.text "say"
    params := streamOf .little bytes }

/-- The string "hi" is an exact parameter. -/
theorem say_hi_runs_only_on_sent :
    RunsOnlyOnSent (Program.plain .little) sayServer 5
      (sayRequest [6, 2, 2, 0, 0, 0, 104, 105]) sayHandler := by
  refine (handler_runs_only_on_sent_iff _ _ _ _ _ rfl (by decide)).mpr ⟨by decide, ?_⟩
  exact ⟨le_refl _, (([104, 105] : List UInt8), ()), ⟨trivial, trivial⟩, rfl⟩

/-- The integer 7 is not, and `say` is applied to an empty string all the same. -/
theorem say_seven_not_runs_only_on_sent :
    ¬ RunsOnlyOnSent (Program.plain .little) sayServer 5
      (sayRequest [2, 7, 0, 0, 0]) sayHandler := by
  intro h
  obtain ⟨_, ⟨s, _⟩, _, hbytes⟩ := exact_of_runsOnlyOnSent rfl h
  -- the tag of an integer stands where that of a string would
  have htag : (2 : UInt8) = 6 := congrArg (fun bs => bs.headD 0) hbytes
  exact absurd htag (by decide)

end Rpc
end ZeroRPC
