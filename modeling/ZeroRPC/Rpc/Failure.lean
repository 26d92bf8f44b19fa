import ZeroRPC.Rpc.Call

/-!
# Failures of a call

The server callback answers a request whose method is not registered, or whose handler
throws, with the text of the exception as the `error` of the response; the client callback
takes a response for a failure when its `error` is not empty.

Main facts:
* `execute_respond`: the reply says what processing the request came to;
* `finish_error`, `finish_value`: what the caller sees of either kind of response;
* `failures_reported_iff`: failures reach the caller exactly when the connection has a
  user and no handler throws an exception with an empty text.
-/

namespace ZeroRPC
namespace Rpc

open Library Serial

/-- What the caller sees of the reply to its request. -/
def seen (client server : Program) (S : RpcServer) (fd : Int) (method id : List UInt8)
    {Ts : List Ty} (args : Args Ts) (R : Option Ty) :
    Except Fault (Option (Except (List UInt8) (Ret R))) := do
  let reply ← (execute client server S fd method id args).result
  finish client id R reply

/-- Processing the request failed: no handler under the name, or the handler threw. -/
def Failed (S : RpcServer) (method : List UInt8)
    (outcome : Except (List UInt8) (Option DataStream)) : Prop :=
  S.manager.find method = none ∨ ∃ what, outcome = .error what

/-- `call` throws exactly when the method was not registered or the handler threw, with the
text of the handler's exception, and returns nothing then. -/
structure FailuresReported (client server : Program) (S : RpcServer) (fd : Int)
    (method id : List UInt8) {Ts : List Ty} (args : Args Ts) (R : Option Ty)
    (outcome : Except (List UInt8) (Option DataStream)) : Prop where
  throws_iff :
    (∃ e, seen client server S fd method id args R = .ok (some (.error e))) ↔
      Failed S method outcome
  carries : ∀ what, S.manager.find method ≠ none → outcome = .error what →
    seen client server S fd method id args R = .ok (some (.error what))
  no_value : Failed S method outcome → ∀ r, seen client server S fd method id args R ≠ .ok (some (.ok r))

/-! ### The server's side -/

/-- The manager throws or gives a result. -/
theorem HandlerManager.call_ne_none
    {P : Program}
    {m : HandlerManager}
    {name : List UInt8}
    {params : DataStream}
    {calls : List Invocation} :
    m.call P name params ≠ ⟨calls, .ok (.ok none)⟩ := by
  intro h
  rw [HandlerManager.call] at h
  cases hfind : m.find name with
  | none =>
      rw [hfind] at h
      cases h
  | some handler =>
      rw [hfind] at h
      simp only at h
      generalize handler.call P name (copy params) = run at h
      obtain ⟨made, result⟩ := run
      cases result with
      | error e => cases h
      | ok outcome =>
          cases outcome with
          | error what => cases h
          | ok result => cases h

/-- Without a handler the manager throws. -/
theorem HandlerManager.call_unregistered
    {P : Program}
    {m : HandlerManager}
    {name : List UInt8}
    (params : DataStream)
    (hfind : m.find name = none) :
    m.call P name params = ⟨[], .ok (.error (text "Handler not found"))⟩ := by
  rw [HandlerManager.call, hfind]
  rfl

section Exchange

variable {client server : Program} {S : RpcServer} {fd : Int} {method id : List UInt8}
  {Ts : List Ty} {args : Args Ts} {R : Option Ty} {calls : List Invocation}
  {outcome : Except (List UInt8) (Option DataStream)}

/-- **The reply says what processing came to.** -/
theorem execute_respond
    (hfd : fd ∈ S.users)
    (hcall : S.manager.call server method (sentRequest client.host method id Ts args.vals).params =
      ⟨calls, .ok outcome⟩)
    (hrequest : (sentRequest client.host method id Ts args.vals).bytes.length < 2 ^ 31)
    (hresponse : (respond server.host (sentRequest client.host method id Ts args.vals)
      outcome).bytes.length < 2 ^ 31) :
    execute client server S fd method id args =
      ⟨calls, .ok (respond server.host (sentRequest client.host method id Ts args.vals)
        outcome).bytes⟩ := by
  have harrives : RPCRequest.deserialise server
      (sentRequest client.host method id Ts args.vals).bytes =
        .ok (sentRequest client.host method id Ts args.vals) :=
    RPCRequest.deserialise_bytes server hrequest rfl
  have hanswer : S.answer server fd (sentRequest client.host method id Ts args.vals) =
      ⟨calls, .ok (respond server.host (sentRequest client.host method id Ts args.vals)
        outcome)⟩ := by
    have hmanager : S.manager.call server (sentRequest client.host method id Ts args.vals).method
        (sentRequest client.host method id Ts args.vals).params = ⟨calls, .ok outcome⟩ := hcall
    rw [RpcServer.answer, RpcServer.updateHeartbeat, if_pos hfd, hmanager]
    simp only [Outcome.lift_eq, Outcome.calls_bind, Outcome.pure_eq, List.append_nil,
      List.nil_append]
  rw [execute, prepare_eq hrequest]
  simp only [Outcome.lift_eq, RpcServer.onReadMessage, harrives, hanswer, Outcome.calls_bind,
    RPCResponse.serialise_bytes server.host hresponse, List.append_nil, List.nil_append]

/-! ### The client's side -/

/-- A response with an error is an exception for the caller. -/
theorem finish_error
    {response : RPCResponse}
    (hsize : response.bytes.length < 2 ^ 31)
    (hid : response.id = id)
    (herror : response.error ≠ []) :
    finish client id R response.bytes = .ok (some (.error response.error)) := by
  have harrives := RPCResponse.deserialise_members client hsize
  have hid' : (RPCResponse.ofMembers response.members).id = id := hid
  have hcompletion : (RPCResponse.ofMembers response.members).completion =
      .exception response.error := if_pos herror
  rw [finish, harrives, ok_bind, if_neg (not_not_intro hid'), hcompletion]
  rfl

/-- Any other is a value, whatever comes of reading it. -/
theorem finish_value
    {response : RPCResponse}
    (hsize : response.bytes.length < 2 ^ 31)
    (herror : response.error = [])
    (e : List UInt8) :
    finish client id R response.bytes ≠ .ok (some (.error e)) := by
  intro h
  have harrives := RPCResponse.deserialise_members client hsize
  have hcompletion : (RPCResponse.ofMembers response.members).completion =
      .value (copy (RPCResponse.ofMembers response.members).result) :=
    if_neg (not_not_intro herror)
  rw [finish, harrives, ok_bind] at h
  split at h
  · cases h
  · rw [hcompletion, Completion.get] at h
    cases hread : readResult client R (copy (RPCResponse.ofMembers response.members).result) with
    | error f =>
        rw [hread] at h
        cases h
    | ok r =>
        rw [hread] at h
        cases h

theorem seen_of_execute
    {reply : List UInt8}
    (h : execute client server S fd method id args = ⟨calls, .ok reply⟩) :
    seen client server S fd method id args R = finish client id R reply := by
  rw [seen, h, ok_bind]

/-- Without a user for the connection the caller sees nothing. -/
theorem seen_unregistered
    (hfd : fd ∉ S.users)
    (hrequest : (sentRequest client.host method id Ts args.vals).bytes.length < 2 ^ 31) :
    seen client server S fd method id args R = .error .nullPointer := by
  rw [seen, execute_unregistered hfd hrequest]
  rfl

/-- What is not the manager's own exception comes from a handler. -/
theorem registered_of_call
    {params : DataStream}
    (hcall : S.manager.call server method params = ⟨calls, .ok outcome⟩)
    (hother : outcome ≠ .error (HandlerManager.text "Handler not found")) :
    S.manager.find method ≠ none := by
  intro hfind
  rw [HandlerManager.call_unregistered _ hfind] at hcall
  cases hcall
  exact hother rfl

/-- Processing threw: the response has an error, unless the text is empty. -/
theorem failuresReported_of_thrown
    {what : List UInt8}
    {response : RPCResponse}
    (hseen : seen client server S fd method id args R = finish client id R response.bytes)
    (hsize : response.bytes.length < 2 ^ 31)
    (hid : response.id = id)
    (herror : response.error = what) :
    FailuresReported client server S fd method id args R (.error what) ↔ what ≠ [] := by
  have hfailed : Failed S method (.error what) := .inr ⟨what, rfl⟩
  constructor
  · -- a response without an error is taken for a value
    rintro h rfl
    obtain ⟨e, he⟩ := h.throws_iff.mpr hfailed
    rw [hseen] at he
    exact finish_value hsize herror e he
  · intro hne
    have hthrows : seen client server S fd method id args R = .ok (some (.error what)) := by
      rw [hseen, finish_error hsize hid (herror ▸ hne), herror]
    refine ⟨iff_of_true ⟨what, hthrows⟩ hfailed, ?_, ?_⟩
    · rintro _ - ⟨⟩
      exact hthrows
    · intro _ r hvalue
      rw [hthrows] at hvalue
      cases hvalue

/-- Processing returned: the response has no error. -/
theorem failuresReported_of_returned
    {result : DataStream}
    {response : RPCResponse}
    (hseen : seen client server S fd method id args R = finish client id R response.bytes)
    (hsize : response.bytes.length < 2 ^ 31)
    (herror : response.error = [])
    (hregistered : S.manager.find method ≠ none) :
    FailuresReported client server S fd method id args R (.ok (some result)) := by
  have hreturned : ¬ Failed S method (.ok (some result)) := by
    rintro (hfind | ⟨what, hwhat⟩)
    · exact hregistered hfind
    · cases hwhat
  refine ⟨iff_of_false ?_ hreturned, ?_, fun hfailed => absurd hfailed hreturned⟩
  · rintro ⟨e, he⟩
    rw [hseen] at he
    exact finish_value hsize herror e he
  · rintro what - ⟨⟩

/-- The callback dies before it processes the request. -/
theorem failuresReported_of_dead
    (hseen : seen client server S fd method id args R = .error .nullPointer) :
    FailuresReported client server S fd method id args R outcome ↔ ¬ Failed S method outcome := by
  constructor
  · intro h hfailed
    obtain ⟨e, he⟩ := h.throws_iff.mpr hfailed
    rw [hseen] at he
    cases he
  · intro hreturned
    refine ⟨iff_of_false ?_ hreturned, ?_, fun hfailed => absurd hfailed hreturned⟩
    · rintro ⟨e, he⟩
      rw [hseen] at he
      cases he
    · intro what _ hwhat
      exact absurd (.inr ⟨what, hwhat⟩) hreturned

/-- The exact condition, for processing that came to an outcome. -/
theorem failuresReported_iff
    (hcall : S.manager.call server method (sentRequest client.host method id Ts args.vals).params =
      ⟨calls, .ok outcome⟩)
    (hrequest : (sentRequest client.host method id Ts args.vals).bytes.length < 2 ^ 31)
    (hresponse : (respond server.host (sentRequest client.host method id Ts args.vals)
      outcome).bytes.length < 2 ^ 31) :
    FailuresReported client server S fd method id args R outcome ↔
      (Failed S method outcome → fd ∈ S.users) ∧
        (S.manager.find method ≠ none → outcome ≠ .error []) := by
  by_cases hfd : fd ∈ S.users
  · have hseen : seen client server S fd method id args R = finish client id R _ :=
      seen_of_execute (execute_respond hfd hcall hrequest hresponse)
    cases outcome with
    | error what =>
        have hiff : FailuresReported client server S fd method id args R (.error what) ↔
            what ≠ [] := failuresReported_of_thrown hseen hresponse rfl rfl
        rw [hiff]
        constructor
        · intro hne
          refine ⟨fun _ => hfd, ?_⟩
          rintro - ⟨⟩
          exact hne rfl
        · rintro ⟨-, hother⟩ rfl
          exact hother (registered_of_call hcall nofun) rfl
    | ok result =>
        cases result with
        | none => exact absurd hcall HandlerManager.call_ne_none
        | some result =>
            have hregistered := registered_of_call hcall nofun
            exact iff_of_true (failuresReported_of_returned hseen hresponse rfl hregistered)
              ⟨fun _ => hfd, fun _ => nofun⟩
  · rw [failuresReported_of_dead (seen_unregistered hfd hrequest)]
    constructor
    · intro hreturned
      refine ⟨fun hfailed => absurd hfailed hreturned, ?_⟩
      rintro - rfl
      exact hreturned (.inr ⟨[], rfl⟩)
    · rintro ⟨husers, -⟩ hfailed
      exact hfd (husers hfailed)

end Exchange

/-- **When failures are reported.**  For every request and every outcome of processing it:
exactly when, if it failed, the connection has a user, and no registered handler throws an
exception with an empty text. -/
theorem failures_reported_iff
    (client server : Program)
    (S : RpcServer)
    (fd : Int)
    (method id : List UInt8)
    {Ts : List Ty}
    (args : Args Ts)
    (R : Option Ty)
    (calls : List Invocation)
    (outcome : Except (List UInt8) (Option DataStream))
    (hcall : S.manager.call server method (sentRequest client.host method id Ts args.vals).params =
      ⟨calls, .ok outcome⟩)
    (hrequest : (sentRequest client.host method id Ts args.vals).bytes.length < 2 ^ 31)
    (hresponse : (respond server.host (sentRequest client.host method id Ts args.vals)
      outcome).bytes.length < 2 ^ 31) :
    FailuresReported client server S fd method id args R outcome ↔
      (Failed S method outcome → fd ∈ S.users) ∧
        (S.manager.find method ≠ none → outcome ≠ .error []) :=
  failuresReported_iff hcall hrequest hresponse

/-- `void fail()`, which throws an exception with the given text. -/
def failHandler (what : List UInt8) : FunctionHandler where
  params := []
  ret := none
  func := fun _ => .error what

/-- A server with this handler and one connected client. -/
def failServer (what : List UInt8) : RpcServer where
  manager := { handlers := [(HandlerManager.text "fail", failHandler what)] }
  users := [5]

/-- A call without arguments. -/
def noArgs : Args [] :=
  ()

/-- `call<void>("fail")` when the exception says "no". -/
theorem fail_reported :
    seen (Program.plain .little) (Program.plain .little) (failServer (HandlerManager.text "no")) 5
        (HandlerManager.text "fail") (HandlerManager.text "1") noArgs none =
      .ok (some (.error (HandlerManager.text "no"))) :=
  ((failures_reported_iff (Program.plain .little) (Program.plain .little)
    (failServer (HandlerManager.text "no")) 5 (HandlerManager.text "fail")
    (HandlerManager.text "1") noArgs none
    [⟨HandlerManager.text "fail", [], ()⟩] (.error (HandlerManager.text "no")) rfl
    (by decide) (by decide)).mpr ⟨fun _ => by decide, fun _ => by decide⟩).carries _
      (by decide) rfl

/-- When its text is empty the call returns. -/
theorem silent_failure_not_reported :
    (failServer []).manager.call (Program.plain .little) (HandlerManager.text "fail")
        (sentRequest .little (HandlerManager.text "fail") (HandlerManager.text "1") [] ()).params =
      ⟨[⟨HandlerManager.text "fail", [], ()⟩], .ok (.error [])⟩ ∧
    seen (Program.plain .little) (Program.plain .little) (failServer []) 5
        (HandlerManager.text "fail") (HandlerManager.text "1") noArgs none =
      .ok (some (.ok ())) ∧
    ¬ FailuresReported (Program.plain .little) (Program.plain .little) (failServer []) 5
        (HandlerManager.text "fail") (HandlerManager.text "1") noArgs none (.error []) := by
  refine ⟨rfl, rfl, fun h => ?_⟩
  have hcall : (failServer []).manager.call (Program.plain .little) (HandlerManager.text "fail")
      (sentRequest .little (HandlerManager.text "fail") (HandlerManager.text "1") [] ()).params =
        ⟨[⟨HandlerManager.text "fail", [], ()⟩], .ok (.error [])⟩ := rfl
  obtain ⟨-, htext⟩ :=
    (failuresReported_iff hcall (by decide) (by decide)).mp h
  exact htext (by decide) rfl

end Rpc
end ZeroRPC
