import ZeroRPC.Rpc.Package

/-!
# Arguments, handlers and the server callback

`Rpc_Client::call` writes its arguments last to first, and `get_args` evaluates
its pack expansion right to left (GCC), so that the last argument is also the
first to be read.  A `FunctionHandler` is the wrapper around one user function,
the `HandlerManager` the table of wrappers, and `RpcServer.onReadMessage` the
callback that answers one request.  An `Outcome` keeps what the user functions were
applied to next to how the run ended, also when it ended in a fault.

Main facts:
* `writeArgsReversed_encodes`, `getArgs_encoded`: what is written for a tuple of
  arguments, and that `get_args` reads it back position by position;
* `FunctionHandler.call_encoded`: the function is applied to these arguments.
-/

namespace ZeroRPC
namespace Rpc

open Library Serial

/-! ### Arguments -/

/-- An argument for a parameter of the given type.  A string literal is written
through `write(const char*)`. -/
inductive Arg : Ty → Type
  | value {T : Ty} (v : T.Val) : Arg T
  | literal (chars : List UInt8) : Arg .string

/-- The value an argument stands for. -/
def Arg.val : {T : Ty} → Arg T → T.Val
  | _, .value v => v
  | _, .literal chars => chars.takeWhile (· ≠ 0)

/-- `ds.write_args(arg)`. -/
def Arg.write (host : Endian) : {T : Ty} → DataStream → Arg T → Except Fault DataStream
  | T, s, .value v => T.write host s v
  | _, s, .literal chars => writeCString host s chars

/-- One argument for each parameter. -/
def Args : List Ty → Type
  | [] => Unit
  | T :: Ts => Arg T × Args Ts

def Args.vals : {Ts : List Ty} → Args Ts → Ty.Tuple Ts
  | [], _ => ()
  | _ :: _, (a, as) => (a.val, Args.vals as)

/-- `(ds.write_args(std::get<size - 1 - Is>(tuple)), ...)`. -/
def writeArgsReversed (host : Endian) :
    {Ts : List Ty} → DataStream → Args Ts → Except Fault DataStream
  | [], s, _ => .ok s
  | _ :: _, s, (a, as) => do
      let s ← writeArgsReversed host s as
      a.write host s

/-- `std::tuple<Args...>(get<Args>()...)`, evaluated right to left. -/
def getArgs (P : Program) :
    (Ts : List Ty) → DataStream → Except Fault (Ty.Tuple Ts × DataStream)
  | [], s => .ok ((), s)
  | T :: Ts, s => do
      let (vs, s) ← getArgs P Ts s
      let (v, s) ← T.get P s
      return ((v, vs), s)

/-- Default-constructed objects of the given types. -/
def initAll (P : Program) : (Ts : List Ty) → Ty.Tuple Ts
  | [] => ()
  | T :: Ts => (P.init T, initAll P Ts)

/-- What `get_args` makes of the encoding of a tuple. -/
def received (P : Program) (Ts : List Ty) (vs : Ty.Tuple Ts) : Ty.Tuple Ts :=
  Ty.mergeAll P Ts (initAll P Ts) vs

/-- The content of the arguments in the order in which they are written. -/
def argTrees (Ts : List Ty) (vs : Ty.Tuple Ts) : List Value :=
  (Ty.trees Ts vs).reverse

theorem argTrees_cons {T : Ty} {Ts : List Ty} (v : T.Val) (vs : Ty.Tuple Ts) :
    argTrees (T :: Ts) (v, vs) = argTrees Ts vs ++ [T.tree v] :=
  List.reverse_cons

theorem encodeAll_argTrees_cons
    (swap : Bool)
    {T : Ty}
    {Ts : List Ty}
    (v : T.Val)
    (vs : Ty.Tuple Ts) :
    Value.encodeAll swap (argTrees (T :: Ts) (v, vs)) =
      Value.encodeAll swap (argTrees Ts vs) ++ (T.tree v).encode swap := by
  rw [argTrees_cons, Value.encodeAll_append]
  simp [Value.encodeAll]

section Arguments

variable {swap : Bool}

theorem Arg.write_encodes {host : Endian} :
    ∀ {T : Ty} (a : Arg T),
      WritesBytes host swap (fun s => a.write host s) ((T.tree a.val).encode swap)
  | T, .value v => Ty.write_encodes T v
  | _, .literal chars => Ty.write_encodes .string (chars.takeWhile (· ≠ 0))

theorem writeArgsReversed_encodes {host : Endian} :
    ∀ {Ts : List Ty} (as : Args Ts),
      WritesBytes host swap (fun s => writeArgsReversed host s as)
        (Value.encodeAll swap (argTrees Ts as.vals))
  | [], _ => fun s _ _ =>
      ⟨s, rfl, by simpa [argTrees, Ty.trees, Value.encodeAll] using Appends.refl s⟩
  | T :: Ts, (a, as) => by
      have hrest : WritesBytes host swap (fun s => writeArgsReversed host s as)
          (Value.encodeAll swap (argTrees Ts as.vals)) :=
        writeArgsReversed_encodes as
      have h := hrest.bind a.write_encodes
      rw [← encodeAll_argTrees_cons] at h
      exact h

/-- **The arguments are read back position by position.** -/
theorem getArgs_encoded {P : Program} :
    ∀ {Ts : List Ty} {vs : Ty.Tuple Ts} {s : DataStream},
      (Value.encodeAll swap (argTrees Ts vs)).length < 2 ^ 31 →
      (s.isBigEndian != P.host.isBig) = swap →
      Ahead s (Value.encodeAll swap (argTrees Ts vs)) →
        getArgs P Ts s = .ok (received P Ts vs,
          s.skip (Value.encodeAll swap (argTrees Ts vs)).length)
  | [], (), s, _, _, _ => by
      simp only [argTrees, Ty.trees, List.reverse_nil, Value.encodeAll, List.length_nil,
        skip_zero]
      rfl
  | T :: Ts, (v, vs), s, hlen, hflag, hahead => by
      rw [encodeAll_argTrees_cons] at hlen hahead ⊢
      rw [List.length_append] at hlen ⊢
      have hrest : getArgs P Ts s = _ :=
        getArgs_encoded (by omega) hflag hahead.left
      have hfirst : T.read P (s.skip _) (P.init T) = _ :=
        Ty.read_encoded P T (P.init T) v (by omega) _ hflag hahead.skip
      simp only [getArgs, hrest, ok_bind, Ty.get, hfirst, pure_eq_ok, skip_skip]
      rfl

end Arguments

/-! ### Runs that apply user functions -/

/-- One application of a user function. -/
structure Invocation where
  method : List UInt8
  params : List Ty
  args : Ty.Tuple params

/-- The applications of user functions, first to last, and the end of the run. -/
structure Outcome (α : Type) where
  calls : List Invocation
  result : Except Fault α

namespace Outcome

instance : Monad Outcome where
  pure a := ⟨[], .ok a⟩
  bind o f :=
    match o.result with
    | .error e => ⟨o.calls, .error e⟩
    | .ok a => ⟨o.calls ++ (f a).calls, (f a).result⟩

instance : MonadLift (Except Fault) Outcome where
  monadLift r := ⟨[], r⟩

/-- A user function is applied. -/
def invoke (i : Invocation) : Outcome Unit := ⟨[i], .ok ()⟩

variable {α β : Type}

@[simp] theorem pure_eq (a : α) : (pure a : Outcome α) = ⟨[], .ok a⟩ := rfl

@[simp] theorem lift_eq (r : Except Fault α) : (liftM r : Outcome α) = ⟨[], r⟩ := rfl

@[simp] theorem ok_bind (a : α) (f : α → Outcome β) :
    ((⟨[], .ok a⟩ : Outcome α) >>= f) = f a := rfl

@[simp] theorem error_bind (calls : List Invocation) (e : Fault) (f : α → Outcome β) :
    ((⟨calls, .error e⟩ : Outcome α) >>= f) = ⟨calls, .error e⟩ := rfl

theorem calls_bind (calls : List Invocation) (a : α) (f : α → Outcome β) :
    ((⟨calls, .ok a⟩ : Outcome α) >>= f) = ⟨calls ++ (f a).calls, (f a).result⟩ := rfl

@[simp] theorem invoke_bind (i : Invocation) (f : Unit → Outcome β) :
    (invoke i >>= f) = ⟨i :: (f ()).calls, (f ()).result⟩ := rfl

/-- What follows a run does not take its applications back. -/
theorem calls_bind_of_nil
    (o : Outcome α)
    {f : α → Outcome β}
    (hf : ∀ a, (f a).calls = []) :
    (o >>= f).calls = o.calls := by
  obtain ⟨calls, result⟩ := o
  cases result with
  | error e => rfl
  | ok a => rw [calls_bind, hf a, List.append_nil]

end Outcome

/-! ### Handlers -/

/-- What a function with the given return type, or `void`, returns. -/
def Ret : Option Ty → Type
  | none => Unit
  | some T => T.Val

/-- `Function_Handler<Ret, Args...>`.  The user function returns or throws an
exception with the given `what()`. -/
structure FunctionHandler where
  params : List Ty
  ret : Option Ty
  func : Ty.Tuple params → Except (List UInt8) (Ret ret)

/-- `Data_Stream result; result << ret;`, and `return {}` for `void`. -/
def Ret.write (host : Endian) : (R : Option Ty) → Ret R → Except Fault DataStream
  | none, _ => .ok (DataStream.empty host)
  | some T, r => T.write host (DataStream.empty host) r

/-- The content of the result stream. -/
def Ret.trees : (R : Option Ty) → Ret R → List Value
  | none, _ => []
  | some T, r => [T.tree r]

/-- What the function makes of its arguments: a result stream or an exception. -/
def FunctionHandler.apply (P : Program) (h : FunctionHandler) (args : Ty.Tuple h.params) :
    Except Fault (Except (List UInt8) DataStream) :=
  match h.func args with
  | .error what => .ok (.error what)
  | .ok ret => do
      let result ← Ret.write P.host h.ret ret
      return .ok result

/-- `call(inArgs)` of the handler registered under `name`. -/
def FunctionHandler.call (P : Program) (h : FunctionHandler) (name : List UInt8)
    (inArgs : DataStream) : Outcome (Except (List UInt8) DataStream) := do
  let (args, _) ← getArgs P h.params inArgs
  Outcome.invoke ⟨name, h.params, args⟩
  h.apply P args

/-- The table of handlers, keyed by method name. -/
structure HandlerManager where
  handlers : List (List UInt8 × FunctionHandler)

namespace HandlerManager

/-- `handlers.find(name)`. -/
def find (m : HandlerManager) (name : List UInt8) : Option FunctionHandler :=
  m.handlers.lookup name

/-- `handlers[name] = ...`. -/
def registerHandler (m : HandlerManager) (name : List UInt8) (h : FunctionHandler) :
    HandlerManager :=
  { handlers := (name, h) :: m.handlers.filter fun e => e.1 ≠ name }

theorem find_registerHandler (m : HandlerManager) (name : List UInt8) (h : FunctionHandler) :
    (m.registerHandler name h).find name = some h := by
  simp [find, registerHandler]

/-- The bytes of a string literal of the source. -/
def text (s : String) : List UInt8 := s.toList.map fun c => UInt8.ofNat c.toNat

/-- `call(name, args)`: the `std::optional` returned or the text of the exception
thrown. -/
def call (P : Program) (m : HandlerManager) (name : List UInt8) (args : DataStream) :
    Outcome (Except (List UInt8) (Option DataStream)) :=
  match m.find name with
  | none => return .error (text "Handler not found")
  | some h => do
      let result ← h.call P name (copy args)
      return result.map some

end HandlerManager

/-! ### The server callback -/

/-- What the read-message callback uses of the server: the handlers and the file
descriptors with a user in the store. -/
structure RpcServer where
  manager : HandlerManager
  users : List Int

/-- `_rpcUserManager.update_heartbeat(fd)`: `_user_store[fd]` is a null pointer when
there is no user. -/
def RpcServer.updateHeartbeat (server : RpcServer) (fd : Int) : Except Fault Unit :=
  if fd ∈ server.users then .ok () else .error .nullPointer

/-- The response to what `_manager.call` returned or threw. -/
def respond (host : Endian) (request : RPCRequest) :
    Except (List UInt8) (Option DataStream) → RPCResponse
  | .ok (some result) => { RPCResponse.init host with id := request.id, result := copy result }
  | .ok none =>
      { RPCResponse.init host with
        id := request.id
        error := request.method ++ HandlerManager.text " method not found" }
  | .error what => { RPCResponse.init host with id := request.id, error := what }

/-- The part of the callback between reading the request and writing the response. -/
def RpcServer.answer (P : Program) (server : RpcServer) (fd : Int) (request : RPCRequest) :
    Outcome RPCResponse := do
  server.updateHeartbeat fd
  let result ← server.manager.call P request.method request.params
  return respond P.host request result

/-- The read-message callback, up to the frame it writes back. -/
def RpcServer.onReadMessage (P : Program) (server : RpcServer) (fd : Int) (data : List UInt8) :
    Outcome (List UInt8) := do
  let request ← RPCRequest.deserialise P data
  let response ← server.answer P fd request
  response.serialise P.host

/-! ### What a handler makes of an encoding -/

/-- A stream with the given bytes, as the host sends it. -/
def streamOf (host : Endian) (bytes : List UInt8) : DataStream :=
  { isBigEndian := host.isBig, buf := { elems := bytes, spare := [] }, pos := 0 }

theorem copy_eq_streamOf
    {host : Endian}
    {s : DataStream}
    {bytes : List UInt8}
    (h : Appends (DataStream.empty host) s bytes) :
    copy s = streamOf host bytes := by
  have helems : s.buf.elems = bytes := by simpa [DataStream.empty] using h.elems
  have hflag : s.isBigEndian = host.isBig := h.flag
  have hpos : s.pos = 0 := h.pos
  simp [copy, DataStream.trimmed, streamOf, helems, hflag, hpos]

theorem copy_streamOf (host : Endian) (bytes : List UInt8) :
    copy (streamOf host bytes) = streamOf host bytes := rfl

theorem streamOf_ahead (host : Endian) (bytes : List UInt8) :
    Ahead (streamOf host bytes) bytes :=
  ⟨le_refl _, [], by simp [streamOf, CharVector.storage]⟩

theorem Ret.write_encodes
    (host : Endian) :
    ∀ {R : Option Ty} {r : Ret R},
      (Value.encodeAll false (Ret.trees R r)).length < 2 ^ 31 →
        ∃ s, Ret.write host R r = .ok s ∧
          copy s = streamOf host (Value.encodeAll false (Ret.trees R r))
  | none, _, _ => ⟨DataStream.empty host, rfl, rfl⟩
  | some T, r, hlen => by
      have hflag : ((DataStream.empty host).isBigEndian != host.isBig) = false := by
        simp [DataStream.empty]
      have hbytes : Value.encodeAll false (Ret.trees (some T) r) = (T.tree r).encode false := by
        simp [Ret.trees, Value.encodeAll]
      rw [hbytes] at hlen ⊢
      obtain ⟨s, hs, happ⟩ := Ty.write_encodes T r _ hflag
        (by simpa [DataStream.empty, CharVector.size] using hlen)
      exact ⟨s, hs, copy_eq_streamOf happ⟩

/-- The function is applied to what was read from an encoding of its parameters. -/
theorem FunctionHandler.call_encoded
    {P : Program}
    (h : FunctionHandler)
    (name : List UInt8)
    (vs : Ty.Tuple h.params)
    (hlen : (Value.encodeAll false (argTrees h.params vs)).length < 2 ^ 31) :
    h.call P name (streamOf P.host (Value.encodeAll false (argTrees h.params vs))) =
      ⟨[⟨name, h.params, received P h.params vs⟩], h.apply P (received P h.params vs)⟩ := by
  have hargs := getArgs_encoded (P := P) hlen (by simp [streamOf])
    (streamOf_ahead P.host (Value.encodeAll false (argTrees h.params vs)))
  simp only [FunctionHandler.call, hargs, Outcome.lift_eq, Outcome.ok_bind,
    Outcome.invoke_bind]

end Rpc
end ZeroRPC
