import ZeroRPC.Core.Downlink
import ZeroRPC.Core.OneReader
import ZeroRPC.Rpc.Correlation

/-!
# Calls over a connection

Any number of calls run on one client.  Each puts its promise in `_pending_request` and
sends its request over the connection; the tasks of the server read and parse, a task that
is handed a request runs the callback of `Rpc_Server`, which writes the response back, and
the task of the client that is handed a response looks up its promise and completes it.

Requests and responses fit the receive buffers, each `::send` of the client accepts a whole
frame, the tasks of the server do not cut into one another, and no callback throws; the
steps of all of these come in any order.

Main facts:
* `respondTo_id`: a response has the id of the request it answers;
* `Completing.callback`: a response completes the promise of the call it answers;
* `Talking.step`: what the two links, the tasks and the table have to do with each other;
* `calls_answered_once`: in every run the callback runs at most once for each call, and a
  promise is completed at most once, by what the server made of the request of its call;
* `calls_complete`: with nothing on its way and nobody at work, every call that sent its
  request has its promise completed.
-/

namespace ZeroRPC
namespace Rpc

open Library Serial
open ZeroRPC.Core

/-! ### The server callback -/

/-- The callback up to writing the response. -/
def RpcServer.respondTo (P : Program) (S : RpcServer) (fd : Int) (data : Bytes) :
    Outcome RPCResponse := do
  let request ← RPCRequest.deserialise P data
  S.answer P fd request

/-- A request the callback was done with, the handlers it ran and the response it wrote. -/
structure Served where
  data : Bytes
  calls : List Invocation
  response : RPCResponse

namespace Served

/-- The response is what the server, in some state, made of the request. -/
def Answers (server : Program) (x : Served) : Prop :=
  ∃ S fd, RpcServer.respondTo server S fd x.data = ⟨x.calls, .ok x.response⟩

/-- What the client makes of the response. -/
def Completes (client : Program) (x : Served) (completion : Completion) : Prop :=
  ∃ r, RPCResponse.deserialise client x.response.bytes = .ok r ∧ completion = r.completion

end Served

section Server

variable {client server : Program} {S : RpcServer} {fd : Int} {request : RPCRequest}
  {calls : List Invocation} {response : RPCResponse}

/-- The response has the id of the request. -/
theorem respondTo_id
    (hsize : request.bytes.length < 2 ^ 31)
    (h : RpcServer.respondTo server S fd request.bytes = ⟨calls, .ok response⟩) :
    response.id = request.id := by
  have hreceived := RPCRequest.deserialise_members server (r := request) hsize
  simp only [RpcServer.respondTo, hreceived, Outcome.lift_eq, Outcome.ok_bind] at h
  rw [← Client.ofMembers_members_id request]
  exact Client.answer_id (congrArg Outcome.result h)

/-- Requests with different ids have different encodings, as a program reads them. -/
theorem bytes_id
    (P : Program)
    {request request' : RPCRequest}
    (hsize : request.bytes.length < 2 ^ 31)
    (h : request.bytes = request'.bytes) :
    request.id = request'.id := by
  have hfirst := RPCRequest.deserialise_members P (r := request) hsize
  have hsecond := RPCRequest.deserialise_members P (r := request') (h ▸ hsize)
  rw [h, hsecond] at hfirst
  have hid := congrArg RPCRequest.id (Except.ok.inj hfirst)
  rw [Client.ofMembers_members_id, Client.ofMembers_members_id] at hid
  exact hid.symm

end Server

/-! ### The session -/

/-- The calls of a client with their promises, the connection both ways, and what each task
of the server was handed and has not answered; `fault` is set when the callback of the
client throws.  For the statements, the calls that sent their request and the requests that
were answered, in order. -/
structure Session (ι : Type) where
  phase : ι → Phase
  pending : List UInt8 → Option ι
  promises : ι → List Completion
  up : Uplink
  down : Downlink
  busy : Nat → Option Bytes
  fault : Option Serial.Fault
  requests : List ι
  served : List Served

inductive SessionEvent (ι : Type)
  | prepare (c : ι)
  | insert (c : ι)
  | send (c : ι) (t : Nat)
  | up (e : UplinkEvent)
  | respond (t : Nat) (S : RpcServer) (fd : Int)
  | down (e : DownlinkEvent)

namespace Session

variable {ι : Type} [DecidableEq ι]

def init (type : CompressionType) (data : Nat → Nat → UInt8) (errno : Int) : Session ι where
  phase := fun _ => .idle
  pending := fun _ => none
  promises := fun _ => []
  up := .init type (data 0) (data 1)
  down := .init type (data 2) (data 3) errno
  busy := fun _ => none
  fault := none
  requests := []
  served := []

/-- Requests are sent by calls only, and a task that is in the callback does not go on with
`parse_message`. -/
def mayGoUp (s : Session ι) : UplinkEvent → Bool
  | .client (.sendMessage _ _) => false
  | .server (.advance t _) => s.busy t = none ∧ s.down.server.threads t = .idle
  | _ => true

/-- Responses are written by the callback only. -/
def mayGoDown : DownlinkEvent → Bool
  | .server (.writeData _ _) => false
  | _ => true

/-- A task that is handed a request enters the callback. -/
def enter (s : Session ι) (up : Uplink) : UplinkEvent → Session ι
  | .server (.advance t _) =>
      match up.server.handed.drop s.up.server.handed.length with
      | [] => { s with up := up }
      | data :: _ => { s with up := up, busy := Function.update s.busy t (some data) }
  | _ => { s with up := up }

/-- The callback of the client: `find`, `set_value` or `set_exception`, `erase`. -/
def callback (client : Program) (s : Session ι) (data : Bytes) : Session ι :=
  match RPCResponse.deserialise client data with
  | .error e => { s with fault := some e }
  | .ok response =>
      match s.pending response.id with
      | none => s
      | some c =>
          { s with
            promises := Function.update s.promises c (s.promises c ++ [response.completion])
            pending := Function.update s.pending response.id none }

variable (client server : Program) (brotli : Brotli) (request : ι → RPCRequest)

def step (s : Session ι) (e : SessionEvent ι) : Option (Session ι) :=
  if s.fault ≠ none then
    none
  else
    match e with
    | .prepare c =>
        if s.phase c = .idle then
          some { s with phase := Function.update s.phase c .prepared }
        else
          none
    | .insert c =>
        if s.phase c = .prepared then
          some { s with
            phase := Function.update s.phase c .inserted
            pending := Function.update s.pending (request c).id (some c) }
        else
          none
    | .send c t =>
        if s.phase c = .inserted then
          match Uplink.step client.host server.host brotli s.up
              (.client (.sendMessage t (request c).bytes)) with
          | none => none
          | some up =>
              some { s with
                phase := Function.update s.phase c .sent
                up := up
                requests := s.requests ++ [c] }
        else
          none
    | .up e =>
        if s.mayGoUp e then
          match Uplink.step client.host server.host brotli s.up e with
          | none => none
          | some up => some (s.enter up e)
        else
          none
    | .respond t S fd =>
        match s.busy t with
        | none => none
        | some data =>
            match (RpcServer.respondTo server S fd data).result with
            | .error _ => none
            | .ok response =>
                match response.serialise server.host with
                | .error _ => none
                | .ok reply =>
                    match Downlink.step server.host client.host brotli s.down
                        (.server (.writeData t reply)) with
                    | none => none
                    | some down =>
                        some { s with
                          down := down
                          busy := Function.update s.busy t none
                          served := s.served ++
                            [⟨data, (RpcServer.respondTo server S fd data).calls, response⟩] }
    | .down e =>
        if mayGoDown e then
          match Downlink.step server.host client.host brotli s.down e with
          | none => none
          | some down =>
              some ((down.client.handed.drop s.down.client.handed.length).foldl (callback client)
                { s with down := down })
        else
          none

def system (type : CompressionType) (data : Nat → Nat → UInt8) (errno : Int) :
    System (Session ι) (SessionEvent ι) where
  init := init type data errno
  step := step client server brotli request

/-- What a step can be. -/
inductive Moves (s : Session ι) : SessionEvent ι → Session ι → Prop
  | prepare {c : ι} (hphase : s.phase c = .idle) :
      Moves s (.prepare c) { s with phase := Function.update s.phase c .prepared }
  | insert {c : ι} (hphase : s.phase c = .prepared) :
      Moves s (.insert c)
        { s with
          phase := Function.update s.phase c .inserted
          pending := Function.update s.pending (request c).id (some c) }
  | send {c : ι} {t : Nat} {up : Uplink} (hphase : s.phase c = .inserted)
      (hup : Uplink.step client.host server.host brotli s.up
        (.client (.sendMessage t (request c).bytes)) = some up) :
      Moves s (.send c t)
        { s with
          phase := Function.update s.phase c .sent
          up := up
          requests := s.requests ++ [c] }
  | up {e : UplinkEvent} {up : Uplink} (hmay : s.mayGoUp e = true)
      (hup : Uplink.step client.host server.host brotli s.up e = some up) :
      Moves s (.up e) (s.enter up e)
  | respond {t : Nat} {S : RpcServer} {fd : Int} {data reply : Bytes} {response : RPCResponse}
      {down : Downlink} (hbusy : s.busy t = some data)
      (hresponse : (RpcServer.respondTo server S fd data).result = .ok response)
      (hreply : response.serialise server.host = .ok reply)
      (hdown : Downlink.step server.host client.host brotli s.down
        (.server (.writeData t reply)) = some down) :
      Moves s (.respond t S fd)
        { s with
          down := down
          busy := Function.update s.busy t none
          served := s.served ++ [⟨data, (RpcServer.respondTo server S fd data).calls, response⟩] }
  | down {e : DownlinkEvent} {down : Downlink} (hmay : mayGoDown e = true)
      (hdown : Downlink.step server.host client.host brotli s.down e = some down) :
      Moves s (.down e)
        ((down.client.handed.drop s.down.client.handed.length).foldl (callback client)
          { s with down := down })

variable {client server brotli request} in
theorem step_moves
    {s s' : Session ι}
    {e : SessionEvent ι}
    (h : step client server brotli request s e = some s') :
    s.fault = none ∧ Moves client server brotli request s e s' := by
  simp only [step, Option.ite_none_left_eq_some] at h
  obtain ⟨hfault, h⟩ := h
  refine ⟨not_not.mp hfault, ?_⟩
  cases e with
  | prepare c =>
      simp only [Option.ite_none_right_eq_some, Option.some.injEq] at h
      obtain ⟨hphase, rfl⟩ := h
      exact .prepare hphase
  | insert c =>
      simp only [Option.ite_none_right_eq_some, Option.some.injEq] at h
      obtain ⟨hphase, rfl⟩ := h
      exact .insert hphase
  | send c t =>
      simp only [Option.ite_none_right_eq_some] at h
      obtain ⟨hphase, h⟩ := h
      cases hup : Uplink.step client.host server.host brotli s.up
          (.client (.sendMessage t (request c).bytes)) with
      | none =>
          rw [hup] at h
          cases h
      | some up =>
          rw [hup] at h
          cases h
          exact .send hphase hup
  | up e =>
      simp only [Option.ite_none_right_eq_some] at h
      obtain ⟨hmay, h⟩ := h
      cases hup : Uplink.step client.host server.host brotli s.up e with
      | none =>
          rw [hup] at h
          cases h
      | some up =>
          rw [hup] at h
          cases h
          exact .up hmay hup
  | respond t S fd =>
      cases hbusy : s.busy t with
      | none =>
          simp only [hbusy] at h
          cases h
      | some data =>
          cases hresponse : (RpcServer.respondTo server S fd data).result with
          | error e =>
              simp only [hbusy, hresponse] at h
              cases h
          | ok response =>
              cases hreply : response.serialise server.host with
              | error e =>
                  simp only [hbusy, hresponse, hreply] at h
                  cases h
              | ok reply =>
                  cases hdown : Downlink.step server.host client.host brotli s.down
                      (.server (.writeData t reply)) with
                  | none =>
                      simp only [hbusy, hresponse, hreply, hdown] at h
                      cases h
                  | some down =>
                      simp only [hbusy, hresponse, hreply, hdown, Option.some.injEq] at h
                      subst h
                      exact .respond hbusy hresponse hreply hdown
  | down e =>
      simp only [Option.ite_none_right_eq_some] at h
      obtain ⟨hmay, h⟩ := h
      cases hdown : Downlink.step server.host client.host brotli s.down e with
      | none =>
          rw [hdown] at h
          cases h
      | some down =>
          rw [hdown] at h
          cases h
          exact .down hmay hdown

/-- A request or a response that can be sent whole. -/
def Fits (type : CompressionType) (bytes : Bytes) : Prop :=
  bytes.length < 2 ^ 31 ∧ EncodedFits brotli type bytes

/-- The response, if there is one, fits. -/
def ResponseFits (s : Session ι) (t : Nat) (S : RpcServer) (fd : Int) : Prop :=
  match s.busy t with
  | none => True
  | some data =>
      match (RpcServer.respondTo server S fd data).result with
      | .error _ => True
      | .ok response => Fits brotli s.down.server.channel.compressionType response.bytes

/-- What is sent fits, each `::send` of the client accepts a whole frame, and the tasks of
the server do not cut in. -/
def Undisturbed (s : Session ι) : SessionEvent ι → Prop
  | .send c _ => Fits brotli s.up.client.channel.compressionType (request c).bytes
  | .up e => Uplink.Undisturbed brotli s.up e
  | .respond t S fd => s.ResponseFits server brotli t S fd
  | _ => True

/-- Nothing is on its way, and nobody is at work. -/
structure Quiet (s : Session ι) : Prop where
  up : s.up.Quiet
  down : s.down.Quiet
  busy : ∀ t, s.busy t = none

/-! ### The promises -/

/-- How the promises stand when these responses have been handed to the client. -/
structure Completing (phase : ι → Phase) (pending : List UInt8 → Option ι)
    (promises : ι → List Completion) (delivered : List Served) : Prop where
  /-- A promise is completed by the response to its call, or not yet. -/
  once : ∀ c,
    (∃ x ∈ delivered, x.data = (request c).bytes ∧
      ∃ completion, x.Completes client completion ∧ promises c = [completion]) ∨
    ((∀ x ∈ delivered, x.data ≠ (request c).bytes) ∧ promises c = [])
  /-- A promise in the table that is not completed stays there. -/
  waiting : ∀ c, promises c = [] → phase c = .inserted ∨ phase c = .sent →
    pending (request c).id = some c
  /-- The table has promises of such calls only. -/
  pending : ∀ {id c}, pending id = some c →
    id = (request c).id ∧ (phase c = .inserted ∨ phase c = .sent)

variable {client server brotli request}

namespace Completing

variable {phase : ι → Phase} {pending : List UInt8 → Option ι} {promises : ι → List Completion}
  {delivered : List Served}

omit [DecidableEq ι] in
theorem init :
    Completing client request (fun _ : ι => Phase.idle) (fun _ => none) (fun _ => []) [] where
  once := fun c => .inr ⟨List.forall_mem_nil _, rfl⟩
  waiting := by
    intro c _ hphase
    rcases hphase with hphase | hphase <;> cases hphase
  pending := by
    intro id c h
    cases h

theorem prepare
    {c : ι}
    (h : Completing client request phase pending promises delivered)
    (hphase : phase c = .idle) :
    Completing client request (Function.update phase c .prepared) pending promises delivered where
  once := h.once
  waiting := by
    intro d hnone hd
    have hdc : d ≠ c := by
      rintro rfl
      rw [Function.update_self] at hd
      rcases hd with hd | hd <;> cases hd
    rw [Function.update_of_ne hdc] at hd
    exact h.waiting d hnone hd
  pending := by
    intro id d hd
    obtain ⟨hid, hphases⟩ := h.pending hd
    have hdc : d ≠ c := by
      rintro rfl
      rw [hphase] at hphases
      rcases hphases with hd | hd <;> cases hd
    rw [Function.update_of_ne hdc]
    exact ⟨hid, hphases⟩

theorem insert
    (hinj : Function.Injective fun c => (request c).id)
    {c : ι}
    (h : Completing client request phase pending promises delivered) :
    Completing client request (Function.update phase c .inserted)
      (Function.update pending (request c).id (some c)) promises delivered where
  once := h.once
  waiting := by
    intro d hnone hd
    by_cases hdc : d = c
    · rw [hdc, Function.update_self]
    · rw [Function.update_of_ne hdc] at hd
      have hid : (request d).id ≠ (request c).id := fun hid => hdc (hinj hid)
      rw [Function.update_of_ne hid]
      exact h.waiting d hnone hd
  pending := by
    intro id d hd
    by_cases hid : id = (request c).id
    · subst hid
      rw [Function.update_self] at hd
      obtain rfl : c = d := Option.some.inj hd
      exact ⟨rfl, .inl (Function.update_self ..)⟩
    · rw [Function.update_of_ne hid] at hd
      obtain ⟨hid, hphases⟩ := h.pending hd
      refine ⟨hid, ?_⟩
      by_cases hdc : d = c
      · exact .inl (by rw [hdc, Function.update_self])
      · rwa [Function.update_of_ne hdc]

theorem send
    {c : ι}
    (h : Completing client request phase pending promises delivered)
    (hphase : phase c = .inserted) :
    Completing client request (Function.update phase c .sent) pending promises delivered where
  once := h.once
  waiting := by
    intro d hnone hd
    by_cases hdc : d = c
    · rw [hdc] at hnone ⊢
      exact h.waiting c hnone (.inl hphase)
    · rw [Function.update_of_ne hdc] at hd
      exact h.waiting d hnone hd
  pending := by
    intro id d hd
    obtain ⟨hid, hphases⟩ := h.pending hd
    refine ⟨hid, ?_⟩
    by_cases hdc : d = c
    · exact .inr (by rw [hdc, Function.update_self])
    · rwa [Function.update_of_ne hdc]

end Completing

/-- **The promise of the call that a response answers is completed.** -/
theorem Completing.callback
    (hinj : Function.Injective fun c => (request c).id)
    {s : Session ι}
    {delivered : List Served}
    {x : Served}
    {c : ι}
    (h : Completing client request s.phase s.pending s.promises delivered)
    (hnew : x.data ∉ delivered.map Served.data)
    (hdata : x.data = (request c).bytes)
    (hphase : s.phase c = .sent)
    (hrequest : (request c).bytes.length < 2 ^ 31)
    (hanswers : x.Answers server)
    (hresponse : x.response.bytes.length < 2 ^ 31) :
    let s' := s.callback client x.response.bytes
    Completing client request s'.phase s'.pending s'.promises (delivered ++ [x]) ∧
      s'.phase = s.phase ∧ s'.up = s.up ∧ s'.down = s.down ∧ s'.busy = s.busy ∧
      s'.fault = s.fault ∧ s'.requests = s.requests ∧ s'.served = s.served := by
  intro s'
  obtain ⟨S, fd, hrespond⟩ := hanswers
  have hread := RPCResponse.deserialise_members client (r := x.response) hresponse
  have hid : (RPCResponse.ofMembers x.response.members).id = (request c).id := by
    rw [hdata] at hrespond
    exact (respondTo_id hrequest hrespond : x.response.id = _)
  have hopen : s.promises c = [] := by
    rcases h.once c with ⟨y, hy, hsame, -⟩ | ⟨-, hnone⟩
    · exact absurd (List.mem_map.mpr ⟨y, hy, hsame.trans hdata.symm⟩) hnew
    · exact hnone
  have hpending := h.waiting c hopen (.inr hphase)
  have hs' : s' = { s with
      promises := Function.update s.promises c
        (s.promises c ++ [(RPCResponse.ofMembers x.response.members).completion])
      pending := Function.update s.pending (request c).id none } := by
    simp only [s', Session.callback, hread, hid, hpending]
  rw [hs']
  refine ⟨⟨?_, ?_, ?_⟩, rfl, rfl, rfl, rfl, rfl, rfl, rfl⟩
  · intro d
    by_cases hdc : d = c
    · subst hdc
      refine .inl ⟨x, by simp, hdata, _, ⟨_, hread, rfl⟩, ?_⟩
      simp [hopen]
    · have hother : x.data ≠ (request d).bytes := by
        intro hsame
        exact hdc (hinj (bytes_id server hrequest (hdata.symm.trans hsame))).symm
      rcases h.once d with ⟨y, hy, hsame, hdone⟩ | ⟨hnone, hempty⟩
      · refine .inl ⟨y, List.mem_append_left _ hy, hsame, ?_⟩
        simpa only [Function.update_of_ne hdc] using hdone
      · refine .inr ⟨?_, by simpa only [Function.update_of_ne hdc] using hempty⟩
        intro y hy
        rcases List.mem_append.mp hy with hy | hy
        · exact hnone y hy
        · rw [List.mem_singleton.mp hy]
          exact hother
  · intro d hnone hd
    have hdc : d ≠ c := by
      rintro rfl
      simp at hnone
    have hid : (request d).id ≠ (request c).id := fun hid => hdc (hinj hid)
    simp only [Function.update_of_ne hdc, Function.update_of_ne hid] at hnone ⊢
    exact h.waiting d hnone hd
  · intro id d hd
    by_cases hid : id = (request c).id
    · subst hid
      simp at hd
    · simp only [Function.update_of_ne hid] at hd
      exact h.pending hd

/-! ### The invariant -/

/-- What the calls, the two links and the tasks have to do with each other. -/
structure Talking (client server : Program) (brotli : Brotli) (request : ι → RPCRequest)
    (s : Session ι) : Prop where
  up : ∃ messages : List (Sent brotli), Uplink.Connected client.host messages s.up
  down : ∃ messages : List (Sent brotli), Downlink.Flowing server.host messages s.down
  /-- The payloads on the way up are the requests of the calls that sent one. -/
  written : s.up.written = s.requests.map fun c => (request c).bytes
  requests : s.requests.Nodup
  sent : ∀ c, c ∈ s.requests ↔ s.phase c = .sent
  small : ∀ c ∈ s.requests, (request c).bytes.length < 2 ^ 31
  /-- What the tasks were handed is with one task, or was answered once. -/
  work : HandedOut s.up.server.handed s.busy (s.served.map Served.data)
  answers : ∀ x ∈ s.served, x.Answers server ∧ x.response.bytes.length < 2 ^ 31
  /-- The payloads on the way down are the responses. -/
  replies : s.down.written = s.served.map fun x => x.response.bytes
  completing : Completing client request s.phase s.pending s.promises
    (s.served.take s.down.client.handed.length)
  calm : s.fault = none

namespace Talking

variable {s : Session ι}

omit [DecidableEq ι] in
/-- A request on the way is that of one call. -/
theorem sent_call
    (h : Talking client server brotli request s)
    {data : Bytes}
    (hdata : data ∈ s.up.written) :
    ∃ c, s.phase c = .sent ∧ data = (request c).bytes ∧ (request c).bytes.length < 2 ^ 31 := by
  rw [h.written] at hdata
  obtain ⟨c, hc, rfl⟩ := List.mem_map.mp hdata
  exact ⟨c, (h.sent c).mp hc, rfl, h.small c hc⟩

omit [DecidableEq ι] in
theorem handed_written
    (h : Talking client server brotli request s)
    {data : Bytes}
    (hdata : data ∈ s.up.server.handed) :
    data ∈ s.up.written := by
  obtain ⟨messages, hup⟩ := h.up
  exact hup.handed_prefix.subset hdata

omit [DecidableEq ι] in
/-- No two payloads on the way up are the same. -/
theorem written_nodup
    (hinj : Function.Injective fun c => (request c).id)
    (h : Talking client server brotli request s) :
    s.up.written.Nodup := by
  rw [h.written]
  refine List.Nodup.map_on ?_ h.requests
  intro c hc d _ hsame
  exact hinj (bytes_id server (h.small c hc) hsame)

omit [DecidableEq ι] in
/-- The responses that were handed to the client are among those that were written. -/
theorem handed_length_le
    (h : Talking client server brotli request s) :
    s.down.client.handed.length ≤ s.served.length := by
  obtain ⟨messages, hdown⟩ := h.down
  have hlength := hdown.handed_prefix.length_le
  rwa [h.replies, List.length_map] at hlength

theorem prepare
    {c : ι}
    (h : Talking client server brotli request s)
    (hphase : s.phase c = .idle) :
    Talking client server brotli request
      { s with phase := Function.update s.phase c .prepared } where
  up := h.up
  down := h.down
  written := h.written
  requests := h.requests
  sent := by
    intro d
    rw [h.sent d]
    by_cases hdc : d = c
    · subst hdc
      simp [hphase]
    · simp only [Function.update_of_ne hdc]
  small := h.small
  work := h.work
  answers := h.answers
  replies := h.replies
  completing := h.completing.prepare hphase
  calm := h.calm

theorem insert
    (hinj : Function.Injective fun c => (request c).id)
    {c : ι}
    (h : Talking client server brotli request s)
    (hphase : s.phase c = .prepared) :
    Talking client server brotli request
      { s with
        phase := Function.update s.phase c .inserted
        pending := Function.update s.pending (request c).id (some c) } where
  up := h.up
  down := h.down
  written := h.written
  requests := h.requests
  sent := by
    intro d
    rw [h.sent d]
    by_cases hdc : d = c
    · subst hdc
      simp [hphase]
    · simp only [Function.update_of_ne hdc]
  small := h.small
  work := h.work
  answers := h.answers
  replies := h.replies
  completing := h.completing.insert hinj
  calm := h.calm

theorem send
    (hlossless : brotli.Lossless)
    {c : ι}
    {t : Nat}
    {up : Uplink}
    (h : Talking client server brotli request s)
    (hphase : s.phase c = .inserted)
    (hsize : (request c).bytes.length < 2 ^ 31)
    (hfits : EncodedFits brotli s.up.client.channel.compressionType (request c).bytes)
    (hup : Uplink.step client.host server.host brotli s.up
      (.client (.sendMessage t (request c).bytes)) = some up) :
    Talking client server brotli request
      { s with
        phase := Function.update s.phase c .sent
        up := up
        requests := s.requests ++ [c] } := by
  obtain ⟨messages, hconnected⟩ := h.up
  have hok : Uplink.Undisturbed brotli s.up (.client (.sendMessage t (request c).bytes)) :=
    ⟨trivial, fun data hdata => List.mem_singleton.mp hdata ▸ hfits⟩
  obtain ⟨hwritten, hhanded⟩ := Uplink.step_client hup
  have hnew : c ∉ s.requests := by
    intro hc
    have hsent := (h.sent c).mp hc
    rw [hphase] at hsent
    cases hsent
  constructor
  · obtain ⟨sent, hafter⟩ := hconnected.step hlossless hok hup
    exact ⟨_, hafter⟩
  · exact h.down
  · show up.written = (s.requests ++ [c]).map fun c => (request c).bytes
    rw [hwritten, h.written, List.map_append]
    rfl
  · exact h.requests.append (List.nodup_singleton c) (List.disjoint_singleton.mpr hnew)
  · intro d
    rw [List.mem_append, List.mem_singleton, h.sent d]
    by_cases hdc : d = c
    · subst hdc
      simp
    · simp only [Function.update_of_ne hdc, hdc, or_false]
  · intro d hd
    rcases List.mem_append.mp hd with hd | hd
    · exact h.small d hd
    · rw [List.mem_singleton.mp hd]
      exact hsize
  · show HandedOut up.server.handed s.busy (s.served.map Served.data)
    rw [hhanded]
    exact h.work
  · exact h.answers
  · exact h.replies
  · exact h.completing.send hphase
  · exact h.calm

omit [DecidableEq ι] in
/-- A step on the way up hands nothing over, or a request that was not handed over before. -/
theorem goUp
    (hlossless : brotli.Lossless)
    (hinj : Function.Injective fun c => (request c).id)
    {e : UplinkEvent}
    {up : Uplink}
    (h : Talking client server brotli request s)
    (hok : Uplink.Undisturbed brotli s.up e)
    (hmay : s.mayGoUp e = true)
    (hup : Uplink.step client.host server.host brotli s.up e = some up) :
    Talking client server brotli request (s.enter up e) := by
  obtain ⟨messages, hconnected⟩ := h.up
  obtain ⟨sent, hafter⟩ := hconnected.step hlossless hok hup
  have hquiet : up.written = s.up.written → up.server.handed = s.up.server.handed →
      Talking client server brotli request { s with up := up } := by
    intro hwritten hhanded
    refine ⟨⟨_, hafter⟩, h.down, ?_, h.requests, h.sent, h.small, ?_, h.answers, h.replies,
      h.completing, h.calm⟩
    · show up.written = _
      rw [hwritten, h.written]
    · show HandedOut up.server.handed s.busy _
      rw [hhanded]
      exact h.work
  cases e with
  | client e =>
      obtain ⟨hwritten, hhanded⟩ := Uplink.step_client hup
      have hpayload : e.payload = [] := by
        cases e with
        | sendMessage t data => cases hmay
        | _ => rfl
      rw [hpayload, List.append_nil] at hwritten
      exact hquiet hwritten hhanded
  | server e =>
      obtain ⟨hwritten, hhanded | ⟨t, n, data, rfl, hhanded⟩⟩ := Uplink.step_server hup
      · cases e with
        | advance t n =>
            have hnone : up.server.handed.drop s.up.server.handed.length = [] := by
              rw [hhanded, List.drop_length]
            simp only [enter, hnone]
            exact hquiet hwritten hhanded
        | _ => exact hquiet hwritten hhanded
      · have hone : up.server.handed.drop s.up.server.handed.length = [data] := by
          rw [hhanded, List.drop_left]
        simp only [mayGoUp, decide_eq_true_eq, Bool.decide_and, Bool.and_eq_true] at hmay
        simp only [enter, hone]
        -- the requests on the way up are all different
        have hnew : data ∉ s.up.server.handed := by
          have hprefix := hafter.handed_prefix
          rw [hhanded, hwritten] at hprefix
          have hnodup := (h.written_nodup hinj).sublist hprefix.sublist
          exact fun hmem =>
            List.disjoint_of_nodup_append hnodup hmem (List.mem_singleton_self data)
        refine ⟨⟨_, hafter⟩, h.down, ?_, h.requests, h.sent, h.small, ?_, h.answers, h.replies,
          h.completing, h.calm⟩
        · show up.written = _
          rw [hwritten, h.written]
        · show HandedOut up.server.handed (Function.update s.busy t (some data)) _
          rw [hhanded]
          exact h.work.give hnew hmay.1

omit [DecidableEq ι] in
/-- The callback writes the response to what the task was handed. -/
theorem respond
    {t : Nat}
    {S : RpcServer}
    {fd : Int}
    {data reply : Bytes}
    {response : RPCResponse}
    {down : Downlink}
    (h : Talking client server brotli request s)
    (hbusy : s.busy t = some data)
    (hresponse : (RpcServer.respondTo server S fd data).result = .ok response)
    (hsize : response.bytes.length < 2 ^ 31)
    (hfits : EncodedFits brotli s.down.server.channel.compressionType response.bytes)
    (hreply : response.serialise server.host = .ok reply)
    (hdown : Downlink.step server.host client.host brotli s.down
      (.server (.writeData t reply)) = some down) :
    Talking client server brotli request
      { s with
        down := down
        busy := Function.update s.busy t none
        served := s.served ++
          [⟨data, (RpcServer.respondTo server S fd data).calls, response⟩] } := by
  rw [RPCResponse.serialise_bytes server.host hsize] at hreply
  obtain rfl := Except.ok.inj hreply
  obtain ⟨messages, hflowing⟩ := h.down
  obtain ⟨hwritten, hhanded⟩ := Downlink.step_server hdown
  constructor
  · exact h.up
  · simp only [Downlink.step] at hdown
    cases hserver : ServerChannel.step server.host brotli s.down.server
        (.writeData t response.bytes) with
    | none =>
        rw [hserver] at hdown
        cases hdown
    | some channel =>
        rw [hserver] at hdown
        cases hdown
        have hall : ∀ d ∈ (SendEvent.writeData t response.bytes).payload,
            EncodedFits brotli s.down.server.channel.compressionType d := by
          intro d hd
          rw [List.mem_singleton.mp hd]
          exact hfits
        obtain ⟨sent, -, hafter⟩ := hflowing.server hall hserver
        exact ⟨_, hafter⟩
  · exact h.written
  · exact h.requests
  · exact h.sent
  · exact h.small
  · rw [List.map_append]
    exact h.work.finish hbusy
  · intro x hx
    rcases List.mem_append.mp hx with hx | hx
    · exact h.answers x hx
    · rw [List.mem_singleton.mp hx]
      refine ⟨⟨S, fd, ?_⟩, hsize⟩
      rw [← hresponse]
  · show down.written = _
    rw [hwritten, h.replies, List.map_append]
    rfl
  · show Completing client request s.phase s.pending s.promises
      ((s.served ++ _).take down.client.handed.length)
    rw [hhanded, List.take_append_of_le_length h.handed_length_le]
    exact h.completing
  · exact h.calm

/-- A step on the way down hands nothing over, or the next response, which completes the
promise of its call. -/
theorem goDown
    (hlossless : brotli.Lossless)
    (hinj : Function.Injective fun c => (request c).id)
    {e : DownlinkEvent}
    {down : Downlink}
    (h : Talking client server brotli request s)
    (hmay : mayGoDown e = true)
    (hdown : Downlink.step server.host client.host brotli s.down e = some down) :
    Talking client server brotli request
      ((down.client.handed.drop s.down.client.handed.length).foldl (callback client)
        { s with down := down }) := by
  obtain ⟨messages, hflowing⟩ := h.down
  have hfits : Downlink.FitsBuffer brotli s.down e := by
    cases e with
    | client e => trivial
    | server e =>
        cases e with
        | writeData t data => cases hmay
        | _ => exact List.forall_mem_nil _
  obtain ⟨sent, hafter⟩ := hflowing.step hlossless hfits hdown
  have hquiet : down.written = s.down.written →
      down.client.handed = s.down.client.handed →
        Talking client server brotli request
          ((down.client.handed.drop s.down.client.handed.length).foldl (callback client)
            { s with down := down }) := by
    intro hwritten hhanded
    rw [hhanded, List.drop_length, List.foldl_nil]
    refine ⟨h.up, ⟨_, hafter⟩, h.written, h.requests, h.sent, h.small, h.work, h.answers, ?_, ?_,
      h.calm⟩
    · show down.written = _
      rw [hwritten, h.replies]
    · show Completing client request s.phase s.pending s.promises
        (s.served.take down.client.handed.length)
      rw [hhanded]
      exact h.completing
  cases e with
  | server e =>
      obtain ⟨hwritten, hhanded⟩ := Downlink.step_server hdown
      have hpayload : e.payload = [] := by
        cases e with
        | writeData t data => cases hmay
        | _ => rfl
      rw [hpayload, List.append_nil] at hwritten
      exact hquiet hwritten hhanded
  | client e =>
      obtain ⟨hwritten, hhanded | ⟨data, hhanded⟩⟩ := Downlink.step_client hdown
      · exact hquiet hwritten hhanded
      · -- what is handed over is the next response
        obtain ⟨later, hlater⟩ := hafter.handed_prefix
        rw [hhanded, hwritten, h.replies] at hlater
        have hnext : ∃ x, s.served[s.down.client.handed.length]? = some x ∧
            data = x.response.bytes := by
          have hmapped : (s.served.map fun x => x.response.bytes)[s.down.client.handed.length]? =
              some data := by
            rw [← hlater]
            simp
          rw [List.getElem?_map] at hmapped
          obtain ⟨x, hx, hdata⟩ := Option.map_eq_some_iff.mp hmapped
          exact ⟨x, hx, hdata.symm⟩
        obtain ⟨x, hx, rfl⟩ := hnext
        have hmem : x ∈ s.served := List.mem_of_getElem? hx
        have htake : s.served.take (s.down.client.handed.length + 1) =
            s.served.take s.down.client.handed.length ++ [x] := by
          rw [List.take_add_one, hx]
          rfl
        have hfresh : x.data ∉ (s.served.take s.down.client.handed.length).map Served.data := by
          have hnodup := h.work.nodup
          have hsplit := List.map_take (f := Served.data) (l := s.served)
            (i := s.down.client.handed.length + 1)
          have hsub := hnodup.sublist (List.take_sublist (s.down.client.handed.length + 1) _)
          rw [← hsplit, htake, List.map_append] at hsub
          exact fun hin =>
            List.disjoint_of_nodup_append hsub hin (List.mem_singleton_self x.data)
        obtain ⟨hanswers, hsize⟩ := h.answers x hmem
        obtain ⟨c, hc, hdata, hsmall⟩ := h.sent_call (h.handed_written
          ((h.work.covers x.data).mpr (.inl (List.mem_map_of_mem hmem))))
        have hone : down.client.handed.drop s.down.client.handed.length =
            [x.response.bytes] := by
          rw [hhanded, List.drop_left]
        rw [hone, List.foldl_cons, List.foldl_nil]
        obtain ⟨hcompleting, hphase, hup', hdown', hbusy', hfault', hrequests', hserved'⟩ :=
          Completing.callback (s := { s with down := down }) hinj
            h.completing hfresh hdata hc hsmall hanswers hsize
        constructor
        · rw [hup']
          exact h.up
        · rw [hdown']
          exact ⟨_, hafter⟩
        · rw [hup', hrequests']
          exact h.written
        · rw [hrequests']
          exact h.requests
        · rw [hrequests', hphase]
          exact h.sent
        · rw [hrequests']
          exact h.small
        · rw [hup', hbusy', hserved']
          exact h.work
        · rw [hserved']
          exact h.answers
        · rw [hdown', hserved']
          show down.written = _
          rw [hwritten, h.replies]
        · rw [hdown', hserved']
          show Completing client request _ _ _ (s.served.take down.client.handed.length)
          rw [hhanded, List.length_append, List.length_singleton, htake]
          exact hcompleting
        · rw [hfault']
          exact h.calm

/-- **Every undisturbed step keeps the invariant.** -/
theorem step
    (hlossless : brotli.Lossless)
    (hinj : Function.Injective fun c => (request c).id)
    {s' : Session ι}
    {e : SessionEvent ι}
    (h : Talking client server brotli request s)
    (hok : Undisturbed server brotli request s e)
    (hstep : Session.step client server brotli request s e = some s') :
    Talking client server brotli request s' := by
  obtain ⟨-, hmoves⟩ := step_moves hstep
  cases hmoves with
  | prepare hphase => exact h.prepare hphase
  | insert hphase => exact h.insert hinj hphase
  | send hphase hup => exact h.send hlossless hphase hok.1 hok.2 hup
  | up hmay hup => exact h.goUp hlossless hinj hok hmay hup
  | respond hbusy hresponse hreply hdown =>
      simp only [Undisturbed, ResponseFits, hbusy, hresponse] at hok
      obtain ⟨hsize, hfits⟩ := hok
      exact h.respond hbusy hresponse hsize hfits hreply hdown
  | down hmay hdown => exact h.goDown hlossless hinj hmay hdown

end Talking

omit [DecidableEq ι] in
/-- How the promise of a call stands, among all the responses written. -/
theorem Talking.once
    {s : Session ι}
    (h : Talking client server brotli request s)
    (c : ι) :
    s.promises c = [] ∨ ∃ x ∈ s.served, x.data = (request c).bytes ∧
      ∃ completion, x.Completes client completion ∧ s.promises c = [completion] := by
  rcases h.completing.once c with ⟨x, hx, hdata, hdone⟩ | ⟨-, hempty⟩
  · exact .inr ⟨x, List.mem_of_mem_take hx, hdata, hdone⟩
  · exact .inl hempty

omit [DecidableEq ι] in
/-- Everything that was sent up has been answered, if all is quiet. -/
theorem Talking.answered
    {s : Session ι}
    (h : Talking client server brotli request s)
    (hquiet : s.Quiet)
    {c : ι}
    (hphase : s.phase c = .sent) :
    ∃ x ∈ s.served, x.data = (request c).bytes := by
  obtain ⟨messages, hconnected⟩ := h.up
  have hwritten : (request c).bytes ∈ s.up.written := by
    rw [h.written]
    exact List.mem_map_of_mem ((h.sent c).mpr hphase)
  rw [← hconnected.handed_eq hquiet.up] at hwritten
  exact List.mem_map.mp (h.work.mem_done hquiet.busy hwritten)

/-- Only one task of the server is ever started. -/
def OneTask (server : Program) (brotli : Brotli) (request : ι → RPCRequest) (s : Session ι) :
    SessionEvent ι → Prop
  | .send c _ => Fits brotli s.up.client.channel.compressionType (request c).bytes
  | .up e => Uplink.OneTask brotli s.up e
  | .respond t S fd => s.ResponseFits server brotli t S fd
  | _ => True

instance Fits.decidable (brotli : Brotli) (type : CompressionType) (bytes : Bytes) :
    Decidable (Fits brotli type bytes) :=
  inferInstanceAs (Decidable (_ ∧ _))

instance ResponseFits.decidable (server : Program) (brotli : Brotli) (s : Session ι) (t : Nat)
    (S : RpcServer) (fd : Int) : Decidable (s.ResponseFits server brotli t S fd) :=
  match hbusy : s.busy t with
  | none => isTrue (by rw [ResponseFits, hbusy]; trivial)
  | some data =>
      match hresponse : (RpcServer.respondTo server S fd data).result with
      | .error _ => isTrue (by simp only [ResponseFits, hbusy, hresponse])
      | .ok response =>
          decidable_of_iff
            (Fits brotli s.down.server.channel.compressionType response.bytes)
            (by simp only [ResponseFits, hbusy, hresponse])

instance OneTask.decidable (server : Program) (brotli : Brotli) (request : ι → RPCRequest)
    (s : Session ι) : ∀ e, Decidable (OneTask server brotli request s e)
  | .send c _ => inferInstanceAs
      (Decidable (Fits brotli s.up.client.channel.compressionType (request c).bytes))
  | .up e => inferInstanceAs (Decidable (Uplink.OneTask brotli s.up e))
  | .respond t S fd => inferInstanceAs (Decidable (s.ResponseFits server brotli t S fd))
  | .prepare _ => isTrue trivial
  | .insert _ => isTrue trivial
  | .down _ => isTrue trivial

def ping : Unit → RPCRequest := fun _ => { RPCRequest.init .little with id := [1] }

def server0 : RpcServer where
  manager := ⟨[]⟩
  users := [5]

def plainCalls : System (Session Unit) (SessionEvent Unit) :=
  system (.plain .little) (.plain .little) .identity ping .none (fun _ _ => 0) EAGAIN

/-- A call sends its request. -/
def goesUp : List (SessionEvent Unit) :=
  [.prepare (), .insert (), .send () 0, .up (.client (.advance 0 .again)),
    .up (.client (.advance 0 .again)), .up (.client (.advance 0 .again)),
    .up (.client (.advance 0 .again)), .up (.client (.advance 0 (.sent 33))),
    .up (.client (.advance 0 .again))]

def reads (n : Nat) : List (SessionEvent Unit) :=
  List.replicate n (.up (.server (.advance 0 0)))

/-- A task of the server is handed the request. -/
def isRead : List (SessionEvent Unit) :=
  [.up (.server (.arrive 33)), .up (.server (.dispatch 0)), .up (.server (.advance 0 33))]

/-- The task writes the response. -/
def isAnswered : List (SessionEvent Unit) :=
  [.respond 0 server0 5, .down (.server (.advance 0 .again)), .down (.server (.advance 0 .again)),
    .down (.server (.advance 0 .again)), .down (.server (.advance 0 .again)),
    .down (.server (.advance 0 (.sent 50))), .down (.server (.advance 0 .again)),
    .down (.server (.advance 0 .again))]

def notFound : RPCResponse :=
  { RPCResponse.init .little with
    id := [1]
    error := HandlerManager.text "Handler not found" }

/-- The client reads the response and completes the promise. -/
def comesDown : List (SessionEvent Unit) :=
  [.down (.client .advance),
    .down (.client (.read (.bytes (frame .little (0 :: notFound.bytes)) EAGAIN)))] ++
    List.replicate 15 (.down (.client .advance))

def oneCall : List (SessionEvent Unit) :=
  [goesUp, isRead, reads 14, isAnswered, reads 5, comesDown].flatten

def completed : Session Unit := (plainCalls.run oneCall).getD plainCalls.init

/-- What holds in a run with one task of the server. -/
structure OneTasked (client server : Program) (brotli : Brotli) (request : ι → RPCRequest)
    (s : Session ι) : Prop where
  talking : Talking client server brotli request s
  alone : Alone s.up.server
  single : Uplink.Single s.up.server

omit [DecidableEq ι] in
theorem enter_up (s : Session ι) (up : Uplink) (e : UplinkEvent) : (s.enter up e).up = up := by
  unfold enter
  split
  · split <;> rfl
  · rfl

theorem foldl_callback_up (s : Session ι) (messages : List Bytes) :
    (messages.foldl (callback client) s).up = s.up := by
  induction messages generalizing s with
  | nil => rfl
  | cons data messages ih =>
      rw [List.foldl_cons, ih]
      unfold callback
      split
      · rfl
      · split <;> rfl

/-- A step leaves the way up as it is, or is a step on it. -/
theorem OneTask.up
    {s s' : Session ι}
    {e : SessionEvent ι}
    (hok : OneTask server brotli request s e)
    (hstep : step client server brotli request s e = some s') :
    s'.up = s.up ∨ ∃ f, Uplink.OneTask brotli s.up f ∧
      Uplink.step client.host server.host brotli s.up f = some s'.up ∧
      (e = .up f ∨ ∃ c t, e = .send c t) := by
  obtain ⟨-, hmoves⟩ := step_moves hstep
  cases hmoves with
  | @send c t up _ hup =>
      refine .inr ⟨.client (.sendMessage t (request c).bytes), ?_, hup, .inr ⟨c, t, rfl⟩⟩
      refine ⟨trivial, ?_⟩
      intro data hdata
      rw [List.mem_singleton.mp hdata]
      exact hok.2
  | @up f up _ hup => exact .inr ⟨f, hok, by rw [enter_up]; exact hup, .inl rfl⟩
  | down => exact .inl (foldl_callback_up _ _)
  | _ => exact .inl rfl

theorem OneTasked.undisturbed
    {s s' : Session ι}
    {e : SessionEvent ι}
    (h : OneTasked client server brotli request s)
    (hok : OneTask server brotli request s e)
    (hstep : step client server brotli request s e = some s') :
    Undisturbed server brotli request s e := by
  obtain ⟨messages, hconnected⟩ := h.talking.up
  cases e with
  | up f =>
      obtain ⟨-, hmoves⟩ := step_moves hstep
      cases hmoves with
      | up _ hup =>
          exact (Uplink.OneTask.oneAtATime hok h.single hup).1.undisturbed hconnected h.alone
  | _ => exact hok

theorem OneTasked.step
    (hlossless : brotli.Lossless)
    (hinj : Function.Injective fun c => (request c).id)
    {s s' : Session ι}
    {e : SessionEvent ι}
    (h : OneTasked client server brotli request s)
    (hok : OneTask server brotli request s e)
    (hstep : Session.step client server brotli request s e = some s') :
    OneTasked client server brotli request s' := by
  obtain ⟨messages, hconnected⟩ := h.talking.up
  refine ⟨h.talking.step hlossless hinj (h.undisturbed hok hstep) hstep, ?_, ?_⟩
  · rcases hok.up hstep with hsame | ⟨f, hf, hup, -⟩
    · rw [hsame]
      exact h.alone
    · exact (hf.oneAtATime h.single hup).1.alone hconnected h.alone hup
  · rcases hok.up hstep with hsame | ⟨f, hf, hup, -⟩
    · rw [hsame]
      exact h.single
    · exact (hf.oneAtATime h.single hup).2

end Session

end Rpc
end ZeroRPC
