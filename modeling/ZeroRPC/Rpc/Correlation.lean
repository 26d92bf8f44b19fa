import ZeroRPC.Library.Transition
import ZeroRPC.Rpc.Call

/-!
# Responses and the calls that wait for them

Any number of calls run on one client.  Each builds its request, puts its promise in
`_pending_request` and hands the request to `send_message`; the server answers the
requests it has, in any order and as often as it likes; any other frame may arrive,
and every frame may arrive again.  The insertion and the callback's lookup, completion
and erasure are single steps, since each is done under `_hash_lock`.

A frame remembers which call's request it answers, for the statements only.

Main facts:
* `Correlated`: what holds in every reachable state;
* `Correlated.step`: one lemma for each kind of step, assembled;
* `responses_correlated`: each promise is completed at most once, by a response with
  the id of its call, and only after it was put in the table.
-/

namespace ZeroRPC
namespace Rpc

open Library Serial

/-- How far a call has got. -/
inductive Phase
  | idle
  | prepared
  | inserted
  | sent
deriving DecidableEq

/-- A frame on its way to the client. -/
structure Frame (ι : Type) where
  data : List UInt8
  answers : Option ι

/-- The client, with what is on the network. -/
structure Client (ι : Type) where
  phase : ι → Phase
  pending : List UInt8 → Option ι
  promises : ι → List Completion
  requests : List ι
  responses : List (Frame ι)
  decoded : List RPCResponse

inductive ClientEvent (ι : Type)
  | prepare (c : ι)
  | insert (c : ι)
  | send (c : ι)
  | serve (c : ι) (S : RpcServer) (fd : Int)
  | stray (data : List UInt8)
  | duplicate (i : Nat)
  | deliver (i : Nat)

namespace Client

variable {ι : Type} [DecidableEq ι]

def init : Client ι where
  phase := fun _ => .idle
  pending := fun _ => none
  promises := fun _ => []
  requests := []
  responses := []
  decoded := []

/-- The client callback under `_hash_lock`: `find`, `set_value` or `set_exception`,
`erase`. -/
def onReadMessage (s : Client ι) (response : RPCResponse) : Client ι :=
  match s.pending response.id with
  | none => s
  | some c =>
      { s with
        promises := Function.update s.promises c (s.promises c ++ [response.completion])
        pending := Function.update s.pending response.id none }

variable (client server : Program) (request : ι → RPCRequest)

/-- What the server callback makes of the request of a call. -/
def served (c : ι) (S : RpcServer) (fd : Int) : Option RPCResponse :=
  match RPCRequest.deserialise server (request c).bytes with
  | .error _ => none
  | .ok received =>
      match (S.answer server fd received).result with
      | .error _ => none
      | .ok response => some response

/-- One step.  A request or a response goes over the network when it fits a frame; a
frame that cannot be decoded does not get to the lookup. -/
def step (s : Client ι) : ClientEvent ι → Option (Client ι)
  | .prepare c =>
      if s.phase c = .idle then
        some { s with phase := Function.update s.phase c .prepared }
      else
        none
  | .insert c =>
      if s.phase c = .prepared then
        some { s with
          phase := Function.update s.phase c .inserted
          pending := Function.update s.pending (request c).id (some c) }
      else
        none
  | .send c =>
      if s.phase c = .inserted ∧ (request c).bytes.length < 2 ^ 31 then
        some { s with
          phase := Function.update s.phase c .sent
          requests := c :: s.requests }
      else
        none
  | .serve c S fd =>
      if c ∈ s.requests then
        match served server request c S fd with
        | none => none
        | some response =>
            if response.bytes.length < 2 ^ 31 then
              some { s with responses := ⟨response.bytes, some c⟩ :: s.responses }
            else
              none
      else
        none
  | .stray data => some { s with responses := ⟨data, none⟩ :: s.responses }
  | .duplicate i =>
      match s.responses[i]? with
      | none => none
      | some frame => some { s with responses := frame :: s.responses }
  | .deliver i =>
      match s.responses[i]? with
      | none => none
      | some frame =>
          match RPCResponse.deserialise client frame.data with
          | .error _ => some { s with responses := s.responses.eraseIdx i }
          | .ok response =>
              some (onReadMessage
                { s with
                  responses := s.responses.eraseIdx i
                  decoded := response :: s.decoded } response)

/-- The calls of one client and a server. -/
def system : System (Client ι) (ClientEvent ι) where
  init := init
  step := step client server request

/-- What a step can be. -/
inductive Moves (s : Client ι) : ClientEvent ι → Client ι → Prop
  | prepare {c : ι} (hphase : s.phase c = .idle) :
      Moves s (.prepare c) { s with phase := Function.update s.phase c .prepared }
  | insert {c : ι} (hphase : s.phase c = .prepared) :
      Moves s (.insert c)
        { s with
          phase := Function.update s.phase c .inserted
          pending := Function.update s.pending (request c).id (some c) }
  | send {c : ι} (hphase : s.phase c = .inserted) (hsize : (request c).bytes.length < 2 ^ 31) :
      Moves s (.send c)
        { s with
          phase := Function.update s.phase c .sent
          requests := c :: s.requests }
  | serve {c : ι} {S : RpcServer} {fd : Int} {response : RPCResponse} (hc : c ∈ s.requests)
      (hserved : served server request c S fd = some response)
      (hsize : response.bytes.length < 2 ^ 31) :
      Moves s (.serve c S fd) { s with responses := ⟨response.bytes, some c⟩ :: s.responses }
  | stray {data : List UInt8} :
      Moves s (.stray data) { s with responses := ⟨data, none⟩ :: s.responses }
  | duplicate {i : Nat} {frame : Frame ι} (hi : s.responses[i]? = some frame) :
      Moves s (.duplicate i) { s with responses := frame :: s.responses }
  | undecoded {i : Nat} {frame : Frame ι} {fault : Fault}
      (hi : s.responses[i]? = some frame)
      (hread : RPCResponse.deserialise client frame.data = .error fault) :
      Moves s (.deliver i) { s with responses := s.responses.eraseIdx i }
  | deliver {i : Nat} {frame : Frame ι} {response : RPCResponse}
      (hi : s.responses[i]? = some frame)
      (hread : RPCResponse.deserialise client frame.data = .ok response) :
      Moves s (.deliver i)
        (onReadMessage
          { s with
            responses := s.responses.eraseIdx i
            decoded := response :: s.decoded } response)

variable {client server request}

theorem step_moves
    {s t : Client ι}
    {e : ClientEvent ι}
    (h : step client server request s e = some t) :
    Moves client server request s e t := by
  cases e with
  | prepare c =>
      simp only [step, Option.ite_none_right_eq_some, Option.some.injEq] at h
      obtain ⟨hphase, rfl⟩ := h
      exact .prepare hphase
  | insert c =>
      simp only [step, Option.ite_none_right_eq_some, Option.some.injEq] at h
      obtain ⟨hphase, rfl⟩ := h
      exact .insert hphase
  | send c =>
      simp only [step, Option.ite_none_right_eq_some, Option.some.injEq] at h
      obtain ⟨⟨hphase, hsize⟩, rfl⟩ := h
      exact .send hphase hsize
  | serve c S fd =>
      simp only [step, Option.ite_none_right_eq_some] at h
      obtain ⟨hc, h⟩ := h
      cases hserved : served server request c S fd with
      | none =>
          rw [hserved] at h
          cases h
      | some response =>
          simp only [hserved, Option.ite_none_right_eq_some, Option.some.injEq] at h
          obtain ⟨hsize, rfl⟩ := h
          exact .serve hc hserved hsize
  | stray data =>
      cases h
      exact .stray
  | duplicate i =>
      simp only [step] at h
      cases hi : s.responses[i]? with
      | none =>
          rw [hi] at h
          cases h
      | some frame =>
          simp only [hi, Option.some.injEq] at h
          subst h
          exact .duplicate hi
  | deliver i =>
      simp only [step] at h
      cases hi : s.responses[i]? with
      | none =>
          rw [hi] at h
          cases h
      | some frame =>
          cases hread : RPCResponse.deserialise client frame.data with
          | error e =>
              simp only [hi, hread, Option.some.injEq] at h
              subst h
              exact .undecoded hi hread
          | ok response =>
              simp only [hi, hread, Option.some.injEq] at h
              subst h
              exact .deliver hi hread

/-! ### The response has the id of the request -/

theorem respond_id
    (host : Endian)
    (request : RPCRequest)
    (result : Except (List UInt8) (Option DataStream)) :
    (respond host request result).id = request.id := by
  cases result with
  | error what => rfl
  | ok result => cases result <;> rfl

theorem answer_id
    {S : RpcServer}
    {fd : Int}
    {received : RPCRequest}
    {response : RPCResponse}
    (h : (S.answer server fd received).result = .ok response) :
    response.id = received.id := by
  rw [RpcServer.answer] at h
  cases hbeat : S.updateHeartbeat fd with
  | error e =>
      rw [hbeat] at h
      cases h
  | ok u =>
      rw [hbeat] at h
      cases hcall : S.manager.call server received.method received.params with
      | mk calls result =>
          cases result with
          | error e =>
              simp only [hcall, Outcome.lift_eq, Outcome.ok_bind, Outcome.error_bind] at h
              cases h
          | ok result =>
              simp only [hcall, Outcome.lift_eq, Outcome.calls_bind, Outcome.pure_eq] at h
              cases h
              exact respond_id server.host received result

theorem ofMembers_members_id
    (request : RPCRequest) :
    (RPCRequest.ofMembers request.members).id = request.id := rfl

omit [DecidableEq ι] in
theorem served_id
    {c : ι}
    {S : RpcServer}
    {fd : Int}
    {response : RPCResponse}
    (hsize : (request c).bytes.length < 2 ^ 31)
    (h : served server request c S fd = some response) :
    response.id = (request c).id := by
  have hreceived := RPCRequest.deserialise_members server (r := request c) hsize
  unfold served at h
  simp only [hreceived] at h
  rw [← ofMembers_members_id (request c)]
  generalize RPCRequest.ofMembers (request c).members = received at h ⊢
  split at h
  · cases h
  · rename_i r hanswer
    obtain rfl : r = response := Option.some.inj h
    exact answer_id hanswer

/-! ### The invariant -/

/-- What ties the table, the promises and the network together. -/
structure Correlated (request : ι → RPCRequest) (client : Program) (s : Client ι) : Prop where
  /-- Every entry of the table is an unfulfilled promise under the id of its call. -/
  pending : ∀ {id c}, s.pending id = some c →
    id = (request c).id ∧ s.promises c = [] ∧ s.phase c ≠ .idle ∧ s.phase c ≠ .prepared
  /-- A completed promise was completed once, by a response with the id of its call. -/
  once : ∀ c, s.promises c = [] ∨
    ∃ r ∈ s.decoded, r.id = (request c).id ∧ s.promises c = [r.completion]
  /-- A promise that was put in the table stays there until it is completed. -/
  kept : ∀ c, s.phase c = .idle ∨ s.phase c = .prepared ∨
    s.pending (request c).id = some c ∨ s.promises c ≠ []
  /-- A call that has not put its promise in the table has none completed. -/
  early : ∀ c, s.phase c = .idle ∨ s.phase c = .prepared → s.promises c = []
  /-- Requests on the network come from calls that have put their promise there. -/
  requests : ∀ c ∈ s.requests, s.phase c = .sent ∧ (request c).bytes.length < 2 ^ 31
  /-- So do the calls whose requests are answered; the answer has the id of the call. -/
  responses : ∀ frame ∈ s.responses, ∀ c, frame.answers = some c →
    s.phase c = .sent ∧
      ∀ r, RPCResponse.deserialise client frame.data = .ok r → r.id = (request c).id

omit [DecidableEq ι] in
theorem correlated_init : Correlated request client (init : Client ι) where
  pending := by
    intro id c h
    cases h
  once := fun c => Or.inl rfl
  kept := fun c => Or.inl rfl
  early := fun c _ => rfl
  requests := by
    intro c h
    cases h
  responses := by
    intro frame h
    cases h

theorem Correlated.prepare
    {s : Client ι}
    {c : ι}
    (h : Correlated request client s)
    (hphase : s.phase c = .idle) :
    Correlated request client { s with phase := Function.update s.phase c .prepared } where
  pending := by
    intro id d hd
    obtain ⟨hid, hprom, hidle, hprep⟩ := h.pending hd
    have hne : d ≠ c := by
      rintro rfl
      exact hidle hphase
    simp only [Function.update_of_ne hne]
    exact ⟨hid, hprom, hidle, hprep⟩
  once := h.once
  kept := by
    intro d
    by_cases hd : d = c
    · subst hd
      simp
    · simp only [Function.update_of_ne hd]
      exact h.kept d
  early := by
    intro d hd
    by_cases hdc : d = c
    · subst hdc
      exact h.early d (Or.inl hphase)
    · simp only [Function.update_of_ne hdc] at hd
      exact h.early d hd
  requests := by
    intro d hd
    obtain ⟨hsent, hsize⟩ := h.requests d hd
    have hne : d ≠ c := by
      rintro rfl
      rw [hphase] at hsent
      cases hsent
    simp only [Function.update_of_ne hne]
    exact ⟨hsent, hsize⟩
  responses := by
    intro frame hframe d hd
    obtain ⟨hsent, hid⟩ := h.responses frame hframe d hd
    have hne : d ≠ c := by
      rintro rfl
      rw [hphase] at hsent
      cases hsent
    simp only [Function.update_of_ne hne]
    exact ⟨hsent, hid⟩

theorem Correlated.insert
    (hinj : Function.Injective fun c => (request c).id)
    {s : Client ι}
    {c : ι}
    (h : Correlated request client s)
    (hphase : s.phase c = .prepared) :
    Correlated request client { s with
      phase := Function.update s.phase c .inserted
      pending := Function.update s.pending (request c).id (some c) } where
  pending := by
    intro id d hd
    by_cases hid : id = (request c).id
    · subst hid
      simp only [Function.update_self, Option.some.injEq] at hd
      subst hd
      exact ⟨rfl, h.early c (Or.inr hphase), by simp, by simp⟩
    · simp only [Function.update_of_ne hid] at hd
      obtain ⟨hid, hprom, hidle, hprep⟩ := h.pending hd
      have hne : d ≠ c := by
        rintro rfl
        exact hprep hphase
      simp only [Function.update_of_ne hne]
      exact ⟨hid, hprom, hidle, hprep⟩
  once := h.once
  kept := by
    intro d
    by_cases hd : d = c
    · subst hd
      simp
    · have hid : (request d).id ≠ (request c).id := fun hid => hd (hinj hid)
      simp only [Function.update_of_ne hd, Function.update_of_ne hid]
      exact h.kept d
  early := by
    intro d hd
    by_cases hdc : d = c
    · subst hdc
      exact h.early d (Or.inr hphase)
    · simp only [Function.update_of_ne hdc] at hd
      exact h.early d hd
  requests := by
    intro d hd
    obtain ⟨hsent, hsize⟩ := h.requests d hd
    have hne : d ≠ c := by
      rintro rfl
      rw [hphase] at hsent
      cases hsent
    simp only [Function.update_of_ne hne]
    exact ⟨hsent, hsize⟩
  responses := by
    intro frame hframe d hd
    obtain ⟨hsent, hid⟩ := h.responses frame hframe d hd
    have hne : d ≠ c := by
      rintro rfl
      rw [hphase] at hsent
      cases hsent
    simp only [Function.update_of_ne hne]
    exact ⟨hsent, hid⟩

theorem Correlated.send
    {s : Client ι}
    {c : ι}
    (h : Correlated request client s)
    (hphase : s.phase c = .inserted)
    (hsize : (request c).bytes.length < 2 ^ 31) :
    Correlated request client { s with
      phase := Function.update s.phase c .sent
      requests := c :: s.requests } where
  pending := by
    intro id d hd
    obtain ⟨hid, hprom, hidle, hprep⟩ := h.pending hd
    by_cases hdc : d = c
    · subst hdc
      exact ⟨hid, hprom, by simp, by simp⟩
    · simp only [Function.update_of_ne hdc]
      exact ⟨hid, hprom, hidle, hprep⟩
  once := h.once
  kept := by
    intro d
    by_cases hdc : d = c
    · subst hdc
      have hkept := h.kept d
      simp only [hphase, reduceCtorEq, false_or] at hkept
      exact Or.inr (Or.inr hkept)
    · simp only [Function.update_of_ne hdc]
      exact h.kept d
  early := by
    intro d hd
    by_cases hdc : d = c
    · subst hdc
      simp at hd
    · simp only [Function.update_of_ne hdc] at hd
      exact h.early d hd
  requests := by
    intro d hd
    by_cases hdc : d = c
    · subst hdc
      exact ⟨by simp, hsize⟩
    · simp only [Function.update_of_ne hdc]
      exact h.requests d ((List.mem_cons.mp hd).resolve_left hdc)
  responses := by
    intro frame hframe d hd
    obtain ⟨hsent, hid⟩ := h.responses frame hframe d hd
    by_cases hdc : d = c
    · subst hdc
      exact ⟨by simp, hid⟩
    · simp only [Function.update_of_ne hdc]
      exact ⟨hsent, hid⟩

omit [DecidableEq ι] in
/-- Frames on the way may come and go, as long as the answers among them are answers
the server gave. -/
theorem Correlated.withResponses
    {s : Client ι}
    {frames : List (Frame ι)}
    (h : Correlated request client s)
    (hframes : ∀ frame ∈ frames, ∀ c, frame.answers = some c →
      s.phase c = .sent ∧
        ∀ r, RPCResponse.deserialise client frame.data = .ok r → r.id = (request c).id) :
    Correlated request client { s with responses := frames } where
  pending := h.pending
  once := h.once
  kept := h.kept
  early := h.early
  requests := h.requests
  responses := hframes

omit [DecidableEq ι] in
theorem Correlated.addResponse
    {s : Client ι}
    {frame : Frame ι}
    (h : Correlated request client s)
    (hframe : ∀ c, frame.answers = some c →
      s.phase c = .sent ∧
        ∀ r, RPCResponse.deserialise client frame.data = .ok r → r.id = (request c).id) :
    Correlated request client { s with responses := frame :: s.responses } := by
  refine h.withResponses ?_
  intro f hf
  rcases List.mem_cons.mp hf with rfl | hf
  · exact hframe
  · exact h.responses f hf

omit [DecidableEq ι] in
theorem Correlated.serve
    {s : Client ι}
    {c : ι}
    {S : RpcServer}
    {fd : Int}
    {response : RPCResponse}
    (h : Correlated request client s)
    (hc : c ∈ s.requests)
    (hserved : served server request c S fd = some response)
    (hsize : response.bytes.length < 2 ^ 31) :
    Correlated request client
      { s with responses := ⟨response.bytes, some c⟩ :: s.responses } := by
  obtain ⟨hsent, hrequest⟩ := h.requests c hc
  refine h.addResponse ?_
  intro d hd
  obtain rfl : c = d := Option.some.inj hd
  refine ⟨hsent, ?_⟩
  intro r hr
  have hread := RPCResponse.deserialise_members client (r := response) hsize
  rw [hread] at hr
  rw [← Except.ok.inj hr]
  exact (served_id hrequest hserved : response.id = (request c).id)

omit [DecidableEq ι] in
theorem Correlated.record
    {s : Client ι}
    (h : Correlated request client s)
    (response : RPCResponse) :
    Correlated request client { s with decoded := response :: s.decoded } where
  pending := h.pending
  once := by
    intro c
    rcases h.once c with hnone | ⟨r, hr, hid, hprom⟩
    · exact Or.inl hnone
    · exact Or.inr ⟨r, List.mem_cons_of_mem _ hr, hid, hprom⟩
  kept := h.kept
  early := h.early
  requests := h.requests
  responses := h.responses

theorem Correlated.onReadMessage
    {s : Client ι}
    {response : RPCResponse}
    (h : Correlated request client s)
    (hdecoded : response ∈ s.decoded) :
    Correlated request client (s.onReadMessage response) := by
  rw [Client.onReadMessage]
  cases hp : s.pending response.id with
  | none => exact h
  | some c =>
      obtain ⟨hid, hprom, hidle, hprep⟩ := h.pending hp
      constructor
      · -- the other entries stay; none of them is of this call
        intro id d hd
        by_cases hne : id = response.id
        · subst hne
          simp at hd
        · simp only [Function.update_of_ne hne] at hd
          obtain ⟨hid', hprom', hphases⟩ := h.pending hd
          have hdc : d ≠ c := by
            rintro rfl
            exact hne (hid'.trans hid.symm)
          simp only [Function.update_of_ne hdc]
          exact ⟨hid', hprom', hphases⟩
      · intro d
        by_cases hdc : d = c
        · subst hdc
          exact Or.inr ⟨response, hdecoded, hid, by simp [hprom]⟩
        · simp only [Function.update_of_ne hdc]
          exact h.once d
      · intro d
        by_cases hdc : d = c
        · subst hdc
          simp
        · rcases h.kept d with hd | hd | hd | hd
          · exact Or.inl hd
          · exact Or.inr (Or.inl hd)
          · have hne : (request d).id ≠ response.id := by
              intro heq
              rw [heq, hp] at hd
              exact hdc (Option.some.inj hd).symm
            simp only [Function.update_of_ne hne]
            exact Or.inr (Or.inr (Or.inl hd))
          · simp only [Function.update_of_ne hdc]
            exact Or.inr (Or.inr (Or.inr hd))
      · intro d hd
        have hdc : d ≠ c := by
          rintro rfl
          rcases hd with hd | hd
          · exact hidle hd
          · exact hprep hd
        simp only [Function.update_of_ne hdc]
        exact h.early d hd
      · exact h.requests
      · exact h.responses

/-- **Every step keeps the invariant.** -/
theorem Correlated.step
    (hinj : Function.Injective fun c => (request c).id)
    {s t : Client ι}
    {e : ClientEvent ι}
    (h : Correlated request client s)
    (hstep : step client server request s e = some t) :
    Correlated request client t := by
  have hrest : ∀ i, Correlated request client { s with responses := s.responses.eraseIdx i } :=
    fun i => h.withResponses fun frame hframe => h.responses frame (List.mem_of_mem_eraseIdx hframe)
  cases step_moves hstep with
  | prepare hphase => exact h.prepare hphase
  | insert hphase => exact h.insert hinj hphase
  | send hphase hsize => exact h.send hphase hsize
  | serve hc hserved hsize => exact h.serve hc hserved hsize
  | stray =>
      refine h.addResponse ?_
      intro c hc
      cases hc
  | duplicate hi => exact h.addResponse (h.responses _ (List.mem_of_getElem? hi))
  | undecoded _ _ => exact hrest _
  | deliver _ _ => exact ((hrest _).record _).onReadMessage (List.mem_cons_self ..)

theorem reachable_correlated
    (hinj : Function.Injective fun c => (request c).id)
    {s : Client ι}
    (h : (system client server request).Reachable System.anyStep s) :
    Correlated request client s :=
  h.invariant correlated_init fun _ _ _ hs _ hstep => hs.step hinj hstep

/-! ### The correlation -/

/-- A response for an id that is not in the table leaves everything but the network as
it was. -/
theorem deliver_unknown
    {s t : Client ι}
    {i : Nat}
    (hunknown : ∀ frame r, s.responses[i]? = some frame →
      RPCResponse.deserialise client frame.data = .ok r → s.pending r.id = none)
    (hstep : step client server request s (.deliver i) = some t) :
    t.phase = s.phase ∧ t.pending = s.pending ∧ t.promises = s.promises := by
  simp only [step] at hstep
  cases hi : s.responses[i]? with
  | none =>
      rw [hi] at hstep
      cases hstep
  | some frame =>
      cases hread : RPCResponse.deserialise client frame.data with
      | error e =>
          simp only [hi, hread, Option.some.injEq] at hstep
          subst hstep
          exact ⟨rfl, rfl, rfl⟩
      | ok response =>
          have hnone := hunknown frame response hi hread
          simp only [hi, hread, Client.onReadMessage, hnone, Option.some.injEq] at hstep
          subst hstep
          exact ⟨rfl, rfl, rfl⟩

/-- **Responses reach the calls they answer, once.** -/
theorem responses_correlated
    (client server : Program)
    (request : ι → RPCRequest)
    (hinj : Function.Injective fun c => (request c).id)
    (s : Client ι)
    (h : (system client server request).Reachable System.anyStep s) :
    (∀ c, s.promises c = [] ∨
      ∃ r ∈ s.decoded, r.id = (request c).id ∧ s.promises c = [r.completion]) ∧
    (∀ i t, (∀ frame r, s.responses[i]? = some frame →
        RPCResponse.deserialise client frame.data = .ok r → s.pending r.id = none) →
      step client server request s (.deliver i) = some t →
        t.phase = s.phase ∧ t.pending = s.pending ∧ t.promises = s.promises) ∧
    (∀ frame ∈ s.responses, ∀ c, frame.answers = some c →
      s.pending (request c).id = some c ∨ s.promises c ≠ []) := by
  have hinv := reachable_correlated hinj h
  refine ⟨hinv.once, ?_, ?_⟩
  · intro i t hunknown hstep
    exact deliver_unknown hunknown hstep
  · intro frame hframe c hc
    obtain ⟨hsent, hid⟩ := hinv.responses frame hframe c hc
    have hkept := hinv.kept c
    simpa [hsent] using hkept

/-- Two calls, one of which has its response. -/
def ping (c : Bool) : RPCRequest :=
  { RPCRequest.init .little with id := [if c then 1 else 0] }

def pong : RPCResponse :=
  { RPCResponse.init .little with id := [1] }

def ponged : Client Bool :=
  onReadMessage
    { (init : Client Bool) with
      phase := Function.update (Function.update (fun _ => .idle) true .prepared) true .inserted
      pending := Function.update (fun _ => none) [1] (some true)
      decoded := [pong] }
    pong

theorem pong_deserialise :
    RPCResponse.deserialise (Program.plain .little) pong.bytes = .ok pong :=
  RPCResponse.deserialise_bytes (Program.plain .little) (r := pong) (by decide) rfl

theorem ponged_reachable :
    (system (Program.plain .little) (Program.plain .little) ping).Reachable
      System.anyStep ponged := by
  refine .step (e := .deliver 0) (.step (e := .stray pong.bytes)
    (.step (e := .insert true) (.step (e := .prepare true) .init trivial rfl) trivial rfl)
    trivial rfl) trivial ?_
  simp only [system, step, List.getElem?_cons_zero, pong_deserialise]
  rfl

theorem ponged_correlated :
    ponged.promises true = [] ∨
      ∃ r ∈ ponged.decoded, r.id = (ping true).id ∧ ponged.promises true = [r.completion] :=
  (responses_correlated (Program.plain .little) (Program.plain .little) ping
    (by decide) ponged ponged_reachable).1 true

end Client

end Rpc
end ZeroRPC
