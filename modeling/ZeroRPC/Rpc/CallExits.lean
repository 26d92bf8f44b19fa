import ZeroRPC.Rpc.Correlation

/-!
# How a call ends

A call puts its promise in `_pending_request`, hands the request to `send_message` and waits
for the future.  `send_message` throws when the client is not connected and when `::send`
fails; the future throws when the response carries an error.  The entry is erased by the
callback that completes the promise, and by nothing else.

The request of a call may have been sent by another thread before its own `send_message`
throws, and any frame may arrive at any time; so the promise of a call that throws may have
been completed before.  No two calls get the same id from `uuid_generate`.

Main facts:
* `Client.step_table`: what a step does to the table and the promises;
* `Client.Correlated.pending_eq_none`: a completed promise has no entry;
* `failing_calls_leave_no_trace_iff`: no failing call leaves an entry exactly when every
  `send_message` that throws does so after the response of its call was taken in.
-/

namespace ZeroRPC
namespace Rpc

open Library Serial

/-- What `send_message` throws. -/
inductive SendFailure
  | notConnected
  | failedToSend
deriving DecidableEq

/-- Whether it is thrown depends on `_running`. -/
def SendFailure.running : SendFailure → Bool
  | .notConnected => false
  | .failedToSend => true

inductive Exit
  | returned
  | sendThrew (failure : SendFailure)
  | responseError (what : List UInt8)
deriving DecidableEq

/-- By an exception. -/
def Exit.threw : Exit → Bool
  | .returned => false
  | .sendThrew _ => true
  | .responseError _ => true

/-- What `future.get()` does with a completed promise. -/
def Completion.exit : Completion → Exit
  | .value _ => .returned
  | .exception what => .responseError what

/-- A client with the exits of its calls. -/
structure CallingClient (ι : Type) where
  client : Client ι
  running : Bool
  exits : ι → Option Exit

inductive CallEvent (ι : Type)
  | client (e : ClientEvent ι)
  | sendThrows (c : ι) (failure : SendFailure)
  | get (c : ι)
  | disconnect

/-- The call whose own step it is. -/
def CallEvent.caller {ι : Type} : CallEvent ι → Option ι
  | .client (.prepare c) => some c
  | .client (.insert c) => some c
  | .client (.send c) => some c
  | .sendThrows c _ => some c
  | .get c => some c
  | _ => none

namespace CallingClient

variable {ι : Type} [DecidableEq ι]

def init : CallingClient ι where
  client := .init
  running := true
  exits := fun _ => none

/-- A call that has ended takes no step; `send_message` returns only when connected. -/
def Allows (s : CallingClient ι) : ClientEvent ι → Bool
  | .prepare c => s.exits c = none
  | .insert c => s.exits c = none
  | .send c => s.exits c = none ∧ s.running
  | _ => true

variable (client server : Program) (request : ι → RPCRequest)

def step (s : CallingClient ι) : CallEvent ι → Option (CallingClient ι)
  | .client e =>
      if s.Allows e then
        match Client.step client server request s.client e with
        | none => none
        | some client => some { s with client := client }
      else
        none
  | .sendThrows c failure =>
      if s.client.phase c = .inserted ∧ s.exits c = none ∧ s.running = failure.running then
        some { s with exits := Function.update s.exits c (some (.sendThrew failure)) }
      else
        none
  | .get c =>
      if s.client.phase c = .sent ∧ s.exits c = none then
        match s.client.promises c with
        | [] => none
        | completion :: _ =>
            some { s with exits := Function.update s.exits c (some completion.exit) }
      else
        none
  | .disconnect => some { s with running := false }

def system : System (CallingClient ι) (CallEvent ι) where
  init := init
  step := step client server request

/-- A call that has exited by an exception since `s₀` has no entry in the table. -/
def NoTrace (s₀ s : CallingClient ι) : Prop :=
  ∀ c exit, s₀.exits c = none → s.exits c = some exit → exit.threw = true →
    s.client.pending (request c).id = none

/-- The entry of a call is left as it is by the steps of other calls, and by every response
that does not complete its promise. -/
def KeepsOthers (s : CallingClient ι) (e : CallEvent ι) : Prop :=
  ∀ t, step client server request s e = some t →
    ∀ d, e.caller ≠ some d → t.client.promises d = s.client.promises d →
      t.client.pending (request d).id = s.client.pending (request d).id

/-- If the step is a `send_message` that throws, the promise of the call is completed. -/
def AnsweredBefore (s : CallingClient ι) : CallEvent ι → Prop
  | .sendThrows c _ => s.client.promises c ≠ []
  | _ => True

instance (s : CallingClient ι) : DecidablePred s.AnsweredBefore
  | .sendThrows c _ => inferInstanceAs (Decidable (s.client.promises c ≠ []))
  | .client _ | .get _ | .disconnect => isTrue trivial

end CallingClient

/-! ### The table and the promises -/

namespace Client

variable {ι : Type} [DecidableEq ι] {client server : Program} {request : ι → RPCRequest}

/-- **What a step does to the table and the promises**: nothing; or a call inserts its
promise; or an entry is erased and its promise completed. -/
theorem step_table
    {s t : Client ι}
    {e : ClientEvent ι}
    (h : step client server request s e = some t) :
    (t.pending = s.pending ∧ t.promises = s.promises) ∨
      (∃ c, e = .insert c ∧
        t.pending = Function.update s.pending (request c).id (some c) ∧
        t.promises = s.promises) ∨
      ∃ c id completion, s.pending id = some c ∧
        t.pending = Function.update s.pending id none ∧
        t.promises = Function.update s.promises c (s.promises c ++ [completion]) := by
  cases step_moves h with
  | @insert c _ => exact .inr (.inl ⟨c, rfl, rfl, rfl⟩)
  | @deliver i frame response _ _ =>
      unfold onReadMessage
      cases hfind : s.pending response.id with
      | none => exact .inl ⟨rfl, rfl⟩
      | some c => exact .inr (.inr ⟨c, response.id, response.completion, hfind, rfl, rfl⟩)
  | _ => exact .inl ⟨rfl, rfl⟩

/-- A promise stays completed. -/
theorem step_promises_ne_nil
    {s t : Client ι}
    {e : ClientEvent ι}
    {c : ι}
    (h : step client server request s e = some t)
    (hc : s.promises c ≠ []) :
    t.promises c ≠ [] := by
  rcases step_table h with ⟨-, hpromises⟩ | ⟨-, -, -, hpromises⟩ |
    ⟨d, -, completion, -, -, hpromises⟩
  · rwa [hpromises]
  · rwa [hpromises]
  · rw [hpromises]
    by_cases hcd : c = d
    · subst hcd
      simp
    · rwa [Function.update_of_ne hcd]

omit [DecidableEq ι] in
/-- An entry under the id of a call is that call's own. -/
theorem Correlated.pending_eq
    {s : Client ι}
    {c d : ι}
    (hinj : Function.Injective fun c => (request c).id)
    (h : Correlated request client s)
    (hc : s.pending (request c).id = some d) :
    d = c :=
  hinj (h.pending hc).1.symm

omit [DecidableEq ι] in
/-- A completed promise has no entry. -/
theorem Correlated.pending_eq_none
    {s : Client ι}
    {c : ι}
    (hinj : Function.Injective fun c => (request c).id)
    (h : Correlated request client s)
    (hc : s.promises c ≠ []) :
    s.pending (request c).id = none := by
  cases hfind : s.pending (request c).id with
  | none => rfl
  | some d =>
      obtain rfl := h.pending_eq hinj hfind
      exact absurd (h.pending hfind).2.1 hc

end Client

/-! ### The steps -/

namespace CallingClient

variable {ι : Type} [DecidableEq ι] {client server : Program} {request : ι → RPCRequest}
  {s₀ s t : CallingClient ι} {e : CallEvent ι}

/-- The steps one by one, with what allows each. -/
inductive Steps (client server : Program) (request : ι → RPCRequest) (s : CallingClient ι) :
    CallEvent ι → CallingClient ι → Prop
  | client {e : ClientEvent ι} {c : Client ι}
      (h : Client.step client server request s.client e = some c) :
      Steps client server request s (.client e) { s with client := c }
  | sendThrows {c : ι} {failure : SendFailure}
      (hphase : s.client.phase c = .inserted)
      (hexit : s.exits c = none) :
      Steps client server request s (.sendThrows c failure)
        { s with exits := Function.update s.exits c (some (.sendThrew failure)) }
  | get {c : ι} {exit : Exit}
      (hpromise : s.client.promises c ≠ []) :
      Steps client server request s (.get c)
        { s with exits := Function.update s.exits c (some exit) }
  | disconnect : Steps client server request s .disconnect { s with running := false }

theorem step_cases
    (h : step client server request s e = some t) :
    Steps client server request s e t := by
  cases e with
  | client e =>
      simp only [step, Option.ite_none_right_eq_some] at h
      obtain ⟨-, h⟩ := h
      split at h
      · cases h
      · next hstep =>
          cases h
          exact .client hstep
  | sendThrows c failure =>
      simp only [step, Option.ite_none_right_eq_some, Option.some.injEq] at h
      obtain ⟨⟨hphase, hexit, -⟩, rfl⟩ := h
      exact .sendThrows hphase hexit
  | get c =>
      simp only [step, Option.ite_none_right_eq_some] at h
      obtain ⟨-, h⟩ := h
      cases hpromise : s.client.promises c with
      | nil =>
          rw [hpromise] at h
          cases h
      | cons completion rest =>
          rw [hpromise] at h
          cases h
          exact .get (by simp [hpromise])
  | disconnect =>
      cases h
      exact .disconnect

theorem step_correlated
    (hinj : Function.Injective fun c => (request c).id)
    (h : Client.Correlated request client s.client)
    (hstep : step client server request s e = some t) :
    Client.Correlated request client t.client := by
  cases step_cases hstep with
  | client hclient => exact h.step hinj hclient
  | sendThrows _ _ => exact h
  | get _ => exact h
  | disconnect => exact h

theorem reachable_correlated
    (hinj : Function.Injective fun c => (request c).id)
    (h : (system client server request).Reachable System.anyStep s) :
    Client.Correlated request client s.client :=
  h.invariant (I := fun s => Client.Correlated request client s.client) Client.correlated_init
    fun _ _ _ hs _ hstep => step_correlated hinj hs hstep

/-- Responses complete the promises whose entries they erase; nothing else touches the entry
of another call. -/
theorem keepsOthers
    (hinj : Function.Injective fun c => (request c).id)
    (h : Client.Correlated request client s.client) :
    KeepsOthers client server request s e := by
  intro t hstep d hcaller hpromises
  cases step_cases hstep with
  | client hclient =>
      rcases Client.step_table hclient with ⟨hpending, -⟩ | ⟨c, rfl, hpending, -⟩ |
        ⟨c, id, completion, hfind, hpending, hcompleted⟩
      · rw [hpending]
      · have hne : (request d).id ≠ (request c).id := by
          intro hid
          exact hcaller (congrArg some (hinj hid).symm)
        rw [hpending, Function.update_of_ne hne]
      · by_cases hid : (request d).id = id
        · -- the entry is that of the call, whose promise is completed
          subst hid
          obtain rfl := h.pending_eq hinj hfind
          rw [hcompleted, Function.update_self] at hpromises
          simp at hpromises
        · rw [hpending, Function.update_of_ne hid]
  | sendThrows _ _ => rfl
  | get _ => rfl
  | disconnect => rfl

/-! ### Runs -/

/-- The calls that have ended since `s₀` have completed promises. -/
structure Answered (client : Program) (request : ι → RPCRequest) (s₀ s : CallingClient ι) :
    Prop where
  correlated : Client.Correlated request client s.client
  before : ∀ c, s.exits c = none → s₀.exits c = none
  completed : ∀ c, s₀.exits c = none → s.exits c ≠ none → s.client.promises c ≠ []

omit [DecidableEq ι] in
theorem answered_refl
    (h : Client.Correlated request client s₀.client) :
    Answered client request s₀ s₀ where
  correlated := h
  before := fun _ hc => hc
  completed := fun _ hc hne => absurd hc hne

omit [DecidableEq ι] in
theorem Answered.noTrace
    (hinj : Function.Injective fun c => (request c).id)
    (h : Answered client request s₀ s) :
    NoTrace request s₀ s := by
  intro c exit hbefore hexit _
  refine h.correlated.pending_eq_none hinj (h.completed c hbefore ?_)
  simp [hexit]

/-- A call with a completed promise ends. -/
theorem Answered.exit
    {c : ι}
    {exit : Exit}
    (h : Answered client request s₀ s)
    (hc : s.client.promises c ≠ []) :
    Answered client request s₀ { s with exits := Function.update s.exits c (some exit) } where
  correlated := h.correlated
  before := by
    intro d hd
    by_cases hdc : d = c
    · subst hdc
      simp at hd
    · simp only [Function.update_of_ne hdc] at hd
      exact h.before d hd
  completed := by
    intro d hbefore hd
    by_cases hdc : d = c
    · subst hdc
      exact hc
    · simp only [Function.update_of_ne hdc] at hd
      exact h.completed d hbefore hd

/-- **A step keeps the promises of ended calls completed, unless an unanswered
`send_message` throws.** -/
theorem Answered.next
    (hinj : Function.Injective fun c => (request c).id)
    (h : Answered client request s₀ s)
    (hok : AnsweredBefore s e)
    (hstep : step client server request s e = some t) :
    Answered client request s₀ t := by
  cases step_cases hstep with
  | client hclient =>
      refine ⟨h.correlated.step hinj hclient, h.before, ?_⟩
      intro c hbefore hexit
      exact Client.step_promises_ne_nil hclient (h.completed c hbefore hexit)
  | sendThrows _ _ => exact h.exit hok
  | get hpromise => exact h.exit hpromise
  | disconnect => exact ⟨h.correlated, h.before, h.completed⟩

/-- After an unanswered `send_message` has thrown, the entry is there. -/
theorem Answered.answeredBefore
    (h : Answered client request s₀ s)
    (hstep : step client server request s e = some t)
    (ht : NoTrace request s₀ t) :
    AnsweredBefore s e := by
  cases step_cases hstep with
  | client _ => trivial
  | @sendThrows c failure hphase hexit =>
      have hnone := ht c (.sendThrew failure) (h.before c hexit) (Function.update_self ..) rfl
      have hkept := h.correlated.kept c
      rw [hphase] at hkept
      rcases hkept with hidle | hprepared | hentry | hcompleted
      · cases hidle
      · cases hprepared
      · rw [hnone] at hentry
        cases hentry
      · exact hcompleted
  | get _ => trivial
  | disconnect => trivial

/-- **From any state, the calls that exit by an exception leave no entry and do not touch
those of others exactly when every `send_message` that throws does so after the promise of
its call was completed.** -/
theorem failing_calls_leave_no_trace_iff
    (client server : Program)
    (request : ι → RPCRequest)
    (hinj : Function.Injective fun c => (request c).id)
    (s₀ : CallingClient ι)
    (h₀ : (system client server request).Reachable System.anyStep s₀)
    (es : List (CallEvent ι)) :
    ((system client server request).Throughout (NoTrace request s₀) s₀ es ∧
        (system client server request).Every (KeepsOthers client server request) s₀ es) ↔
      (system client server request).Every AnsweredBefore s₀ es := by
  have hcorrelated := reachable_correlated hinj h₀
  have hothers : (system client server request).Every (KeepsOthers client server request) s₀ es :=
    System.every_of_invariant (I := fun s => Client.Correlated request client s.client)
      (fun _ _ _ hs hstep => step_correlated hinj hs hstep)
      (fun _ _ _ hs _ => keepsOthers hinj hs) hcorrelated es
  have hiff : (system client server request).Throughout (NoTrace request s₀) s₀ es ↔
      (system client server request).Every AnsweredBefore s₀ es := by
    refine System.throughout_iff_every (I := Answered client request s₀) ?_ ?_ ?_
      (answered_refl hcorrelated) es
    · exact fun s hs => hs.noTrace hinj
    · exact fun s e t hs hok hstep => hs.next hinj hok hstep
    · exact fun s e t hs hstep ht => hs.answeredBefore hstep ht
  constructor
  · rintro ⟨hnone, -⟩
    exact hiff.mp hnone
  · intro h
    exact ⟨hiff.mpr h, hothers⟩

/-- The response has come before `send_message` is through. -/
def pongedCalling : CallingClient Bool where
  client := Client.ponged
  running := true
  exits := fun _ => none

theorem pongedCalling_reachable :
    (system (Program.plain .little) (Program.plain .little) Client.ping).Reachable
      System.anyStep pongedCalling := by
  refine .step (e := .client (.deliver 0)) (.step (e := .client (.stray Client.pong.bytes))
    (.step (e := .client (.insert true)) (.step (e := .client (.prepare true)) .init trivial rfl)
    trivial rfl) trivial rfl) trivial ?_
  simp only [system, step, Client.step, List.getElem?_cons_zero, Client.pong_deserialise]
  rfl

theorem ponged_call_leaves_no_trace :
    (system (Program.plain .little) (Program.plain .little) Client.ping).Throughout
      (NoTrace Client.ping pongedCalling) pongedCalling
      [.disconnect, .sendThrows true .notConnected] :=
  ((failing_calls_leave_no_trace_iff (Program.plain .little) (Program.plain .little) Client.ping
    (by decide) pongedCalling pongedCalling_reachable
    [.disconnect, .sendThrows true .notConnected]).mpr (by decide)).1

/-! ### A call on a client that is not connected -/

/-- The connection is lost between the insertion and `send_message`. -/
def unconnectedCall : List (CallEvent Bool) :=
  [.client (.prepare true), .client (.insert true), .disconnect, .sendThrows true .notConnected]

theorem unconnected_call_leaves_entry :
    ¬ ∀ es, (system (Program.plain .little) (Program.plain .little) Client.ping).Throughout
      (NoTrace Client.ping init) init es := by
  intro h
  have hlast := (h unconnectedCall).last rfl
  have hnone := hlast true (.sendThrew .notConnected) rfl rfl rfl
  cases hnone

end CallingClient

end Rpc
end ZeroRPC
