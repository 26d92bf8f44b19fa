import ZeroRPC.Core.ClientSend

/-!
# What goes into a stream

A step of a sender may add bytes to what the kernel has accepted, and a `write_data` adds
a frame to what is queued.  As long as kernel and queue make up the frames, what the
kernel gets is the front of what was still to be sent.

Main facts:
* `EncodedFits.sent`: the payloads of a step as messages with their frames;
* `Adds.flow`: where the bytes come from that the kernel gets;
* `ServerChannel.step_adds`, `ClientChannel.step_adds`: what a step of either side adds.
-/

namespace ZeroRPC
namespace Core

open Library

/-! ### Payloads and frames -/

/-- The encoded form of a payload, if it has one, fits the receive buffer. -/
def EncodedFits (brotli : Brotli) (type : CompressionType) (data : Bytes) : Prop :=
  match encodeString brotli type data with
  | .ok encoded => encoded.length ≤ BUFFER_SIZE
  | .error _ => True

instance EncodedFits.decidable (brotli : Brotli) (type : CompressionType) (data : Bytes) :
    Decidable (EncodedFits brotli type data) :=
  match h : encodeString brotli type data with
  | .ok encoded => decidable_of_iff (encoded.length ≤ BUFFER_SIZE) (by rw [EncodedFits, h])
  | .error _ => isTrue (by rw [EncodedFits, h]; trivial)

/-- The frame of a payload that can be encoded. -/
def frame? (host : Endian) (brotli : Brotli) (type : CompressionType) (data : Bytes) :
    Option Bytes :=
  match encodeString brotli type data with
  | .ok encoded => some (frame host encoded)
  | .error _ => none

/-- The payloads that are encoded and fit, as messages. -/
theorem EncodedFits.sent
    {brotli : Brotli}
    {type : CompressionType}
    (host : Endian)
    {payload : List Bytes}
    (hfits : ∀ data ∈ payload, EncodedFits brotli type data)
    (hencodes : ∀ data ∈ payload, ∃ encoded, encodeString brotli type data = .ok encoded) :
    ∃ sent : List (Sent brotli),
      payload.filterMap (frame? host brotli type) = sent.map (fun m => frame host m.encoded) ∧
        payload = sent.map Sent.plain := by
  induction payload with
  | nil => exact ⟨[], rfl, rfl⟩
  | cons data payload ih =>
      obtain ⟨sent, hframes, hpayload⟩ := ih
        (fun d hd => hfits d (List.mem_cons_of_mem _ hd))
        (fun d hd => hencodes d (List.mem_cons_of_mem _ hd))
      obtain ⟨encoded, hencode⟩ := hencodes data (List.mem_cons_self ..)
      have hdata := hfits data (List.mem_cons_self ..)
      simp only [EncodedFits, hencode] at hdata
      have hframe : frame? host brotli type data = some (frame host encoded) := by
        simp only [frame?, hencode]
      refine ⟨⟨type, data, encoded, hencode, hdata⟩ :: sent, ?_, ?_⟩
      · rw [List.filterMap_cons_some hframe, hframes, List.map_cons]
      · rw [List.map_cons, ← hpayload]

/-! ### One step of a sender -/

/-- What a channel has given to the kernel, what was queued, and how it encodes. -/
structure Outgoing where
  kernel : Bytes
  queued : List Bytes
  type : CompressionType

/-- What a step with this payload adds. -/
structure Adds (host : Endian) (brotli : Brotli) (payload : List Bytes) (o o' : Outgoing) :
    Prop where
  kernel : o.kernel <+: o'.kernel
  queued : o'.queued = o.queued ++ payload.filterMap (frame? host brotli o.type)
  encodes : ∀ data ∈ payload, ∃ encoded, encodeString brotli o.type data = .ok encoded
  type : o'.type = o.type

/-- With every frame in the kernel or still to be sent, what a step adds to the kernel comes
from the front of what was to be sent. -/
theorem Adds.flow
    {host : Endian}
    {brotli : Brotli}
    {payload : List Bytes}
    {o o' : Outgoing}
    {left left' : Bytes}
    (h : Adds host brotli payload o o')
    (hfits : ∀ data ∈ payload, EncodedFits brotli o.type data)
    (hbefore : o.kernel ++ left = o.queued.flatten)
    (hafter : o'.kernel ++ left' = o'.queued.flatten) :
    ∃ sent : List (Sent brotli),
      payload = sent.map Sent.plain ∧
        o'.queued = o.queued ++ sent.map (fun m => frame host m.encoded) ∧
          left ++ (sent.map fun m => frame host m.encoded).flatten =
            o'.kernel.drop o.kernel.length ++ left' := by
  obtain ⟨sent, hframes, hpayload⟩ := EncodedFits.sent host hfits h.encodes
  have hqueued := h.queued
  rw [hframes] at hqueued
  obtain ⟨gained, hgained⟩ := h.kernel
  refine ⟨sent, hpayload, hqueued, ?_⟩
  rw [hqueued, List.flatten_append, ← hbefore, ← hgained, List.append_assoc,
    List.append_assoc] at hafter
  rw [← hgained, List.drop_left]
  exact (List.append_cancel_left hafter).symm

/-! ### The server -/

/-- The payload of a `write_data`. -/
def SendEvent.payload : SendEvent → List Bytes
  | .writeData _ data => [data]
  | _ => []

namespace ServerChannel

variable {host : Endian} {brotli : Brotli} {s s' : ServerChannel} {e : SendEvent}

theorem account_compressionType (channel : SocketChannel) (message : Bytes) (n : Nat) :
    (account channel message n).compressionType = channel.compressionType := by
  rw [account]
  split <;> rfl

/-- What goes out. -/
def outgoing (s : ServerChannel) : Outgoing :=
  ⟨s.kernel, s.queued, s.channel.compressionType⟩

theorem step_adds
    (hstep : step host brotli s e = some s') :
    Adds host brotli e.payload s.outgoing s'.outgoing := by
  simp only [step, Option.ite_none_left_eq_some] at hstep
  obtain ⟨-, hstep⟩ := hstep
  cases e with
  | writeData t data =>
      simp only [Option.ite_none_right_eq_some] at hstep
      obtain ⟨-, hstep⟩ := hstep
      simp only [SocketChannel.writeData] at hstep
      cases hencode : encodeString brotli s.channel.compressionType data with
      | error e =>
          rw [hencode] at hstep
          cases hstep
      | ok encoded =>
          rw [hencode] at hstep
          cases hstep
          refine ⟨List.prefix_rfl, ?_, ?_, rfl⟩
          · simp [SendEvent.payload, frame?, hencode, goto, outgoing]
          · intro d hd
            rw [List.mem_singleton.mp hd]
            exact ⟨encoded, hencode⟩
  | trySend t =>
      simp only [Option.ite_none_right_eq_some, Option.some.injEq] at hstep
      obtain ⟨-, rfl⟩ := hstep
      exact ⟨List.prefix_rfl, (List.append_nil _).symm, List.forall_mem_nil _, rfl⟩
  | advance t result =>
      cases advance_moves hstep with
      | sent _ _ _ =>
          exact ⟨List.prefix_append _ _, (List.append_nil _).symm, List.forall_mem_nil _,
            account_compressionType _ _ _⟩
      | _ => exact ⟨List.prefix_rfl, (List.append_nil _).symm, List.forall_mem_nil _, rfl⟩
  | close =>
      cases hstep
      exact ⟨List.prefix_rfl, (List.append_nil _).symm, List.forall_mem_nil _, rfl⟩

end ServerChannel

/-! ### The client -/

/-- The payload of a `send_message`. -/
def ClientSendEvent.payload : ClientSendEvent → List Bytes
  | .sendMessage _ data => [data]
  | _ => []

namespace ClientChannel

variable {host : Endian} {brotli : Brotli} {s s' : ClientChannel} {e : ClientSendEvent}

/-- The message in hand and the messages in the queue. -/
def left (s : ClientChannel) : Bytes := s.held ++ s.channel.sendMessages.flatten

/-- What goes out. -/
def outgoing (s : ClientChannel) : Outgoing :=
  ⟨s.kernel, s.queued, s.channel.compressionType⟩

theorem step_adds
    (hstep : step host brotli s e = some s') :
    Adds host brotli e.payload s.outgoing s'.outgoing := by
  cases e with
  | sendMessage t data =>
      simp only [step, Option.ite_none_right_eq_some] at hstep
      obtain ⟨-, hstep⟩ := hstep
      simp only [SocketChannel.writeData] at hstep
      cases hencode : encodeString brotli s.channel.compressionType data with
      | error e =>
          rw [hencode] at hstep
          cases hstep
      | ok encoded =>
          rw [hencode] at hstep
          cases hstep
          refine ⟨List.prefix_rfl, ?_, ?_, rfl⟩
          · simp [ClientSendEvent.payload, frame?, hencode, goto, outgoing]
          · intro d hd
            rw [List.mem_singleton.mp hd]
            exact ⟨encoded, hencode⟩
  | advance t result =>
      cases advance_moves hstep with
      | sent _ _ _ =>
          exact ⟨List.prefix_append _ _, (List.append_nil _).symm, List.forall_mem_nil _, rfl⟩
      | _ => exact ⟨List.prefix_rfl, (List.append_nil _).symm, List.forall_mem_nil _, rfl⟩
  | disconnect =>
      cases hstep
      exact ⟨List.prefix_rfl, (List.append_nil _).symm, List.forall_mem_nil _, rfl⟩

theorem kernel_left
    (h : Unbroken s) :
    s.kernel ++ s.left = s.queued.flatten := by
  rw [left, ← List.append_assoc]
  exact h

end ClientChannel

end Core
end ZeroRPC
