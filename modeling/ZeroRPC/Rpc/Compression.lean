import ZeroRPC.Core.Channel
import ZeroRPC.Library.Transition

/-!
# The compression that is used

The algorithm is kept in three places.  `set_compress_algo` of an `Rpc_Server` or an
`Rpc_Client` stores it in the object; the `Tcp_Server` or `Tcp_Client` inside has a field of
its own, from `Network`, which a new channel gets; and `encode_string` follows the channel.
Nothing takes the first field to the second.

A server opens a channel for each connection it accepts, a client the one of its
`run`.  What is received, parsed and sent afterwards leaves the algorithm of a channel alone.

Main facts:
* `Opened.step`: every channel has the algorithm of a new `Network`;
* `goesOutWith_iff`: what a channel without compression writes carries no algorithm;
* `chosen_on_wire_iff`: it is the chosen one exactly when no compression was chosen.
-/

namespace ZeroRPC

open Library

/-- `Socket_Channel::set_compress_algo`. -/
def Core.SocketChannel.setCompressAlgo (channel : SocketChannel) (type : CompressionType) :
    SocketChannel :=
  { channel with compressionType := type }

/-- The body that an algorithm makes of a payload. -/
def Core.CompressionType.Encodes
    (brotli : Brotli)
    (payload body : Bytes) :
    CompressionType → Prop
  | .none => body = payload
  | .brotli => brotli.compress payload = .ok body

namespace Rpc

open ZeroRPC.Core

/-- The part of `Network` that is about compression. -/
structure Network where
  compressionType : CompressionType

def Network.init : Network where
  compressionType := .none

/-- The channel of a new connection, in `Tcp_Server::handle_new_connections` and in
`Tcp_Client::run`. -/
def Network.openChannel (network : Network) (data : Nat → UInt8) : SocketChannel :=
  (SocketChannel.init .none data).setCompressAlgo network.compressionType

inductive Side
  | server
  | client
deriving DecidableEq

/-- An `Rpc_Server` with its `_server`, or an `Rpc_Client` with its `_tcpClient`, and the
channels opened so far. -/
structure Peer where
  compressionType : CompressionType
  network : Network
  running : Bool
  channels : List SocketChannel

inductive PeerEvent
  | run (data : Nat → UInt8)
  | accept (data : Nat → UInt8)
  | write (c : Nat) (payload : Bytes)
  | transmit (c : Nat)
  | receive (c : Nat) (chunk : Bytes)
  | parse (c : Nat) (point : Point)

namespace Peer

def init : Peer where
  compressionType := .none
  network := .init
  running := false
  channels := []

/-- `Rpc_Server::set_compress_algo` and `Rpc_Client::set_compress_algo`. -/
def setCompressAlgo (s : Peer) (type : CompressionType) : Peer :=
  { s with compressionType := type }

/-- A new object after the calls of `set_compress_algo` made before `run`. -/
def configured (types : List CompressionType) : Peer := types.foldl setCompressAlgo init

/-- An operation on one of the channels. -/
def operate (s : Peer) (c : Nat) (operation : SocketChannel → Option SocketChannel) :
    Option Peer :=
  match s.channels[c]? with
  | none => none
  | some channel =>
      match operation channel with
      | none => none
      | some channel => some { s with channels := s.channels.set c channel }

/-- `run`, and what happens afterwards: connections are accepted, payloads written and sent,
bytes received and parsed. -/
def step (side : Side) (host : Endian) (brotli : Brotli) (s : Peer) : PeerEvent → Option Peer
  | .run data =>
      if s.running then
        none
      else
        match side with
        | .server => some { s with running := true }
        | .client =>
            some { s with running := true, channels := [s.network.openChannel data] }
  | .accept data =>
      if side = .server ∧ s.running then
        some { s with channels := s.channels ++ [s.network.openChannel data] }
      else
        none
  | .write c payload =>
      s.operate c fun channel =>
        match channel.writeData host brotli payload with
        | .error _ => none
        | .ok (_, channel) => some channel
  | .transmit c =>
      s.operate c fun channel =>
        match channel.sendMessages with
        | [] => none
        | _ :: messages => some { channel with sendMessages := messages }
  | .receive c chunk =>
      s.operate c fun channel =>
        match channel.readBuffer.enqueue chunk with
        | .error _ => none
        | .ok buffer => some { channel with readBuffer := buffer }
  | .parse c point =>
      s.operate c fun channel =>
        match parseStep host brotli true channel point with
        | .error _ => none
        | .ok p => some p.channel

def system (side : Side) (host : Endian) (brotli : Brotli) (types : List CompressionType) :
    System Peer PeerEvent where
  init := configured types
  step := step side host brotli

end Peer

/-- The last algorithm set; without any it is `Compression_Type::None`. -/
def lastSet (types : List CompressionType) : CompressionType := types.getLast?.getD .none

/-- The frame has the tag byte of the algorithm, and then the payload encoded by it. -/
def Carries
    (host : Endian)
    (brotli : Brotli)
    (type : CompressionType)
    (payload message : Bytes) : Prop :=
  ∃ body, message = frame host (type.toByte :: body) ∧ type.Encodes brotli payload body

/-- A payload written to the channel goes out with the algorithm. -/
def GoesOutWith
    (host : Endian)
    (brotli : Brotli)
    (type : CompressionType)
    (channel : SocketChannel)
    (payload : Bytes) : Prop :=
  ∃ message channel', channel.writeData host brotli payload = .ok (message, channel') ∧
    Carries host brotli type payload message

/-! ### The three fields -/

theorem configured_eq (types : List CompressionType) :
    Peer.configured types = { Peer.init with compressionType := lastSet types } := by
  induction types using List.reverseRecOn with
  | nil => rfl
  | append_singleton types type ih =>
      rw [Peer.configured, List.foldl_append, lastSet, List.getLast?_concat]
      rw [Peer.configured] at ih
      rw [ih]
      rfl

/-- No operation of `parse_message` sets the algorithm. -/
theorem parseStep_compressionType
    {host : Endian}
    {brotli : Brotli}
    {channel : SocketChannel}
    {point : Point}
    {p : Parsed}
    (h : parseStep host brotli true channel point = .ok p) :
    p.channel.compressionType = channel.compressionType := by
  cases parseStep_moves h <;> rfl

/-- Every channel has the algorithm of the network, and that was never set. -/
structure Opened (s : Peer) : Prop where
  network : s.network = .init
  channels : ∀ channel ∈ s.channels, channel.compressionType = s.network.compressionType

section Steps

variable {s t : Peer} {c : Nat} {operation : SocketChannel → Option SocketChannel}

theorem opened_configured (types : List CompressionType) : Opened (Peer.configured types) := by
  rw [configured_eq]
  refine ⟨rfl, ?_⟩
  intro channel hmem
  cases hmem

theorem Opened.openChannel
    (h : Opened s)
    (data : Nat → UInt8) :
    Opened { s with channels := s.channels ++ [s.network.openChannel data] } where
  network := h.network
  channels := by
    intro channel hmem
    rcases List.mem_append.mp hmem with hmem | hmem
    · exact h.channels channel hmem
    · rw [List.mem_singleton.mp hmem]
      rfl

theorem Opened.operate
    (h : Opened s)
    (hoperation : ∀ channel channel', operation channel = some channel' →
      channel'.compressionType = channel.compressionType)
    (hstep : s.operate c operation = some t) :
    Opened t := by
  unfold Peer.operate at hstep
  cases hc : s.channels[c]? with
  | none =>
      rw [hc] at hstep
      cases hstep
  | some channel =>
      rw [hc] at hstep
      cases hresult : operation channel with
      | none =>
          simp only [hresult] at hstep
          cases hstep
      | some channel' =>
          simp only [hresult] at hstep
          cases hstep
          refine ⟨h.network, ?_⟩
          intro other hmem
          rcases List.mem_or_eq_of_mem_set hmem with hmem | rfl
          · exact h.channels other hmem
          · rw [hoperation channel other hresult]
            exact h.channels channel (List.mem_of_getElem? hc)

/-- **Every step leaves the channels with the algorithm of the network.** -/
theorem Opened.step
    {side : Side}
    {host : Endian}
    {brotli : Brotli}
    {e : PeerEvent}
    (h : Opened s)
    (hstep : Peer.step side host brotli s e = some t) :
    Opened t := by
  cases e with
  | run data =>
      simp only [Peer.step] at hstep
      by_cases hrunning : s.running = true
      · rw [if_pos hrunning] at hstep
        cases hstep
      · rw [if_neg hrunning] at hstep
        cases side with
        | server =>
            cases hstep
            exact ⟨h.network, h.channels⟩
        | client =>
            cases hstep
            refine ⟨h.network, ?_⟩
            intro channel hmem
            rw [List.mem_singleton.mp hmem]
            rfl
  | accept data =>
      simp only [Peer.step, Option.ite_none_right_eq_some, Option.some.injEq] at hstep
      obtain ⟨-, rfl⟩ := hstep
      exact h.openChannel data
  | write c payload =>
      refine h.operate ?_ hstep
      intro channel channel' hresult
      simp only [SocketChannel.writeData] at hresult
      cases hencode : encodeString brotli channel.compressionType payload with
      | error e =>
          rw [hencode] at hresult
          cases hresult
      | ok encoded =>
          rw [hencode] at hresult
          cases hresult
          rfl
  | transmit c =>
      refine h.operate ?_ hstep
      intro channel channel' hresult
      cases hqueue : channel.sendMessages with
      | nil =>
          simp only [hqueue] at hresult
          cases hresult
      | cons message messages =>
          simp only [hqueue] at hresult
          cases hresult
          rfl
  | receive c chunk =>
      refine h.operate ?_ hstep
      intro channel channel' hresult
      cases henqueue : channel.readBuffer.enqueue chunk with
      | error e =>
          simp only [henqueue] at hresult
          cases hresult
      | ok buffer =>
          simp only [henqueue] at hresult
          cases hresult
          rfl
  | parse c point =>
      refine h.operate ?_ hstep
      intro channel channel' hresult
      cases hparse : parseStep host brotli true channel point with
      | error e =>
          simp only [hparse] at hresult
          cases hresult
      | ok p =>
          simp only [hparse] at hresult
          cases hresult
          exact parseStep_compressionType hparse

end Steps

/-! ### What is written -/

section Written

variable {host : Endian} {brotli : Brotli} {type : CompressionType} {channel : SocketChannel}
  {payload : Bytes}

theorem encodeString_eq_iff
    {body : Bytes} :
    encodeString brotli type payload = .ok (type.toByte :: body) ↔
      type.Encodes brotli payload body := by
  cases type with
  | none =>
      rw [encodeString, CompressionType.Encodes]
      constructor
      · intro h
        exact (List.cons.inj (Except.ok.inj h)).2.symm
      · rintro rfl
        rfl
  | brotli =>
      rw [encodeString, CompressionType.Encodes]
      cases brotli.compress payload with
      | error e =>
          constructor
          · intro h
            cases h
          · intro h
            cases h
      | ok encoded =>
          constructor
          · intro h
            rw [(List.cons.inj (Except.ok.inj h)).2]
          · intro h
            rw [Except.ok.inj h]

/-- Two frames with the same bytes have the same encoded message. -/
theorem frame_inj
    {encoded encoded' : Bytes}
    (h : frame host encoded = frame host encoded') :
    encoded = encoded' := by
  have hlength : (header host encoded).length = (header host encoded').length := by
    rw [header, header, variant2mem_length, variant2mem_length]
  exact (List.append_inj h hlength).2

theorem toByte_inj
    {type' : CompressionType}
    (h : type.toByte = type'.toByte) :
    type = type' := by
  cases type with
  | none =>
      cases type' with
      | none => rfl
      | brotli => cases h
  | brotli =>
      cases type' with
      | none => cases h
      | brotli => rfl

/-- A channel without compression writes the payload as it is, and that carries no other
algorithm. -/
theorem goesOutWith_iff
    (hchannel : channel.compressionType = .none) :
    GoesOutWith host brotli type channel payload ↔ type = .none := by
  have hwrite : channel.writeData host brotli payload =
      .ok (frame host (CompressionType.none.toByte :: payload),
        channel.push (frame host (CompressionType.none.toByte :: payload))) := by
    rw [SocketChannel.writeData, hchannel]
    rfl
  constructor
  · rintro ⟨message, channel', hmessage, body, hframe, -⟩
    rw [hwrite] at hmessage
    cases hmessage
    have htag := (List.cons.inj (frame_inj hframe)).1
    exact (toByte_inj htag).symm
  · rintro rfl
    exact ⟨_, _, hwrite, payload, rfl, encodeString_eq_iff.mp rfl⟩

end Written

/-- **The algorithm chosen before `run` is the one on the wire exactly when the last one set
is no compression.** -/
theorem chosen_on_wire_iff
    (side : Side)
    (host : Endian)
    (brotli : Brotli)
    (types : List CompressionType)
    (es : List PeerEvent)
    (s : Peer)
    (channel : SocketChannel)
    (payload : Bytes)
    (hrun : (Peer.system side host brotli types).run es = some s)
    (hchannel : channel ∈ s.channels) :
    GoesOutWith host brotli (lastSet types) channel payload ↔ lastSet types = .none := by
  have hopened : Opened s := by
    refine (System.run_reachable hrun).invariant (opened_configured types) ?_
    rintro s e t hs - hstep
    exact hs.step hstep
  have hnone := hopened.channels channel hchannel
  rw [hopened.network] at hnone
  exact goesOutWith_iff hnone

/-! ### A server that was to compress -/

def accepted : SocketChannel := Network.init.openChannel fun _ => 0

theorem accepted_run (types : List CompressionType) :
    (Peer.system .server .little .identity types).run [.run fun _ => 0, .accept fun _ => 0] =
      some { Peer.configured types with running := true, channels := [accepted] } := by
  have hnetwork := (opened_configured types).network
  have hchannels : (Peer.configured types).channels = [] := by rw [configured_eq]; rfl
  have hrunning : (Peer.configured types).running = false := by rw [configured_eq]; rfl
  simp only [System.run, System.runFrom, Peer.system, Peer.step, hrunning, hchannels, hnetwork]
  rfl

theorem uncompressed_server :
    GoesOutWith .little .identity (lastSet [.brotli, .none]) accepted [104, 105] :=
  (chosen_on_wire_iff .server .little .identity [.brotli, .none] _ _ accepted [104, 105]
    (accepted_run [.brotli, .none]) List.mem_cons_self).mpr rfl

theorem compressing_server_does_not :
    ¬ ∀ side host brotli types es s channel payload,
      (Peer.system side host brotli types).run es = some s → channel ∈ s.channels →
        GoesOutWith host brotli (lastSet types) channel payload := by
  intro h
  have hgoes := h .server .little .identity [.brotli] _ _ accepted [104, 105]
    (accepted_run [.brotli]) List.mem_cons_self
  have hnone := (goesOutWith_iff rfl).mp hgoes
  cases hnone

end Rpc
end ZeroRPC
