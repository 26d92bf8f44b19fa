import ZeroRPC.Core.Attended
import ZeroRPC.Core.Traffic

/-!
# From a client to the server

The threads of a client send on one channel, a whole frame with each `::send`; the bytes
come to the tasks of one descriptor of the server, cut anywhere, with a report for what
has arrived.  The tasks work on one buffer and one queue and do not cut into one another.

Main facts:
* `Connection.step_ahead`: what is still to be sent does not matter to a step of the server;
* `Connected.step`: the frames, from the first `send_message` to the callback;
* `uplink_in_order`: the callback is handed what was sent, in order and once each, in every
  run of such steps; all of it, when nothing is on its way and the server is at rest.
-/

namespace ZeroRPC
namespace Core

open Library

namespace Connection

/-- The connection when `rest` will come behind what the client has sent. -/
def ahead (s : Connection) (rest : Bytes) : Connection := { s with wire := s.wire ++ rest }

section Ahead

variable {host : Endian} {brotli : Brotli} {s s' : Connection} (rest : Bytes)

theorem reorder_ahead (t : Nat) (before after : Point) :
    reorder t before after (s.ahead rest) = (reorder t before after s).ahead rest := by
  unfold reorder
  split <;> rfl

theorem advance_ahead (t n : Nat) :
    (s.ahead rest).advance host brotli t n =
      (s.advance host brotli t n).map fun s' => s'.ahead rest := by
  have htasks : (s.ahead rest).tasks t = s.tasks t := rfl
  cases ht : s.tasks t with
  | reading =>
      simp only [advance, htasks, ht]
      by_cases hempty : s.socket = []
      · rw [if_pos hempty, if_pos (show (s.ahead rest).socket = [] from hempty)]
        rfl
      · rw [if_neg hempty, if_neg (show ¬ (s.ahead rest).socket = [] from hempty)]
        by_cases hn : 0 < n ∧ n ≤ min BUFFER_SIZE s.socket.length
        · rw [if_pos hn, if_pos (show _ ∧ n ≤ min BUFFER_SIZE (s.ahead rest).socket.length from hn)]
          rfl
        · rw [if_neg hn,
            if_neg (show ¬ (_ ∧ n ≤ min BUFFER_SIZE (s.ahead rest).socket.length) from hn)]
          rfl
  | enqueuing chunk =>
      simp only [advance, htasks, ht]
      have hchannel : (s.ahead rest).channel = s.channel := rfl
      rw [hchannel]
      cases s.channel.readBuffer.enqueue chunk <;> rfl
  | parsing point last =>
      simp only [advance, htasks, ht]
      have hchannel : (s.ahead rest).channel = s.channel := rfl
      rw [hchannel]
      cases parseStep host brotli true s.channel point with
      | error e => rfl
      | ok p =>
          simp only [Option.map_some, ← reorder_ahead]
          rfl
  | _ =>
      simp only [advance, htasks, ht]
      rfl

/-- A step that does not depend on the end of the stream is a step all the same. -/
theorem step_ahead
    {e : ConnectionEvent}
    (hopen : ∀ t, e ≠ .hangUp t)
    (hstep : step host brotli s e = some s') :
    step host brotli (s.ahead rest) e = some (s'.ahead rest) := by
  have hended : (s.ahead rest).ended = s.ended := rfl
  simp only [step, Option.ite_none_left_eq_some, hended] at hstep ⊢
  obtain ⟨hnone, hstep⟩ := hstep
  refine ⟨hnone, ?_⟩
  cases e with
  | arrive n =>
      simp only [Option.ite_none_right_eq_some, Option.some.injEq] at hstep ⊢
      obtain ⟨⟨hpos, hn⟩, rfl⟩ := hstep
      have htake : (s.wire ++ rest).take n = s.wire.take n := List.take_append_of_le_length hn
      have hdrop : (s.wire ++ rest).drop n = s.wire.drop n ++ rest :=
        List.drop_append_of_le_length hn
      refine ⟨⟨hpos, hn.trans (by simp [ahead])⟩, ?_⟩
      simp only [ahead, htake, hdrop]
  | modify =>
      simp only [Option.ite_none_left_eq_some, Option.some.injEq] at hstep ⊢
      obtain ⟨hne, rfl⟩ := hstep
      exact ⟨hne, rfl⟩
  | dispatch t =>
      simp only [Option.ite_none_right_eq_some, Option.some.injEq] at hstep ⊢
      obtain ⟨hready, rfl⟩ := hstep
      exact ⟨hready, rfl⟩
  | advance t n =>
      have hstep : s.advance host brotli t n = some s' := hstep
      show (s.ahead rest).advance host brotli t n = some (s'.ahead rest)
      rw [advance_ahead, hstep]
      rfl
  | hangUp t => exact absurd rfl (hopen t)

end Ahead

end Connection

section Reading

variable {sender receiver : Endian} {brotli : Brotli} {messages : List (Sent brotli)}
  {s s' : Connection} {content rest : Bytes}

/-- One more message is sent. -/
theorem Reading.extend
    (h : Reading sender messages (s.ahead rest) content)
    (m : Sent brotli) :
    Reading sender (messages ++ [m]) (s.ahead (rest ++ frame sender m.encoded)) content := by
  obtain ⟨hbuffer, ⟨hand, hclaims, hline⟩, hqueue, hdefined⟩ := h
  refine ⟨hbuffer, ⟨hand, hclaims, ?_⟩, hqueue, hdefined⟩
  have hline := hline.extend m
  simpa only [Connection.upcoming, Connection.ahead, frame, List.append_assoc] using hline

theorem Reading.extendAll
    (h : Reading sender messages (s.ahead rest) content)
    (more : List (Sent brotli)) :
    Reading sender (messages ++ more)
      (s.ahead (rest ++ (more.map fun m => frame sender m.encoded).flatten)) content := by
  induction more generalizing messages rest with
  | nil => simpa using h
  | cons m more ih =>
      have hmore := ih (h.extend m)
      simpa only [List.append_assoc, List.singleton_append, List.map_cons,
        List.flatten_cons] using hmore

/-- A step of the server that does not cut in, with `rest` still to be sent. -/
theorem Reading.step_ahead
    (hlossless : brotli.Lossless)
    {e : ConnectionEvent}
    (h : Reading sender messages (s.ahead rest) content)
    (hok : Orderly s e)
    (hstep : Connection.step receiver brotli s e = some s') :
    ∃ content', Reading sender messages (s'.ahead rest) content' := by
  by_cases hopen : ∀ t, e ≠ .hangUp t
  · have hok : Orderly (s.ahead rest) e := by
      cases e <;> exact hok
    exact h.step hlossless hok (Connection.step_ahead rest hopen hstep)
  · push Not at hopen
    obtain ⟨t, rfl⟩ := hopen
    simp only [Connection.step, Option.ite_none_left_eq_some, Option.ite_none_right_eq_some,
      Option.some.injEq] at hstep
    obtain ⟨-, ⟨ht, -⟩, rfl⟩ := hstep
    have hmoved := h.move (t := t) (by rw [show (s.ahead rest).tasks t = s.tasks t from rfl, ht]; rfl)
      .finished rfl
    exact ⟨content, hmoved⟩

/-- At rest, with nothing to come, every message was handed over. -/
theorem Reading.handed_eq
    (h : Reading sender messages s content)
    (hidle : Idle s)
    (hdone : AllDone s)
    (hwire : s.wire = []) :
    s.handed = messages.map Sent.plain := by
  obtain ⟨hbuffer, ⟨hand, hclaims, hline⟩, hqueue, -⟩ := h
  have hnone : ∀ u, (s.tasks u).claims = false := by
    refine hidle.none ?_
    intro task htask
    cases task with
    | parsing point last => rfl
    | _ => cases htask
  obtain rfl := hclaims.eq_empty hnone
  have hsize := hbuffer.size_eq
  have hless := hdone.buffer
  simp only [Connection.upcoming, hdone.reads, hdone.takes, hdone.socket, hdone.length, hwire,
    List.map_nil, List.flatten_nil, List.append_nil] at hline
  have hpushed := hline.pushed_eq (fun m _ => m.header_length sender)
    (fun m _ => m.encoded_ne_nil) (hsize ▸ hless)
  rw [← hpushed, hqueue, hdone.pops, hdone.messages]
  simp

end Reading

/-- A step hands over one message at most, in a task. -/
theorem Connection.step_handed
    {host : Endian}
    {brotli : Brotli}
    {s s' : Connection}
    {e : ConnectionEvent}
    (hstep : step host brotli s e = some s') :
    s'.handed = s.handed ∨ ∃ t n data, e = .advance t n ∧ s'.handed = s.handed ++ [data] := by
  obtain ⟨-, hmoves⟩ := step_moves hstep
  cases hmoves with
  | @parse t n point last p ht hp =>
      obtain ⟨-, -, -, -, -, -, -, hhanded⟩ := reorder_rest t point p.point
        { s with
          channel := p.channel
          tasks := Function.update s.tasks t (proceed p.point last)
          pushed := s.pushed ++ p.pushed
          handed := s.handed ++ p.handed }
      rw [hhanded]
      cases parseStep_moves hp with
      | @handOver message => exact .inr ⟨t, n, message, rfl, rfl⟩
      | _ => exact .inl (List.append_nil _)
  | _ => exact .inl rfl

/-! ### The link -/

/-- A client, a descriptor of the server at the other end, and the payloads given to
`send_message` in the order of their frames. -/
structure Uplink where
  client : ClientChannel
  server : Connection
  written : List Bytes

inductive UplinkEvent
  | client (e : ClientSendEvent)
  | server (e : ConnectionEvent)

namespace Uplink

def init (type : CompressionType) (data data' : Nat → UInt8) : Uplink where
  client := .init type data
  server := .init type data' []
  written := []

/-- The end of the stream comes when the client is disconnected. -/
def mayHappen (s : Uplink) : ConnectionEvent → Bool
  | .hangUp _ => !s.client.running
  | _ => true

/-- What `::send` accepts is on its way to the server. -/
def step (sender receiver : Endian) (brotli : Brotli) (s : Uplink) :
    UplinkEvent → Option Uplink
  | .client e =>
      match ClientChannel.step sender brotli s.client e with
      | none => none
      | some client =>
          some { s with
            client := client
            server := { s.server with
              wire := s.server.wire ++ client.kernel.drop s.client.kernel.length }
            written := s.written ++ e.payload }
  | .server e =>
      if s.mayHappen e then
        match Connection.step receiver brotli s.server e with
        | none => none
        | some server => some { s with server := server }
      else
        none

def system (sender receiver : Endian) (brotli : Brotli) (type : CompressionType)
    (data data' : Nat → UInt8) : System Uplink UplinkEvent where
  init := init type data data'
  step := step sender receiver brotli

/-- What is written fits the receive buffer, each `::send` accepts a whole frame, and the
tasks of the server do not cut in. -/
def Undisturbed (brotli : Brotli) (s : Uplink) : UplinkEvent → Prop
  | .client e =>
      AcceptsWhole s.client e ∧
        ∀ data ∈ e.payload, EncodedFits brotli s.client.channel.compressionType data
  | .server e => Orderly s.server e

/-- Nothing is on its way and the server is at rest. -/
structure Quiet (s : Uplink) : Prop where
  left : s.client.left = []
  wire : s.server.wire = []
  idle : Idle s.server

/-- The invariant of the link. -/
structure Connected (sender : Endian) {brotli : Brotli} (messages : List (Sent brotli))
    (s : Uplink) : Prop where
  handing : Handing s.client
  queued : s.client.queued = messages.map fun m => frame sender m.encoded
  written : s.written = messages.map Sent.plain
  attended : Attended s.server
  reading : ∃ content, Reading sender messages (s.server.ahead s.client.left) content

variable {sender receiver : Endian} {brotli : Brotli} {messages : List (Sent brotli)}
  {s t : Uplink}

theorem connected_init (type : CompressionType) (data data' : Nat → UInt8) :
    Connected sender ([] : List (Sent brotli)) (init type data data') where
  handing := handing_init type data
  queued := rfl
  written := rfl
  attended := attended_init type data' []
  reading := ⟨[], reading_init type data'⟩

/-- A step of the client that sends a whole frame, or sends nothing. -/
theorem Connected.client
    {client : ClientChannel}
    {e : ClientSendEvent}
    (h : Connected sender messages s)
    (hok : Undisturbed brotli s (.client e))
    (hstep : ClientChannel.step sender brotli s.client e = some client) :
    ∃ sent, e.payload = sent.map Sent.plain ∧
      Connected sender (messages ++ sent)
        { s with
          client := client
          server := { s.server with
            wire := s.server.wire ++ client.kernel.drop s.client.kernel.length }
          written := s.written ++ e.payload } := by
  obtain ⟨hwhole, hfits⟩ := hok
  have hhanding := h.handing.step hwhole hstep
  obtain ⟨sent, hpayload, hqueued, hflow⟩ := (ClientChannel.step_adds hstep).flow hfits
    (ClientChannel.kernel_left h.handing.unbroken)
    (ClientChannel.kernel_left hhanding.unbroken)
  obtain ⟨content, hreading⟩ := h.reading
  refine ⟨sent, hpayload, hhanding, ?_, ?_, ?_, content, ?_⟩
  · have hqueued : client.queued = s.client.queued ++ _ := hqueued
    rw [hqueued, h.queued, List.map_append]
  · rw [h.written, hpayload, List.map_append]
  · obtain ⟨hunread, hnoted, hbuffered, hmessages, hreads, htakes, hpops⟩ := h.attended
    exact ⟨hunread, hnoted, hbuffered, hmessages, hreads, htakes, hpops⟩
  · have hextended := hreading.extendAll sent
    rw [hflow] at hextended
    simpa only [Connection.ahead, ClientChannel.outgoing, List.append_assoc] using hextended

theorem Connected.server
    (hlossless : brotli.Lossless)
    {server : Connection}
    {e : ConnectionEvent}
    (h : Connected sender messages s)
    (hok : Orderly s.server e)
    (hstep : Connection.step receiver brotli s.server e = some server) :
    Connected sender messages { s with server := server } := by
  obtain ⟨content, hreading⟩ := h.reading
  exact ⟨h.handing, h.queued, h.written, h.attended.step hstep,
    hreading.step_ahead hlossless hok hstep⟩

/-- **Every undisturbed step keeps the invariant of the link.** -/
theorem Connected.step
    (hlossless : brotli.Lossless)
    {e : UplinkEvent}
    (h : Connected sender messages s)
    (hok : Undisturbed brotli s e)
    (hstep : step sender receiver brotli s e = some t) :
    ∃ sent, Connected sender (messages ++ sent) t := by
  cases e with
  | client e =>
      simp only [Uplink.step] at hstep
      cases hclient : ClientChannel.step sender brotli s.client e with
      | none =>
          rw [hclient] at hstep
          cases hstep
      | some client =>
          rw [hclient] at hstep
          cases hstep
          obtain ⟨sent, -, hconnected⟩ := h.client hok hclient
          exact ⟨sent, hconnected⟩
  | server e =>
      simp only [Uplink.step, Option.ite_none_right_eq_some] at hstep
      obtain ⟨-, hstep⟩ := hstep
      cases hserver : Connection.step receiver brotli s.server e with
      | none =>
          rw [hserver] at hstep
          cases hstep
      | some server =>
          rw [hserver] at hstep
          cases hstep
          exact ⟨[], by simpa using h.server hlossless hok hserver⟩

theorem Connected.handed_prefix
    (h : Connected sender messages s) :
    s.server.handed <+: s.written := by
  obtain ⟨content, hreading⟩ := h.reading
  rw [h.written]
  exact hreading.handed_prefix

theorem Connected.handed_eq
    (h : Connected sender messages s)
    (hquiet : s.Quiet) :
    s.server.handed = s.written := by
  obtain ⟨content, hreading⟩ := h.reading
  have hsame : s.server.ahead s.client.left = s.server := by
    rw [hquiet.left, Connection.ahead, List.append_nil]
  rw [hsame] at hreading
  rw [h.written]
  exact hreading.handed_eq hquiet.idle (h.attended.allDone hquiet.idle) hquiet.wire

/-- A step of the client writes its payload and hands nothing over. -/
theorem step_client
    {e : ClientSendEvent}
    (hstep : step sender receiver brotli s (.client e) = some t) :
    t.written = s.written ++ e.payload ∧ t.server.handed = s.server.handed := by
  simp only [step] at hstep
  cases hclient : ClientChannel.step sender brotli s.client e with
  | none =>
      rw [hclient] at hstep
      cases hstep
  | some client =>
      rw [hclient] at hstep
      cases hstep
      exact ⟨rfl, rfl⟩

/-- A step of the server writes nothing and hands over one message at most. -/
theorem step_server
    {e : ConnectionEvent}
    (hstep : step sender receiver brotli s (.server e) = some t) :
    t.written = s.written ∧
      (t.server.handed = s.server.handed ∨
        ∃ task n data, e = .advance task n ∧ t.server.handed = s.server.handed ++ [data]) := by
  simp only [step, Option.ite_none_right_eq_some] at hstep
  obtain ⟨-, hstep⟩ := hstep
  cases hserver : Connection.step receiver brotli s.server e with
  | none =>
      rw [hserver] at hstep
      cases hstep
  | some server =>
      rw [hserver] at hstep
      cases hstep
      exact ⟨rfl, Connection.step_handed hserver⟩

def plainUplink : System Uplink UplinkEvent :=
  system .little .big .identity .none (fun _ => 0) fun _ => 0

/-- A client sends one frame. -/
def sends : List UplinkEvent :=
  [.client (.sendMessage 0 [104, 105]), .client (.advance 0 .again),
    .client (.advance 0 .again), .client (.advance 0 .again), .client (.advance 0 .again),
    .client (.advance 0 (.sent 7)), .client (.advance 0 .again)]

/-- One task of the server reads it and goes on to the end. -/
def receives : List UplinkEvent :=
  [.server (.arrive 7), .server (.dispatch 0), .server (.advance 0 7)] ++
    List.replicate 19 (.server (.advance 0 0))

def received : Uplink := (plainUplink.run (sends ++ receives)).getD plainUplink.init

theorem received_quiet : received.Quiet where
  left := rfl
  wire := rfl
  idle := by
    refine ⟨rfl, ?_⟩
    intro t
    rcases t with _ | t <;> rfl

end Uplink

end Core
end ZeroRPC
