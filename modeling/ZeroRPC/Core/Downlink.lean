import ZeroRPC.Core.Reassembly
import ZeroRPC.Core.Traffic

/-!
# From the server to the client

The threads of the server write to one channel and send what is queued, in pieces of any
size; the bytes that `send` accepted come to the one task of the client that is in
`Tcp_Client::read_data`, cut anywhere.  The task reads a chunk, looks at `errno`,
enqueues the chunk and parses, and does not read again before `parse_message` returns.

Main facts:
* `Collecting.step`: what the client has and what is on its way are the frames;
* `downlink_in_order`: the client is handed what was written, in order and once each, in
  every run; all of it, when nothing is on its way and the task is back at its `read`.
-/

namespace ZeroRPC
namespace Core

open Library

/-! ### `read` -/

def EAGAIN : Int := 11

def EWOULDBLOCK : Int := 11

/-- What a call of `read` returns: bytes, none of them at the end of the stream, or -1.
After bytes, what `errno` is once they were handled. -/
inductive ReadReturn
  | bytes (buffer : Bytes) (errnoAfter : Int)
  | failed (errno : Int)
deriving DecidableEq

namespace ReadReturn

/-- `n`. -/
def n : ReadReturn → Int
  | .bytes buffer _ => buffer.length
  | .failed _ => -1

/-- `errno` after the call, which sets it only when it fails. -/
def errno (before : Int) : ReadReturn → Int
  | .bytes _ _ => before
  | .failed errno => errno

/-- `buffer.begin()` to `buffer.begin() + n`. -/
def buffer : ReadReturn → Bytes
  | .bytes buffer _ => buffer
  | .failed _ => []

/-- `errno` once a chunk was enqueued and parsed. -/
def handled (before : Int) : ReadReturn → Int
  | .bytes _ errnoAfter => errnoAfter
  | .failed _ => before

end ReadReturn

/-! ### The task of the client -/

/-- Where the task stands in `read_data`.  A chunk that is read when `errno` does not say
"again" is dropped. -/
inductive ReadPoint
  | testing
  | reading
  | enqueuing (chunk : Bytes)
  | parsing (point : Point)
  | stopped (dropped : Bytes)
deriving DecidableEq

namespace ReadPoint

/-- Where the call of `parse_message` stands. -/
@[simp]
def parse : ReadPoint → Point
  | .parsing point => point
  | _ => .returned

/-- The chunk that was read and is not in the buffer. -/
@[simp]
def chunk : ReadPoint → Bytes
  | .enqueuing chunk => chunk
  | .stopped dropped => dropped
  | _ => []

end ReadPoint

/-- The client: its channel, `_running`, its task, and the bytes that `send` of the server
accepted and the task has not read. -/
structure ClientInput where
  channel : SocketChannel
  running : Bool
  errno : Int
  point : ReadPoint
  socket : Bytes
  ended : Option Fault
  pushed : List Bytes
  handed : List Bytes

inductive ReadEvent
  | advance
  | read (result : ReadReturn)
  | stop

namespace ClientInput

def init (type : CompressionType) (data : Nat → UInt8) (errno : Int) : ClientInput where
  channel := .init type data
  running := true
  errno := errno
  point := .testing
  socket := []
  ended := none
  pushed := []
  handed := []

/-- `disconnect()` and `break`. -/
def disconnect (s : ClientInput) (dropped : Bytes) : ClientInput :=
  { s with running := false, point := .stopped dropped }

/-- The results that `read` can have here; the end of the stream comes when the server has
closed the connection. -/
def MayReturn (closed : Bool) (s : ClientInput) : ReadReturn → Prop
  | .bytes buffer _ =>
      buffer <+: s.socket ∧ buffer.length ≤ BUFFER_SIZE ∧
        (buffer = [] → s.socket = [] ∧ closed = true)
  | .failed _ => True

instance MayReturn.decidable (closed : Bool) (s : ClientInput) :
    ∀ result, Decidable (s.MayReturn closed result)
  | .bytes buffer _ =>
      inferInstanceAs (Decidable (buffer <+: s.socket ∧ buffer.length ≤ BUFFER_SIZE ∧
        (buffer = [] → s.socket = [] ∧ closed = true)))
  | .failed _ => inferInstanceAs (Decidable True)

/-- What follows a `read`. -/
def afterRead (s : ClientInput) (result : ReadReturn) : ClientInput :=
  let errno := result.errno s.errno
  let s := { s with errno := errno, socket := s.socket.drop result.buffer.length }
  if result.n = 0 then
    s.disconnect []
  else if errno ≠ EAGAIN ∧ errno ≠ EWOULDBLOCK then
    s.disconnect result.buffer
  else if result.n > 0 then
    { s with errno := result.handled errno, point := .enqueuing result.buffer }
  else
    { s with point := .testing }

/-- Where the task goes after an operation of `parse_message`. -/
def proceed (point : Point) : ReadPoint :=
  if point = .returned then .testing else .parsing point

/-- The next step of the task, other than a `read`. -/
def advance (host : Endian) (brotli : Brotli) (s : ClientInput) : Option ClientInput :=
  match s.point with
  | .testing => some { s with point := if s.running then .reading else .stopped [] }
  | .reading => none
  | .enqueuing chunk =>
      match s.channel.readBuffer.enqueue chunk with
      | .error e => some { s with ended := some e }
      | .ok buffer =>
          some { s with
            channel := { s.channel with readBuffer := buffer }
            point := .parsing .head }
  | .parsing point =>
      match parseStep host brotli true s.channel point with
      | .error e => some { s with ended := some e }
      | .ok p =>
          some { s with
            channel := p.channel
            point := proceed p.point
            pushed := s.pushed ++ p.pushed
            handed := s.handed ++ p.handed }
  | .stopped _ => none

def step (host : Endian) (brotli : Brotli) (closed : Bool) (s : ClientInput) (e : ReadEvent) :
    Option ClientInput :=
  if s.ended ≠ none then
    none
  else
    match e with
    | .advance => s.advance host brotli
    | .read result =>
        if s.point = .reading ∧ s.MayReturn closed result then some (s.afterRead result) else none
    | .stop => some { s with running := false }

/-- What a step can be. -/
inductive Moves (host : Endian) (brotli : Brotli) (closed : Bool) (s : ClientInput) :
    ReadEvent → ClientInput → Prop
  | test (hpoint : s.point = .testing) :
      Moves host brotli closed s .advance
        { s with point := if s.running then .reading else .stopped [] }
  | enqueue {chunk : Bytes} {buffer : Buffer UInt8 BUFFER_SIZE}
      (hpoint : s.point = .enqueuing chunk)
      (hbuffer : s.channel.readBuffer.enqueue chunk = .ok buffer) :
      Moves host brotli closed s .advance
        { s with
          channel := { s.channel with readBuffer := buffer }
          point := .parsing .head }
  | parse {point : Point} {p : Parsed} (hpoint : s.point = .parsing point)
      (hp : parseStep host brotli true s.channel point = .ok p) :
      Moves host brotli closed s .advance
        { s with
          channel := p.channel
          point := proceed p.point
          pushed := s.pushed ++ p.pushed
          handed := s.handed ++ p.handed }
  | throws {e : Fault} : Moves host brotli closed s .advance { s with ended := some e }
  | read {result : ReadReturn} (hpoint : s.point = .reading) (h : s.MayReturn closed result) :
      Moves host brotli closed s (.read result) (s.afterRead result)
  | stop : Moves host brotli closed s .stop { s with running := false }

theorem step_moves
    {host : Endian}
    {brotli : Brotli}
    {closed : Bool}
    {s t : ClientInput}
    {e : ReadEvent}
    (h : step host brotli closed s e = some t) :
    Moves host brotli closed s e t := by
  simp only [step, Option.ite_none_left_eq_some] at h
  obtain ⟨-, h⟩ := h
  cases e with
  | advance =>
      cases hpoint : s.point with
      | testing =>
          simp only [advance, hpoint, Option.some.injEq] at h
          subst h
          exact .test hpoint
      | reading =>
          simp only [advance, hpoint] at h
          cases h
      | enqueuing chunk =>
          simp only [advance, hpoint] at h
          cases hbuffer : s.channel.readBuffer.enqueue chunk with
          | error e =>
              rw [hbuffer] at h
              cases h
              rw [← hpoint]
              exact .throws
          | ok buffer =>
              rw [hbuffer] at h
              cases h
              exact .enqueue hpoint hbuffer
      | parsing point =>
          simp only [advance, hpoint] at h
          cases hp : parseStep host brotli true s.channel point with
          | error e =>
              rw [hp] at h
              cases h
              rw [← hpoint]
              exact .throws
          | ok p =>
              rw [hp] at h
              cases h
              exact .parse hpoint hp
      | stopped dropped =>
          simp only [advance, hpoint] at h
          cases h
  | read result =>
      simp only [Option.ite_none_right_eq_some, Option.some.injEq] at h
      obtain ⟨⟨hpoint, hmay⟩, rfl⟩ := h
      exact .read hpoint hmay
  | stop =>
      cases h
      exact .stop

/-- A step hands over one message at most. -/
theorem step_handed
    {host : Endian}
    {brotli : Brotli}
    {closed : Bool}
    {s t : ClientInput}
    {e : ReadEvent}
    (hstep : step host brotli closed s e = some t) :
    t.handed = s.handed ∨ ∃ data, t.handed = s.handed ++ [data] := by
  cases step_moves hstep with
  | parse _ hp =>
      cases parseStep_moves hp with
      | @handOver message => exact .inr ⟨message, rfl⟩
      | _ => exact .inl (List.append_nil _)
  | read _ _ =>
      left
      unfold afterRead
      dsimp only
      split
      · rfl
      · split
        · rfl
        · split <;> rfl
  | _ => exact .inl rfl

/-- The client as a receiver of what is on its way and `rest`. -/
def receiver (s : ClientInput) (rest : Bytes) : Receiver where
  channel := s.channel
  point := s.point.parse
  due := 0
  upcoming := s.point.chunk ++ s.socket ++ rest
  pushed := s.pushed
  handed := s.handed

end ClientInput

/-! ### What the client has -/

section Invariant

variable {sender receiver : Endian} {brotli : Brotli} {messages : List (Sent brotli)}
  {rest content : Bytes} {s t : ClientInput}

/-- What the client has, what is on its way and `rest` are the frames; between two calls
of `parse_message` there is less than a frame. -/
structure Collecting (sender : Endian) (messages : List (Sent brotli)) (rest : Bytes)
    (s : ClientInput) (content : Bytes) : Prop where
  assembling : Assembling sender messages (s.receiver rest) content
  settled : s.point.parse = .returned →
    s.channel.readBufferLength = 0 ∧ content.length ≤ HEAD_LENGTH ∧ s.channel.readMessages = []

namespace Collecting

theorem init (type : CompressionType) (data : Nat → UInt8) (errno : Int) :
    Collecting sender ([] : List (Sent brotli)) [] (ClientInput.init type data errno) [] where
  assembling := assembling_init type data
  settled := fun _ => ⟨rfl, Nat.zero_le _, rfl⟩

/-- One more frame is queued. -/
theorem extend
    (h : Collecting sender messages rest s content)
    (m : Sent brotli) :
    Collecting sender (messages ++ [m]) (rest ++ frame sender m.encoded) s content where
  assembling := by
    obtain ⟨hbuffer, hline, hqueue, htested⟩ := h.assembling
    refine ⟨hbuffer, ?_, hqueue, htested⟩
    have hline := hline.extend m
    rw [ClientInput.receiver] at hline ⊢
    simpa only [frame, List.append_assoc] using hline
  settled := h.settled

theorem extendAll
    (h : Collecting sender messages rest s content)
    (more : List (Sent brotli)) :
    Collecting sender (messages ++ more)
      (rest ++ (more.map fun m => frame sender m.encoded).flatten) s content := by
  induction more generalizing messages rest with
  | nil => simpa using h
  | cons m more ih =>
      have hmore := ih (h.extend m)
      simpa only [List.append_assoc, List.singleton_append, List.map_cons,
        List.flatten_cons] using hmore

/-- Bytes get on their way. -/
theorem carry
    {gained rest' : Bytes}
    (h : Collecting sender messages rest s content)
    (hrest : rest = gained ++ rest') :
    Collecting sender messages rest' { s with socket := s.socket ++ gained } content where
  assembling := by
    have hassembling := h.assembling
    rw [hrest] at hassembling
    simpa only [ClientInput.receiver, List.append_assoc] using hassembling
  settled := h.settled

/-- The task goes on, with the same bytes in its hand and to come. -/
theorem move
    {point : ReadPoint}
    {socket : Bytes}
    {errno : Int}
    {running : Bool}
    (h : Collecting sender messages rest s content)
    (hreturned : s.point.parse = .returned)
    (hparse : point.parse = .returned)
    (hbytes : point.chunk ++ socket = s.point.chunk ++ s.socket) :
    Collecting sender messages rest
      { s with point := point, socket := socket, errno := errno, running := running }
      content where
  assembling := by
    have hassembling := h.assembling
    rw [ClientInput.receiver, hreturned, ← hbytes] at hassembling
    rw [ClientInput.receiver, hparse]
    exact hassembling
  settled := fun _ => h.settled hreturned

theorem read
    {closed : Bool}
    {result : ReadReturn}
    (h : Collecting sender messages rest s content)
    (hpoint : s.point = .reading)
    (hmay : s.MayReturn closed result) :
    Collecting sender messages rest (s.afterRead result) content := by
  have hreturned : s.point.parse = .returned := by rw [hpoint]; rfl
  have hchunk : s.point.chunk = [] := by rw [hpoint]; rfl
  have hbytes : result.buffer ++ s.socket.drop result.buffer.length = s.socket := by
    cases result with
    | failed errno => rfl
    | bytes buffer errnoAfter =>
        obtain ⟨suffix, hsuffix⟩ := hmay.1
        rw [← hsuffix]
        simp [ReadReturn.buffer]
  unfold ClientInput.afterRead
  dsimp only
  split
  case isTrue hzero =>
    -- at the end of the stream nothing was read
    have hnone : result.buffer = [] := by
      cases result with
      | failed errno => rfl
      | bytes buffer errnoAfter =>
          simp only [ReadReturn.n, Nat.cast_eq_zero, List.length_eq_zero_iff] at hzero
          exact hzero
    refine h.move hreturned rfl ?_
    rw [hchunk, hnone]
    rfl
  case isFalse =>
    split
    case isTrue =>
      refine h.move hreturned rfl ?_
      rw [hchunk]
      exact hbytes
    case isFalse =>
      split
      case isTrue =>
        refine h.move hreturned rfl ?_
        rw [hchunk]
        exact hbytes
      case isFalse hpos =>
        have hnone : result.buffer = [] := by
          cases result with
          | failed errno => rfl
          | bytes buffer errnoAfter =>
              simp only [ReadReturn.n, gt_iff_lt, Nat.cast_pos, List.length_pos_iff,
                ne_eq, not_not] at hpos
              exact hpos
        refine h.move hreturned rfl ?_
        rw [hchunk, hnone]
        rfl

theorem enqueue
    {chunk : Bytes}
    {buffer : Buffer UInt8 BUFFER_SIZE}
    (h : Collecting sender messages rest s content)
    (hpoint : s.point = .enqueuing chunk)
    (hbuffer : s.channel.readBuffer.enqueue chunk = .ok buffer) :
    Collecting sender messages rest
      { s with
        channel := { s.channel with readBuffer := buffer }
        point := .parsing .head } (content ++ chunk) where
  assembling := by
    obtain ⟨hholds, hline, hqueue, -⟩ := h.assembling
    refine ⟨hholds.of_enqueue hbuffer, ?_, ?_, trivial⟩
    · simpa [ClientInput.receiver, hpoint] using hline
    · simpa [ClientInput.receiver, hpoint] using hqueue
  settled := by
    intro hhead
    cases hhead

/-- An operation of `parse_message`. -/
theorem parse
    (hlossless : brotli.Lossless)
    {point : Point}
    {p : Parsed}
    (h : Collecting sender messages rest s content)
    (hpoint : s.point = .parsing point)
    (hp : parseStep receiver brotli true s.channel point = .ok p) :
    ∃ content', Collecting sender messages rest
      { s with
        channel := p.channel
        point := ClientInput.proceed p.point
        pushed := s.pushed ++ p.pushed
        handed := s.handed ++ p.handed } content' := by
  have hparse : (s.receiver rest).point = point := by
    simp only [ClientInput.receiver, hpoint, ReadPoint.parse]
  by_cases hreturned : point = .returned
  · subst hreturned
    cases hp
    refine ⟨content, ?_, fun _ => h.settled (by rw [hpoint]; rfl)⟩
    have hassembling := h.assembling
    simpa [ClientInput.receiver, ClientInput.proceed, hpoint] using hassembling
  have hadvances : Advances receiver sender messages (s.receiver rest) :=
    h.assembling.advance hlossless (by rwa [hparse])
  obtain ⟨p', content', hp', hkept⟩ := hadvances
  rw [hparse] at hp'
  obtain rfl : p = p' := Except.ok.inj (hp.symm.trans hp')
  have hchunk : (ClientInput.proceed p.point).chunk = [] := by
    rw [ClientInput.proceed]
    split <;> rfl
  have hnext : (ClientInput.proceed p.point).parse = p.point := by
    rw [ClientInput.proceed]
    split
    case isTrue h => rw [h]; rfl
    case isFalse => rfl
  refine ⟨content', ?_, ?_⟩
  · rw [ClientInput.receiver, hnext, hchunk]
    simpa only [Receiver.after, ClientInput.receiver, hpoint, ReadPoint.chunk] using hkept
  · intro hback
    rw [hnext] at hback
    -- the call returns only when the queue of messages is empty
    obtain ⟨hdrain, hmessages, hchannel, -, -⟩ := parseStep_returned hreturned hp hback
    have htested := h.assembling.tested
    rw [hparse, hdrain] at htested
    rw [hchannel]
    refine ⟨htested.1, ?_, hmessages⟩
    have hbefore := h.assembling.buffer.content
    have hafter := hkept.buffer.content
    have hsame : content' = content := by
      rw [← hafter, ← hbefore]
      simp only [Receiver.after, ClientInput.receiver, hchannel]
    rw [hsame]
    exact htested.2

/-- **Every step of the client keeps the line.** -/
theorem step
    (hlossless : brotli.Lossless)
    {closed : Bool}
    {e : ReadEvent}
    (h : Collecting sender messages rest s content)
    (hstep : ClientInput.step receiver brotli closed s e = some t) :
    ∃ content', Collecting sender messages rest t content' := by
  cases ClientInput.step_moves hstep with
  | test hpoint =>
      refine ⟨content, h.move (by rw [hpoint]; rfl) ?_ ?_⟩
      · split <;> rfl
      · rw [hpoint]
        split <;> rfl
  | enqueue hpoint hbuffer => exact ⟨_, h.enqueue hpoint hbuffer⟩
  | parse hpoint hp => exact h.parse hlossless hpoint hp
  | throws => exact ⟨content, h.assembling, h.settled⟩
  | read hpoint hmay => exact ⟨content, h.read hpoint hmay⟩
  | stop => exact ⟨content, h.assembling, h.settled⟩

theorem handed_prefix
    (h : Collecting sender messages rest s content) :
    s.handed <+: messages.map Sent.plain := by
  refine List.IsPrefix.trans ?_ h.assembling.line.pushed_prefix
  have hqueue := h.assembling.queue
  rw [hqueue, List.append_assoc]
  exact List.prefix_append _ _

/-- With nothing on its way and the task between two calls, everything was handed over. -/
theorem handed_eq
    (h : Collecting sender messages [] s content)
    (hreturned : s.point.parse = .returned)
    (hchunk : s.point.chunk = [])
    (hsocket : s.socket = []) :
    s.handed = messages.map Sent.plain := by
  obtain ⟨hzero, hshort, hmessages⟩ := h.settled hreturned
  obtain ⟨hbuffer, hline, hqueue, -⟩ := h.assembling
  simp only [ClientInput.receiver, hreturned, hchunk, hsocket, hzero, hmessages, Point.hand,
    Point.taken, Point.popped, List.append_nil] at hline hqueue
  rw [← hqueue]
  exact hline.pushed_eq (fun m _ => m.header_length sender) (fun m _ => m.encoded_ne_nil) hshort

end Collecting

end Invariant

/-! ### The link -/

/-- A channel of the server, the client at its other end, and the payloads given to
`write_data` in the order of their frames. -/
structure Downlink where
  server : ServerChannel
  client : ClientInput
  written : List Bytes

inductive DownlinkEvent
  | server (e : SendEvent)
  | client (e : ReadEvent)

namespace Downlink

def init (type : CompressionType) (data data' : Nat → UInt8) (errno : Int) : Downlink where
  server := .init type data
  client := .init type data' errno
  written := []

/-- What `send` accepts is on its way to the client. -/
def step (sender receiver : Endian) (brotli : Brotli) (s : Downlink) :
    DownlinkEvent → Option Downlink
  | .server e =>
      match ServerChannel.step sender brotli s.server e with
      | none => none
      | some server =>
          some { s with
            server := server
            client := { s.client with
              socket := s.client.socket ++ server.kernel.drop s.server.kernel.length }
            written := s.written ++ e.payload }
  | .client e =>
      match ClientInput.step receiver brotli s.server.closed s.client e with
      | none => none
      | some client => some { s with client := client }

def system (sender receiver : Endian) (brotli : Brotli) (type : CompressionType)
    (data data' : Nat → UInt8) (errno : Int) : System Downlink DownlinkEvent where
  init := init type data data' errno
  step := step sender receiver brotli

/-- What is written fits the receive buffer. -/
def FitsBuffer (brotli : Brotli) (s : Downlink) : DownlinkEvent → Prop
  | .server e => ∀ data ∈ e.payload, EncodedFits brotli s.server.channel.compressionType data
  | .client _ => True

instance FitsBuffer.decidable (brotli : Brotli) (s : Downlink) :
    ∀ e, Decidable (FitsBuffer brotli s e)
  | .server e => inferInstanceAs (Decidable (∀ data ∈ e.payload,
      EncodedFits brotli s.server.channel.compressionType data))
  | .client _ => isTrue trivial

/-- Nothing is on its way, and the task of the client is back at its `read` with nothing
dropped. -/
structure Quiet (s : Downlink) : Prop where
  unsent : unsent s.server.channel = []
  socket : s.client.socket = []
  returned : s.client.point.parse = .returned
  chunk : s.client.point.chunk = []

/-- The invariant of the link. -/
structure Flowing (sender : Endian) {brotli : Brotli} (messages : List (Sent brotli))
    (s : Downlink) : Prop where
  sending : Sending s.server
  queued : s.server.queued = messages.map fun m => frame sender m.encoded
  written : s.written = messages.map Sent.plain
  collecting : ∃ content, Collecting sender messages (Core.unsent s.server.channel) s.client content

variable {sender receiver : Endian} {brotli : Brotli} {messages : List (Sent brotli)}
  {s t : Downlink}

theorem flowing_init (type : CompressionType) (data data' : Nat → UInt8) (errno : Int) :
    Flowing sender ([] : List (Sent brotli)) (init type data data' errno) where
  sending := sending_init type data
  queued := rfl
  written := rfl
  collecting := ⟨[], .init type data' errno⟩

/-- A step of the server sends some of what was to be sent, or queues one more message. -/
theorem Flowing.server
    {server : ServerChannel}
    {e : SendEvent}
    (h : Flowing sender messages s)
    (hfits : ∀ data ∈ e.payload, EncodedFits brotli s.server.channel.compressionType data)
    (hstep : ServerChannel.step sender brotli s.server e = some server) :
    ∃ sent, e.payload = sent.map Sent.plain ∧
      Flowing sender (messages ++ sent)
        { s with
          server := server
          client := { s.client with
            socket := s.client.socket ++ server.kernel.drop s.server.kernel.length }
          written := s.written ++ e.payload } := by
  have hsending := h.sending.step hstep
  obtain ⟨sent, hpayload, hqueued, hflow⟩ :=
    (ServerChannel.step_adds hstep).flow hfits h.sending.intact.1 hsending.intact.1
  obtain ⟨content, hcollecting⟩ := h.collecting
  refine ⟨sent, hpayload, hsending, ?_, ?_, content, (hcollecting.extendAll sent).carry hflow⟩
  · have hqueued : server.queued = s.server.queued ++ _ := hqueued
    rw [hqueued, h.queued, List.map_append]
  · rw [h.written, hpayload, List.map_append]

theorem Flowing.client
    (hlossless : brotli.Lossless)
    {client : ClientInput}
    {e : ReadEvent}
    (h : Flowing sender messages s)
    (hstep : ClientInput.step receiver brotli s.server.closed s.client e = some client) :
    Flowing sender messages { s with client := client } := by
  obtain ⟨content, hcollecting⟩ := h.collecting
  exact ⟨h.sending, h.queued, h.written, hcollecting.step hlossless hstep⟩

/-- **Every step keeps the invariant of the link.** -/
theorem Flowing.step
    (hlossless : brotli.Lossless)
    {e : DownlinkEvent}
    (h : Flowing sender messages s)
    (hfits : FitsBuffer brotli s e)
    (hstep : step sender receiver brotli s e = some t) :
    ∃ sent, Flowing sender (messages ++ sent) t := by
  cases e with
  | server e =>
      simp only [Downlink.step] at hstep
      cases hserver : ServerChannel.step sender brotli s.server e with
      | none =>
          rw [hserver] at hstep
          cases hstep
      | some server =>
          rw [hserver] at hstep
          cases hstep
          obtain ⟨sent, -, hflowing⟩ := h.server hfits hserver
          exact ⟨sent, hflowing⟩
  | client e =>
      simp only [Downlink.step] at hstep
      cases hclient : ClientInput.step receiver brotli s.server.closed s.client e with
      | none =>
          rw [hclient] at hstep
          cases hstep
      | some client =>
          rw [hclient] at hstep
          cases hstep
          exact ⟨[], by simpa using h.client hlossless hclient⟩

theorem Flowing.handed_prefix
    (h : Flowing sender messages s) :
    s.client.handed <+: s.written := by
  obtain ⟨content, hcollecting⟩ := h.collecting
  rw [h.written]
  exact hcollecting.handed_prefix

theorem Flowing.handed_eq
    (h : Flowing sender messages s)
    (hquiet : s.Quiet) :
    s.client.handed = s.written := by
  obtain ⟨content, hcollecting⟩ := h.collecting
  rw [hquiet.unsent] at hcollecting
  rw [h.written]
  exact hcollecting.handed_eq hquiet.returned hquiet.chunk hquiet.socket

/-- A step of the server writes its payload and hands nothing over. -/
theorem step_server
    {e : SendEvent}
    (hstep : step sender receiver brotli s (.server e) = some t) :
    t.written = s.written ++ e.payload ∧ t.client.handed = s.client.handed := by
  simp only [step] at hstep
  cases hserver : ServerChannel.step sender brotli s.server e with
  | none =>
      rw [hserver] at hstep
      cases hstep
  | some server =>
      rw [hserver] at hstep
      cases hstep
      exact ⟨rfl, rfl⟩

/-- A step of the client writes nothing and hands over one message at most. -/
theorem step_client
    {e : ReadEvent}
    (hstep : step sender receiver brotli s (.client e) = some t) :
    t.written = s.written ∧
      (t.client.handed = s.client.handed ∨
        ∃ data, t.client.handed = s.client.handed ++ [data]) := by
  simp only [step] at hstep
  cases hclient : ClientInput.step receiver brotli s.server.closed s.client e with
  | none =>
      rw [hclient] at hstep
      cases hstep
  | some client =>
      rw [hclient] at hstep
      cases hstep
      exact ⟨rfl, ClientInput.step_handed hclient⟩

/-- **The client is handed what the server wrote, in order and once each.** -/
theorem downlink_in_order
    (sender receiver : Endian)
    (brotli : Brotli)
    (hlossless : brotli.Lossless)
    (type : CompressionType)
    (data data' : Nat → UInt8)
    (errno : Int)
    (s : Downlink)
    (h : (system sender receiver brotli type data data' errno).Reachable (FitsBuffer brotli) s) :
    s.client.handed <+: s.written ∧ (s.Quiet → s.client.handed = s.written) := by
  have hflowing : ∃ messages : List (Sent brotli), Flowing sender messages s := by
    refine h.invariant (I := fun s => ∃ messages : List (Sent brotli),
      Flowing sender messages s) ?_ ?_
    · exact ⟨[], flowing_init type data data' errno⟩
    · rintro s e t ⟨messages, hs⟩ hfits hstep
      obtain ⟨sent, ht⟩ := hs.step hlossless hfits hstep
      exact ⟨messages ++ sent, ht⟩
  obtain ⟨messages, hflowing⟩ := hflowing
  exact ⟨hflowing.handed_prefix, hflowing.handed_eq⟩

/-! ### A run -/

def plainLink : System Downlink DownlinkEvent :=
  system .little .big .identity .none (fun _ => 0) (fun _ => 0) EAGAIN

/-- `send` accepts a frame in two pieces; the client reads both at once. -/
def deliveries : List DownlinkEvent :=
  [.server (.writeData 0 [104, 105]), .server (.advance 0 .again), .server (.advance 0 .again),
    .server (.advance 0 .again), .server (.advance 0 .again), .server (.advance 0 (.sent 5)),
    .client .advance, .server (.advance 0 .again), .server (.advance 0 .again),
    .server (.advance 0 (.sent 2)), .client (.read (.bytes [3, 0, 0, 0, 0, 104, 105] EAGAIN))] ++
    List.replicate 15 (.client .advance)

def delivered : Downlink := (plainLink.run deliveries).getD plainLink.init

theorem delivered_in_order :
    delivered.client.handed = [[104, 105]] ∧ delivered.client.handed = delivered.written := by
  have hok : plainLink.Every (FitsBuffer Brotli.identity) plainLink.init deliveries := by decide
  have hreachable : plainLink.Reachable (FitsBuffer Brotli.identity) delivered :=
    hok.reachable .init (show plainLink.run deliveries = some delivered from rfl)
  exact ⟨rfl, (downlink_in_order .little .big .identity Brotli.identity_lossless .none
    (fun _ => 0) (fun _ => 0) EAGAIN delivered hreachable).2 ⟨rfl, rfl, rfl, rfl⟩⟩

end Downlink

end Core
end ZeroRPC
