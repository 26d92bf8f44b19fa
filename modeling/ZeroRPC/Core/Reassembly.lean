import ZeroRPC.Core.Channel
import ZeroRPC.Library.Transition

/-!
# Putting frames together again

The frames of a list of messages arrive in chunks, cut anywhere.  Each chunk is put in
`_read_buffer` and a call of `parse_message` becomes due; the calls are made one after
another.  A chunk may come while no call runs, or while one is in its loop, where it
waits for the rest of a body.

Main facts:
* `Assembling`: what holds wherever the call stands;
* `Assembling.advance`: every operation of `parse_message` succeeds and keeps it;
* `reassembly`: at the head of the loop a prefix of the messages was pushed and the
  rest is exactly what is framed in the length, the buffer and the bytes to come; a
  call that returns leaves no frame behind and every message handed over.
-/

namespace ZeroRPC
namespace Core

open Library

/-- Past the loop, where the messages are handed over. -/
def Point.draining : Point → Bool
  | .drain => true
  | .pop => true
  | .handOver _ => true
  | _ => false

/-- The bytes a sender makes of a list of messages. -/
def wire (sender : Endian) {brotli : Brotli} (messages : List (Sent brotli)) : Bytes :=
  (messages.map fun m => frame sender m.encoded).flatten

theorem wire_eq
    (sender : Endian)
    {brotli : Brotli}
    (messages : List (Sent brotli)) :
    wire sender messages = framing (header sender) (messages.map Sent.encoded) := by
  rw [wire, framing, List.map_map]
  rfl

/-- A channel, the call of `parse_message` that runs, the calls that are due, and the
bytes not enqueued yet; then, for the statements, what was pushed and handed over. -/
structure Receiver where
  channel : SocketChannel
  point : Point
  due : Nat
  upcoming : Bytes
  pushed : List Bytes
  handed : List Bytes

inductive ReceiverEvent
  | enqueue (n : Nat)
  | start
  | advance

namespace Receiver

def init (type : CompressionType) (data : Nat → UInt8) (stream : Bytes) : Receiver where
  channel := .init type data
  point := .returned
  due := 0
  upcoming := stream
  pushed := []
  handed := []

/-- The receiver after an operation of the call that runs. -/
def after (s : Receiver) (p : Parsed) : Receiver :=
  { s with
    channel := p.channel
    point := p.point
    pushed := s.pushed ++ p.pushed
    handed := s.handed ++ p.handed }

def step (host : Endian) (brotli : Brotli) (s : Receiver) : ReceiverEvent → Option Receiver
  | .enqueue n =>
      if s.point.draining = false ∧ n ≤ s.upcoming.length then
        match s.channel.readBuffer.enqueue (s.upcoming.take n) with
        | .error _ => none
        | .ok buffer =>
            some { s with
              channel := { s.channel with readBuffer := buffer }
              due := s.due + 1
              upcoming := s.upcoming.drop n }
      else
        none
  | .start =>
      if s.point = .returned ∧ s.due ≠ 0 then
        some { s with point := .head, due := s.due - 1 }
      else
        none
  | .advance =>
      if s.point = .returned then
        none
      else
        match parseStep host brotli true s.channel s.point with
        | .error _ => none
        | .ok p => some (s.after p)

/-- A channel that receives a stream. -/
def system (host : Endian) (brotli : Brotli) (type : CompressionType) (data : Nat → UInt8)
    (stream : Bytes) : System Receiver ReceiverEvent where
  init := init type data stream
  step := step host brotli

/-- What a step can be. -/
inductive Moves (host : Endian) (brotli : Brotli) (s : Receiver) : ReceiverEvent → Receiver → Prop
  | enqueue {n : Nat} {buffer : Buffer UInt8 BUFFER_SIZE} (hloop : s.point.draining = false)
      (hn : n ≤ s.upcoming.length)
      (h : s.channel.readBuffer.enqueue (s.upcoming.take n) = .ok buffer) :
      Moves host brotli s (.enqueue n)
        { s with
          channel := { s.channel with readBuffer := buffer }
          due := s.due + 1
          upcoming := s.upcoming.drop n }
  | start (hreturned : s.point = .returned) (hdue : s.due ≠ 0) :
      Moves host brotli s .start { s with point := .head, due := s.due - 1 }
  | advance {p : Parsed} (hrun : s.point ≠ .returned)
      (h : parseStep host brotli true s.channel s.point = .ok p) :
      Moves host brotli s .advance (s.after p)

theorem step_moves
    {host : Endian}
    {brotli : Brotli}
    {s t : Receiver}
    {e : ReceiverEvent}
    (h : step host brotli s e = some t) :
    Moves host brotli s e t := by
  cases e with
  | enqueue n =>
      simp only [step, Option.ite_none_right_eq_some] at h
      obtain ⟨⟨hloop, hn⟩, h⟩ := h
      cases hbuffer : s.channel.readBuffer.enqueue (s.upcoming.take n) with
      | error e =>
          rw [hbuffer] at h
          cases h
      | ok buffer =>
          rw [hbuffer] at h
          cases h
          exact .enqueue hloop hn hbuffer
  | start =>
      simp only [step, Option.ite_none_right_eq_some, Option.some.injEq] at h
      obtain ⟨⟨hreturned, hdue⟩, rfl⟩ := h
      exact .start hreturned hdue
  | advance =>
      simp only [step, Option.ite_none_left_eq_some] at h
      obtain ⟨hrun, h⟩ := h
      cases hp : parseStep host brotli true s.channel s.point with
      | error e =>
          rw [hp] at h
          cases h
      | ok p =>
          rw [hp] at h
          cases h
          exact .advance hrun hp

end Receiver

/-! ### What the call has in hand -/

namespace Point

@[simp]
def hand : Point → Hand UInt8
  | .storeLength temp => .header temp
  | .clearLength _ => .body
  | _ => .empty

/-- The body that was dequeued and not pushed. -/
@[simp]
def taken : Point → List Bytes
  | .clearLength body => [body]
  | .pushMessage body => [body]
  | _ => []

/-- The message that was popped and not handed over. -/
@[simp]
def popped : Point → List Bytes
  | .handOver message => [message]
  | _ => []

/-- What the tests on the way to a point have established. -/
def Tested (length : Nat) (content : Bytes) (messages : List Bytes) : Point → Prop
  | .sizeHeader => length = 0
  | .takeHeader => length = 0 ∧ HEAD_LENGTH < content.length
  | .sizeBody => length ≠ 0
  | .takeBody => length ≠ 0 ∧ length ≤ content.length
  | .drain => length = 0 ∧ content.length ≤ HEAD_LENGTH
  | .pop => (length = 0 ∧ content.length ≤ HEAD_LENGTH) ∧ messages ≠ []
  | .handOver _ => length = 0 ∧ content.length ≤ HEAD_LENGTH
  | _ => True

/-- Bytes that come into the buffer in the loop do not undo a test. -/
theorem Tested.enqueue
    {length : Nat}
    {content : Bytes}
    {messages : List Bytes}
    {point : Point}
    (chunk : Bytes)
    (hloop : point.draining = false)
    (h : point.Tested length content messages) :
    point.Tested length (content ++ chunk) messages := by
  cases point with
  | takeHeader =>
      refine ⟨h.1, ?_⟩
      have := h.2
      rw [List.length_append]
      omega
  | takeBody =>
      refine ⟨h.1, ?_⟩
      have := h.2
      rw [List.length_append]
      omega
  | drain => cases hloop
  | pop => cases hloop
  | handOver message => cases hloop
  | _ => exact h

end Point

/-! ### The invariant -/

section Invariant

variable {sender receiver : Endian} {brotli : Brotli} {messages : List (Sent brotli)}

/-- The line of frames, from the stream to the callback. -/
structure Assembling (sender : Endian) (messages : List (Sent brotli)) (s : Receiver)
    (content : Bytes) : Prop where
  buffer : s.channel.readBuffer.Holds content
  line : Line (header sender) Sent.encoded Sent.plain messages s.point.hand
    s.channel.readBufferLength (content ++ s.upcoming) s.point.taken s.pushed
  queue : s.pushed = s.handed ++ s.point.popped ++ s.channel.readMessages
  tested : s.point.Tested s.channel.readBufferLength content s.channel.readMessages

theorem assembling_init
    (type : CompressionType)
    (data : Nat → UInt8) :
    Assembling sender messages (Receiver.init type data (wire sender messages)) [] where
  buffer := Buffer.init_holds data (by decide)
  line := by
    rw [wire_eq]
    exact Line.init
  queue := rfl
  tested := trivial

theorem Assembling.enqueue
    {s : Receiver}
    {content : Bytes}
    {n : Nat}
    {buffer : Buffer UInt8 BUFFER_SIZE}
    (h : Assembling sender messages s content)
    (hloop : s.point.draining = false)
    (hbuffer : s.channel.readBuffer.enqueue (s.upcoming.take n) = .ok buffer) :
    Assembling sender messages
      { s with
        channel := { s.channel with readBuffer := buffer }
        due := s.due + 1
        upcoming := s.upcoming.drop n }
      (content ++ s.upcoming.take n) where
  buffer := h.buffer.of_enqueue hbuffer
  line := by
    have hline := h.line
    rwa [← List.take_append_drop n s.upcoming, ← List.append_assoc] at hline
  queue := h.queue
  tested := h.tested.enqueue _ hloop

/-- The next operation succeeds, and the line is kept. -/
def Advances (receiver : Endian) (sender : Endian) (messages : List (Sent brotli))
    (s : Receiver) : Prop :=
  ∃ p content, parseStep receiver brotli true s.channel s.point = .ok p ∧
    Assembling sender messages (s.after p) content

/-- A test changes nothing. -/
theorem Assembling.test
    {s : Receiver}
    {content : Bytes}
    (h : Assembling sender messages s content)
    (point : Point)
    (hstep : parseStep receiver brotli true s.channel s.point = .ok ⟨s.channel, point, [], []⟩)
    (hhand : point.hand = s.point.hand)
    (htaken : point.taken = s.point.taken)
    (hpopped : point.popped = s.point.popped)
    (htested : point.Tested s.channel.readBufferLength content s.channel.readMessages) :
    Advances receiver sender messages s := by
  refine ⟨_, content, hstep, h.buffer, ?_, ?_, htested⟩
  · have hline := h.line
    rw [← hhand, ← htaken] at hline
    simpa [Receiver.after] using hline
  · have hqueue := h.queue
    rw [← hpopped] at hqueue
    simpa [Receiver.after] using hqueue

theorem Assembling.head
    {s : Receiver}
    {content : Bytes}
    (h : Assembling sender messages s content)
    (hpoint : s.point = .head) :
    Advances receiver sender messages s := by
  by_cases hzero : s.channel.readBufferLength = 0
  · refine h.test .sizeHeader ?_ ?_ ?_ ?_ hzero
    · simp only [hpoint, parseStep, if_pos hzero]
    all_goals rw [hpoint]; rfl
  · refine h.test .sizeBody ?_ ?_ ?_ ?_ hzero
    · simp only [hpoint, parseStep, if_neg hzero]
    all_goals rw [hpoint]; rfl

theorem Assembling.sizeHeader
    {s : Receiver}
    {content : Bytes}
    (h : Assembling sender messages s content)
    (hpoint : s.point = .sizeHeader) :
    Advances receiver sender messages s := by
  have hzero : s.channel.readBufferLength = 0 := by
    have := h.tested
    rwa [hpoint] at this
  have hsize := h.buffer.size_eq
  by_cases hmore : s.channel.readBuffer.size > HEAD_LENGTH
  · refine h.test .takeHeader ?_ ?_ ?_ ?_ ⟨hzero, by omega⟩
    · simp only [hpoint, parseStep, if_pos hmore]
    all_goals rw [hpoint]; rfl
  · refine h.test .drain ?_ ?_ ?_ ?_ ⟨hzero, by omega⟩
    · simp only [hpoint, parseStep, if_neg hmore]
    all_goals rw [hpoint]; rfl

theorem Assembling.takeHeader
    {s : Receiver}
    {content : Bytes}
    (h : Assembling sender messages s content)
    (hpoint : s.point = .takeHeader) :
    Advances receiver sender messages s := by
  obtain ⟨hbuffer, hline, hqueue, htested⟩ := h
  rw [hpoint] at hline hqueue htested
  obtain ⟨hzero, hmore⟩ := htested
  rw [hzero] at hline
  obtain ⟨buffer, hholds, hstep⟩ := parseStep_takeHeader receiver brotli true hbuffer hmore.le
  rw [← hpoint] at hstep
  refine ⟨_, content.drop HEAD_LENGTH, hstep, hholds, ?_, ?_, trivial⟩
  · have hline := hline.takeHeader (by decide) (fun m _ => m.header_length sender)
      (fun m _ => m.encoded_ne_nil) hmore.le
    simpa [Receiver.after, hzero] using hline
  · simpa [Receiver.after] using hqueue

theorem Assembling.storeLength
    {s : Receiver}
    {content temp : Bytes}
    (h : Assembling sender messages s content)
    (hpoint : s.point = .storeLength temp) :
    Advances receiver sender messages s := by
  obtain ⟨hbuffer, hline, hqueue, htested⟩ := h
  rw [hpoint] at hline hqueue
  obtain ⟨length, hread, hlength, hline⟩ :=
    hline.store fun m _ => m.readLength_header sender receiver
  refine ⟨⟨{ s.channel with readBufferLength := length }, .sizeBody, [], []⟩, content, ?_,
    hbuffer, ?_, ?_, hlength⟩
  · simp only [hpoint, parseStep, hread]
  · simpa [Receiver.after] using hline
  · simpa [Receiver.after] using hqueue

theorem Assembling.sizeBody
    {s : Receiver}
    {content : Bytes}
    (h : Assembling sender messages s content)
    (hpoint : s.point = .sizeBody) :
    Advances receiver sender messages s := by
  have hlength : s.channel.readBufferLength ≠ 0 := by
    have := h.tested
    rwa [hpoint] at this
  have hsize := h.buffer.size_eq
  by_cases hmore : s.channel.readBuffer.size ≥ s.channel.readBufferLength
  · refine h.test .takeBody ?_ ?_ ?_ ?_ ⟨hlength, by omega⟩
    · simp only [hpoint, parseStep, if_pos hmore]
    all_goals rw [hpoint]; rfl
  · refine h.test .head ?_ ?_ ?_ ?_ trivial
    · simp only [hpoint, parseStep, if_neg hmore]
    all_goals rw [hpoint]; rfl

theorem Assembling.takeBody
    {s : Receiver}
    {content : Bytes}
    (h : Assembling sender messages s content)
    (hpoint : s.point = .takeBody) :
    Advances receiver sender messages s := by
  obtain ⟨hbuffer, hline, hqueue, htested⟩ := h
  rw [hpoint] at hline hqueue htested
  obtain ⟨hlength, hmore⟩ := htested
  obtain ⟨buffer, hholds, hstep⟩ := parseStep_takeBody receiver brotli true hbuffer hmore
  rw [← hpoint] at hstep
  refine ⟨_, content.drop s.channel.readBufferLength, hstep, hholds, ?_, ?_, trivial⟩
  · have hline := hline.takeBody hlength hmore
    simpa [Receiver.after] using hline
  · simpa [Receiver.after] using hqueue

theorem Assembling.clearLength
    {s : Receiver}
    {content body : Bytes}
    (h : Assembling sender messages s content)
    (hpoint : s.point = .clearLength body) :
    Advances receiver sender messages s := by
  obtain ⟨hbuffer, hline, hqueue, htested⟩ := h
  rw [hpoint] at hline hqueue
  refine ⟨⟨{ s.channel with readBufferLength := 0 }, .pushMessage body, [], []⟩, content, ?_,
    hbuffer, ?_, ?_, trivial⟩
  · simp only [hpoint, parseStep]
  · have hline := hline.clear
    simpa [Receiver.after] using hline
  · simpa [Receiver.after] using hqueue

theorem Assembling.pushMessage
    (hlossless : brotli.Lossless)
    {s : Receiver}
    {content body : Bytes}
    (h : Assembling sender messages s content)
    (hpoint : s.point = .pushMessage body) :
    Advances receiver sender messages s := by
  obtain ⟨hbuffer, hline, hqueue, htested⟩ := h
  rw [hpoint] at hline hqueue
  obtain ⟨message, hdecode, hline⟩ := hline.push fun m _ => m.decodes hlossless
  refine ⟨⟨{ s.channel with readMessages := s.channel.readMessages ++ [message] }, .head,
    [message], []⟩, content, ?_, hbuffer, hline, ?_, trivial⟩
  · simp only [hpoint, parseStep, hdecode]
  · simp only [Receiver.after, hqueue]
    simp [Point.popped]

theorem Assembling.drain
    {s : Receiver}
    {content : Bytes}
    (h : Assembling sender messages s content)
    (hpoint : s.point = .drain) :
    Advances receiver sender messages s := by
  have htested : s.channel.readBufferLength = 0 ∧ content.length ≤ HEAD_LENGTH := by
    have := h.tested
    rwa [hpoint] at this
  by_cases hempty : s.channel.readMessages = []
  · refine h.test .returned ?_ ?_ ?_ ?_ trivial
    · simp only [hpoint, parseStep, if_pos hempty]
    all_goals rw [hpoint]; rfl
  · refine h.test .pop ?_ ?_ ?_ ?_ ⟨htested, hempty⟩
    · simp only [hpoint, parseStep, if_neg hempty]
    all_goals rw [hpoint]; rfl

theorem Assembling.pop
    {s : Receiver}
    {content : Bytes}
    (h : Assembling sender messages s content)
    (hpoint : s.point = .pop) :
    Advances receiver sender messages s := by
  obtain ⟨hbuffer, hline, hqueue, htested⟩ := h
  rw [hpoint] at hline hqueue htested
  obtain ⟨htested, hne⟩ := htested
  obtain ⟨message, rest, hmessages⟩ := List.exists_cons_of_ne_nil hne
  refine ⟨⟨{ s.channel with readMessages := rest }, .handOver message, [], []⟩, content, ?_,
    hbuffer, ?_, ?_, htested⟩
  · simp only [hpoint, parseStep, hmessages]
  · simpa [Receiver.after] using hline
  · simp only [Receiver.after, hqueue, hmessages]
    simp [Point.popped]

theorem Assembling.handOver
    {s : Receiver}
    {content message : Bytes}
    (h : Assembling sender messages s content)
    (hpoint : s.point = .handOver message) :
    Advances receiver sender messages s := by
  obtain ⟨hbuffer, hline, hqueue, htested⟩ := h
  rw [hpoint] at hline hqueue htested
  refine ⟨⟨s.channel, .drain, [], [message]⟩, content, ?_, hbuffer, ?_, ?_, htested⟩
  · simp only [hpoint, parseStep, if_true]
  · simpa [Receiver.after] using hline
  · simp only [Receiver.after, hqueue]
    simp [Point.popped]

/-- **Every operation of `parse_message` succeeds and keeps the line.** -/
theorem Assembling.advance
    (hlossless : brotli.Lossless)
    {s : Receiver}
    {content : Bytes}
    (h : Assembling sender messages s content)
    (hrun : s.point ≠ .returned) :
    Advances receiver sender messages s := by
  cases hpoint : s.point with
  | head => exact h.head hpoint
  | sizeHeader => exact h.sizeHeader hpoint
  | takeHeader => exact h.takeHeader hpoint
  | storeLength temp => exact h.storeLength hpoint
  | sizeBody => exact h.sizeBody hpoint
  | takeBody => exact h.takeBody hpoint
  | clearLength body => exact h.clearLength hpoint
  | pushMessage body => exact h.pushMessage hlossless hpoint
  | drain => exact h.drain hpoint
  | pop => exact h.pop hpoint
  | handOver message => exact h.handOver hpoint
  | returned => exact absurd hpoint hrun

theorem Assembling.step
    (hlossless : brotli.Lossless)
    {s t : Receiver}
    {content : Bytes}
    {e : ReceiverEvent}
    (h : Assembling sender messages s content)
    (hstep : Receiver.step receiver brotli s e = some t) :
    ∃ content', Assembling sender messages t content' := by
  cases Receiver.step_moves hstep with
  | enqueue hloop _ hbuffer => exact ⟨_, h.enqueue hloop hbuffer⟩
  | start hpoint _ =>
      obtain ⟨hbuffer, hline, hqueue, htested⟩ := h
      rw [hpoint] at hline hqueue
      exact ⟨content, hbuffer, hline, hqueue, trivial⟩
  | advance hrun hp =>
      have hadvances : Advances receiver sender messages s := h.advance hlossless hrun
      obtain ⟨p', content', hp', hkept⟩ := hadvances
      rw [hp] at hp'
      cases hp'
      exact ⟨content', hkept⟩

theorem reachable_assembling
    (hlossless : brotli.Lossless)
    {type : CompressionType}
    {data : Nat → UInt8}
    {s : Receiver}
    (h : (Receiver.system receiver brotli type data (wire sender messages)).Reachable
      System.anyStep s) :
    ∃ content, Assembling sender messages s content := by
  refine h.invariant (I := fun s => ∃ content, Assembling sender messages s content) ?_ ?_
  · exact ⟨[], assembling_init type data⟩
  · rintro s e t ⟨content, hs⟩ _ hstep
    exact hs.step hlossless hstep

theorem parseStep_returned
    {channel : SocketChannel}
    {point : Point}
    {p : Parsed}
    (hrun : point ≠ .returned)
    (hstep : parseStep receiver brotli true channel point = .ok p)
    (hreturned : p.point = .returned) :
    point = .drain ∧ channel.readMessages = [] ∧ p.channel = channel ∧ p.pushed = [] ∧
      p.handed = [] := by
  cases parseStep_moves hstep with
  | testEmpty hempty => exact ⟨rfl, hempty, rfl, rfl, rfl⟩
  | returned => exact absurd rfl hrun
  | _ => cases hreturned

/-! ### The statement -/

/-- A length that is waited for and the bytes there and to come are the frames of the
messages. -/
def Pending (sender : Endian) (length : Nat) (bytes : Bytes) (messages : List (Sent brotli)) :
    Prop :=
  (length = 0 ∧ bytes = wire sender messages) ∨
    ∃ m rest, messages = m :: rest ∧ length = m.encoded.length ∧
      bytes = m.encoded ++ wire sender rest

/-- A whole frame is there, or the whole body that is waited for. -/
def HoldsFrame (sender : Endian) (length : Nat) (content : Bytes) : Prop :=
  (length = 0 ∧ ∃ encoded rest, encoded ≠ [] ∧ content = frame sender encoded ++ rest) ∨
    (length ≠ 0 ∧ length ≤ content.length)

theorem pending_of_cut
    {length : Nat}
    {bytes : Bytes}
    (h : Cut (header sender) .empty length bytes (messages.map Sent.encoded)) :
    Pending sender length bytes messages := by
  generalize hbodies : messages.map Sent.encoded = bodies at h
  cases h with
  | whole => exact Or.inl ⟨rfl, by rw [wire_eq, hbodies]⟩
  | noted hbody =>
      obtain ⟨m, rest, rfl, rfl, rfl⟩ := List.map_eq_cons_iff.mp hbodies
      exact Or.inr ⟨m, rest, rfl, rfl, by rw [wire_eq]⟩

theorem not_holdsFrame
    {content : Bytes}
    (h : content.length ≤ HEAD_LENGTH) :
    ¬ HoldsFrame sender 0 content := by
  rintro (⟨_, encoded, rest, hne, rfl⟩ | ⟨hlength, _⟩)
  · have hpos := List.length_pos_of_ne_nil hne
    have hheader : (header sender encoded).length = HEAD_LENGTH := variant2mem_length ..
    rw [frame, List.length_append, List.length_append, hheader] at h
    omega
  · exact hlength rfl

/-- With nothing in hand, and no body taken that was not pushed. -/
theorem Assembling.pending
    {s : Receiver}
    {content : Bytes}
    (h : Assembling sender messages s content)
    (hhand : s.point.hand = .empty)
    (htaken : s.point.taken = []) :
    ∃ k, s.pushed = (messages.take k).map Sent.plain ∧
      Pending sender s.channel.readBufferLength (content ++ s.upcoming) (messages.drop k) := by
  have hline := h.line
  rw [hhand, htaken] at hline
  obtain ⟨done, atWork, todo, rfl, hpushed, hnone, hcut⟩ := hline.split
  obtain rfl : atWork = [] := List.map_eq_nil_iff.mp hnone.symm
  refine ⟨done.length, ?_, ?_⟩
  · simpa using hpushed
  · simpa using pending_of_cut hcut

/-- At the head of the loop. -/
theorem Assembling.at_head
    {s : Receiver}
    {content : Bytes}
    (h : Assembling sender messages s content)
    (hpoint : s.point = .head) :
    ∃ k, s.pushed = (messages.take k).map Sent.plain ∧
      Pending sender s.channel.readBufferLength (content ++ s.upcoming) (messages.drop k) :=
  h.pending (by rw [hpoint]; rfl) (by rw [hpoint]; rfl)

/-- When the call returns. -/
theorem Assembling.at_return
    {s t : Receiver}
    {content : Bytes}
    (h : Assembling sender messages s content)
    (hstep : Receiver.step receiver brotli s .advance = some t)
    (hreturned : t.point = .returned) :
    s.point = .drain ∧ t.channel = s.channel ∧ t.pushed = s.pushed ∧ t.handed = s.pushed := by
  cases Receiver.step_moves hstep with
  | advance hrun hp =>
      obtain ⟨hpoint, hmessages, hchannel, hpushed, hhanded⟩ := parseStep_returned hrun hp hreturned
      have hqueue := h.queue
      rw [hpoint, hmessages] at hqueue
      refine ⟨hpoint, hchannel, ?_, ?_⟩
      · simp [Receiver.after, hpushed]
      · simpa [Receiver.after, hhanded] using hqueue.symm

/-- **Reassembly does not depend on the chunks.** -/
theorem reassembly
    (sender receiver : Endian)
    (brotli : Brotli)
    (hlossless : brotli.Lossless)
    (messages : List (Sent brotli))
    (type : CompressionType)
    (data : Nat → UInt8)
    (s : Receiver)
    (h : (Receiver.system receiver brotli type data (wire sender messages)).Reachable
      System.anyStep s) :
    (s.point = .head → ∃ k, s.pushed = (messages.take k).map Sent.plain ∧
      Pending sender s.channel.readBufferLength (s.channel.readBuffer.elements ++ s.upcoming)
        (messages.drop k)) ∧
    (∀ t, Receiver.step receiver brotli s .advance = some t → t.point = .returned →
      ¬ HoldsFrame sender t.channel.readBufferLength t.channel.readBuffer.elements ∧
        t.handed = t.pushed ∧ ∃ k, t.pushed = (messages.take k).map Sent.plain) ∧
    (s.point ≠ .returned → ∃ t, Receiver.step receiver brotli s .advance = some t) := by
  obtain ⟨content, hs⟩ := reachable_assembling hlossless h
  have hcontent := hs.buffer.content
  refine ⟨?_, ?_, ?_⟩
  · intro hpoint
    rw [hcontent]
    exact hs.at_head hpoint
  · intro t hstep hreturned
    obtain ⟨hpoint, hchannel, hpushed, hhanded⟩ := hs.at_return hstep hreturned
    have htested := hs.tested
    rw [hpoint] at htested
    refine ⟨?_, by rw [hhanded, hpushed], ?_⟩
    · rw [hchannel, hcontent, htested.1]
      exact not_holdsFrame htested.2
    · have hprefix := List.prefix_iff_eq_take.mp hs.line.pushed_prefix
      refine ⟨s.pushed.length, ?_⟩
      rw [hpushed, List.map_take]
      exact hprefix
  · intro hrun
    have hadvances : Advances receiver sender messages s := hs.advance hlossless hrun
    obtain ⟨p, _, hp, _⟩ := hadvances
    refine ⟨s.after p, ?_⟩
    rw [Receiver.step, if_neg hrun, hp]

end Invariant

/-! ### A run -/

def greeting : Sent Brotli.identity where
  compression := .none
  plain := [104, 105]
  encoded := [0, 104, 105]
  encodes := rfl
  fits := by decide

def greetingReceiver : System Receiver ReceiverEvent :=
  Receiver.system .big .identity .none (fun _ => 0) (wire .little [greeting])

/-- The header arrives in two pieces; the call that saw the first one has returned. -/
def greetingEvents : List ReceiverEvent :=
  [.enqueue 3, .start, .advance, .advance, .advance, .enqueue 4, .start, .advance, .advance,
    .advance, .advance, .advance, .advance, .advance, .advance]

def greeted : Receiver := (greetingReceiver.run greetingEvents).getD greetingReceiver.init

theorem greeted_reachable : greetingReceiver.Reachable System.anyStep greeted :=
  System.run_reachable (show greetingReceiver.run greetingEvents = some greeted from rfl)

theorem greeted_reassembly :
    ∃ k, greeted.pushed = ([greeting].take k).map Sent.plain ∧
      Pending .little greeted.channel.readBufferLength
        (greeted.channel.readBuffer.elements ++ greeted.upcoming) ([greeting].drop k) :=
  (reassembly .little .big .identity Brotli.identity_lossless [greeting] .none (fun _ => 0)
    greeted greeted_reachable).1 rfl

end Core
end ZeroRPC
