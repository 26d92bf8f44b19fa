import ZeroRPC.Core.Buffer
import ZeroRPC.Library.Framing

/-!
# The channel

`Socket_Channel` keeps what has been received and not parsed, what has been parsed and
not handed over, and what is to be sent.  `write_data` frames a message: a header of
four bytes, least significant first, with the length of the encoded message, and the
encoded message, a tag byte in front.

`parse_message` is given as a machine: `Point` is where one call stands between two
operations on the channel, and `parseStep` is the next operation.  Several calls may
stand in the same channel.

Main facts:
* `Sent`: a message with its encoded form; `Sent.decodes`: the receiver gets it back;
* `Sent.readLength_header`: the header tells the length;
* `parseStep_moves`, `ParseMoves.parseStep_eq`: what an operation can be;
* `parseStep_takeHeader`, `parseStep_takeBody`: the two `dequeue`s of a buffer that
  stands for a list.
-/

namespace ZeroRPC
namespace Core

open Library

abbrev Bytes := List UInt8

def BUFFER_SIZE : Nat := 2 * 8 * 1024 + 8

def HEAD_LENGTH : Nat := 4

/-! ### Encoded messages -/

inductive CompressionType
  | none
  | brotli
deriving DecidableEq, Repr

/-- `static_cast<std::byte>`. -/
def CompressionType.toByte : CompressionType → UInt8
  | .none => 0
  | .brotli => 1

/-- The cases of the `switch` on a received tag. -/
def CompressionType.ofByte (tag : UInt8) : Option CompressionType :=
  if tag = CompressionType.none.toByte then
    some .none
  else if tag = CompressionType.brotli.toByte then
    some .brotli
  else
    Option.none

/-- The compressor, which may throw either way. -/
structure Brotli where
  compress : Bytes → Except Fault Bytes
  decompress : Bytes → Except Fault Bytes

/-- What was compressed is decompressed to what it was. -/
def Brotli.Lossless (brotli : Brotli) : Prop :=
  ∀ data compressed, brotli.compress data = .ok compressed → brotli.decompress compressed = .ok data

/-- A compressor that leaves everything as it is. -/
def Brotli.identity : Brotli where
  compress := .ok
  decompress := .ok

theorem Brotli.identity_lossless : Brotli.identity.Lossless :=
  fun _ _ h => h.symm

def encodeString (brotli : Brotli) (type : CompressionType) (plain : Bytes) :
    Except Fault Bytes :=
  match type with
  | .none => .ok (type.toByte :: plain)
  | .brotli =>
      match brotli.compress plain with
      | .error e => .error e
      | .ok encoded => .ok (type.toByte :: encoded)

/-- With an unknown tag the pointer to the compressor is not initialised. -/
def decodeString (brotli : Brotli) (encoded : Bytes) : Except Fault Bytes :=
  match encoded with
  | [] => .error .undefined
  | tag :: message =>
      match CompressionType.ofByte tag with
      | some .none => .ok message
      | some .brotli => brotli.decompress message
      | Option.none => .error .undefined

/-- `variant2mem<int32_t>(encoded.size())`. -/
def header (host : Endian) (encoded : Bytes) : Bytes :=
  variant2mem host HEAD_LENGTH encoded.length

/-- An `int32_t` with the given bits, as a `uint64_t`. -/
def signExtend (bits : Nat) : Nat :=
  if bits < 2 ^ 31 then bits else bits + (2 ^ 64 - 2 ^ 32)

/-- `_read_buffer_length = mem2variant<int32_t>(temp)`. -/
def readLength (host : Endian) (temp : Bytes) : Except Fault Nat :=
  match mem2variant host HEAD_LENGTH temp with
  | .error e => .error e
  | .ok (bits, _) => .ok (signExtend bits)

/-- A message of at most `BUFFER_SIZE` encoded bytes and the form it is sent in. -/
structure Sent (brotli : Brotli) where
  compression : CompressionType
  plain : Bytes
  encoded : Bytes
  encodes : encodeString brotli compression plain = .ok encoded
  fits : encoded.length ≤ BUFFER_SIZE

namespace Sent

variable {brotli : Brotli}

/-- There is a tag byte. -/
theorem encoded_eq_cons (m : Sent brotli) :
    ∃ message, m.encoded = m.compression.toByte :: message := by
  have h := m.encodes
  cases hc : m.compression with
  | none =>
      rw [hc] at h
      exact ⟨m.plain, (Except.ok.inj h).symm⟩
  | brotli =>
      rw [hc, encodeString] at h
      cases hmessage : brotli.compress m.plain with
      | error e =>
          rw [hmessage] at h
          cases h
      | ok message =>
          rw [hmessage] at h
          exact ⟨message, (Except.ok.inj h).symm⟩

theorem encoded_ne_nil (m : Sent brotli) : m.encoded ≠ [] := by
  obtain ⟨message, h⟩ := m.encoded_eq_cons
  rw [h]
  exact List.cons_ne_nil _ _

/-- The receiver gets the message back. -/
theorem decodes
    (hlossless : brotli.Lossless)
    (m : Sent brotli) :
    decodeString brotli m.encoded = .ok m.plain := by
  have h := m.encodes
  cases hc : m.compression with
  | none =>
      rw [hc] at h
      rw [← Except.ok.inj h]
      rfl
  | brotli =>
      rw [hc, encodeString] at h
      cases hmessage : brotli.compress m.plain with
      | error e =>
          rw [hmessage] at h
          cases h
      | ok message =>
          rw [hmessage] at h
          rw [← Except.ok.inj h]
          exact hlossless m.plain message hmessage

theorem header_length (host : Endian) (m : Sent brotli) :
    (header host m.encoded).length = HEAD_LENGTH :=
  variant2mem_length ..

/-- The header tells the length, whichever hosts the two sides are. -/
theorem readLength_header
    (sender receiver : Endian)
    (m : Sent brotli) :
    readLength receiver (header sender m.encoded) = .ok m.encoded.length := by
  have hfits := m.fits
  have hlt : m.encoded.length < 256 ^ HEAD_LENGTH := by
    simp only [BUFFER_SIZE, HEAD_LENGTH] at hfits ⊢
    omega
  rw [readLength, header, mem2variant_variant2mem sender receiver HEAD_LENGTH hlt]
  simp only [signExtend]
  rw [if_pos (by simp only [BUFFER_SIZE] at hfits; omega)]

end Sent

/-- What `write_data` puts in the queue. -/
def frame (host : Endian) (encoded : Bytes) : Bytes := header host encoded ++ encoded

/-! ### The channel -/

structure SocketChannel where
  compressionType : CompressionType
  readBuffer : Buffer UInt8 BUFFER_SIZE
  readBufferLength : Nat
  readMessages : List Bytes
  sendMessages : List Bytes
  sendOffset : Nat

namespace SocketChannel

/-- A new channel. -/
def init (type : CompressionType) (data : Nat → UInt8) : SocketChannel where
  compressionType := type
  readBuffer := .init data
  readBufferLength := 0
  readMessages := []
  sendMessages := []
  sendOffset := 0

/-- `_send_messages.push(ptr)`. -/
def push (channel : SocketChannel) (message : Bytes) : SocketChannel :=
  { channel with sendMessages := channel.sendMessages ++ [message] }

/-- `write_data` up to the send message callback, with the frame it pushes. -/
def writeData (host : Endian) (brotli : Brotli) (channel : SocketChannel) (data : Bytes) :
    Except Fault (Bytes × SocketChannel) :=
  match encodeString brotli channel.compressionType data with
  | .error e => .error e
  | .ok encoded => .ok (frame host encoded, channel.push (frame host encoded))

end SocketChannel

/-! ### Parsing -/

/-- Where a call of `parse_message` stands, with its local variables. -/
inductive Point
  | head
  | sizeHeader
  | takeHeader
  | storeLength (temp : Bytes)
  | sizeBody
  | takeBody
  | clearLength (body : Bytes)
  | pushMessage (body : Bytes)
  | drain
  | pop
  | handOver (message : Bytes)
  | returned
deriving DecidableEq

/-- The channel and the call after an operation, with the messages it pushed to
`_read_messages` and those it handed to `_on_read_message`. -/
structure Parsed where
  channel : SocketChannel
  point : Point
  pushed : List Bytes
  handed : List Bytes

/-- The next operation of a call of `parse_message`.  The loop has no way out of its
second half: with a length noted and the body not there it starts over. -/
def parseStep (host : Endian) (brotli : Brotli) (onReadMessage : Bool)
    (channel : SocketChannel) (point : Point) : Except Fault Parsed :=
  match point with
  | .head =>
      if channel.readBufferLength = 0 then
        .ok ⟨channel, .sizeHeader, [], []⟩
      else
        .ok ⟨channel, .sizeBody, [], []⟩
  | .sizeHeader =>
      if channel.readBuffer.size > HEAD_LENGTH then
        .ok ⟨channel, .takeHeader, [], []⟩
      else
        .ok ⟨channel, .drain, [], []⟩
  | .takeHeader =>
      match channel.readBuffer.dequeue HEAD_LENGTH with
      | .error e => .error e
      | .ok (temp, buffer) =>
          .ok ⟨{ channel with readBuffer := buffer }, .storeLength temp, [], []⟩
  | .storeLength temp =>
      match readLength host temp with
      | .error e => .error e
      | .ok length => .ok ⟨{ channel with readBufferLength := length }, .sizeBody, [], []⟩
  | .sizeBody =>
      if channel.readBuffer.size ≥ channel.readBufferLength then
        .ok ⟨channel, .takeBody, [], []⟩
      else
        .ok ⟨channel, .head, [], []⟩
  | .takeBody =>
      match channel.readBuffer.dequeue channel.readBufferLength with
      | .error e => .error e
      | .ok (body, buffer) =>
          .ok ⟨{ channel with readBuffer := buffer }, .clearLength body, [], []⟩
  | .clearLength body =>
      .ok ⟨{ channel with readBufferLength := 0 }, .pushMessage body, [], []⟩
  | .pushMessage body =>
      match decodeString brotli body with
      | .error e => .error e
      | .ok message =>
          .ok ⟨{ channel with readMessages := channel.readMessages ++ [message] },
            .head, [message], []⟩
  | .drain =>
      if channel.readMessages = [] then
        .ok ⟨channel, .returned, [], []⟩
      else
        .ok ⟨channel, .pop, [], []⟩
  | .pop =>
      match channel.readMessages with
      | [] => .error .undefined
      | message :: messages =>
          .ok ⟨{ channel with readMessages := messages }, .handOver message, [], []⟩
  | .handOver message =>
      .ok ⟨channel, .drain, [], if onReadMessage then [message] else []⟩
  | .returned => .ok ⟨channel, .returned, [], []⟩

/-- What an operation can be. -/
inductive ParseMoves (host : Endian) (brotli : Brotli) (onReadMessage : Bool)
    (channel : SocketChannel) : Point → Parsed → Prop
  | noLength (h : channel.readBufferLength = 0) :
      ParseMoves host brotli onReadMessage channel .head ⟨channel, .sizeHeader, [], []⟩
  | noted (h : channel.readBufferLength ≠ 0) :
      ParseMoves host brotli onReadMessage channel .head ⟨channel, .sizeBody, [], []⟩
  | moreThanHeader (h : HEAD_LENGTH < channel.readBuffer.size) :
      ParseMoves host brotli onReadMessage channel .sizeHeader ⟨channel, .takeHeader, [], []⟩
  | noHeader (h : channel.readBuffer.size ≤ HEAD_LENGTH) :
      ParseMoves host brotli onReadMessage channel .sizeHeader ⟨channel, .drain, [], []⟩
  | takeHeader {temp : Bytes} {buffer : Buffer UInt8 BUFFER_SIZE}
      (h : channel.readBuffer.dequeue HEAD_LENGTH = .ok (temp, buffer)) :
      ParseMoves host brotli onReadMessage channel .takeHeader
        ⟨{ channel with readBuffer := buffer }, .storeLength temp, [], []⟩
  | storeLength {temp : Bytes} {length : Nat} (h : readLength host temp = .ok length) :
      ParseMoves host brotli onReadMessage channel (.storeLength temp)
        ⟨{ channel with readBufferLength := length }, .sizeBody, [], []⟩
  | wholeBody (h : channel.readBufferLength ≤ channel.readBuffer.size) :
      ParseMoves host brotli onReadMessage channel .sizeBody ⟨channel, .takeBody, [], []⟩
  | startOver (h : channel.readBuffer.size < channel.readBufferLength) :
      ParseMoves host brotli onReadMessage channel .sizeBody ⟨channel, .head, [], []⟩
  | takeBody {body : Bytes} {buffer : Buffer UInt8 BUFFER_SIZE}
      (h : channel.readBuffer.dequeue channel.readBufferLength = .ok (body, buffer)) :
      ParseMoves host brotli onReadMessage channel .takeBody
        ⟨{ channel with readBuffer := buffer }, .clearLength body, [], []⟩
  | clearLength {body : Bytes} :
      ParseMoves host brotli onReadMessage channel (.clearLength body)
        ⟨{ channel with readBufferLength := 0 }, .pushMessage body, [], []⟩
  | pushMessage {body message : Bytes} (h : decodeString brotli body = .ok message) :
      ParseMoves host brotli onReadMessage channel (.pushMessage body)
        ⟨{ channel with readMessages := channel.readMessages ++ [message] }, .head,
          [message], []⟩
  | testEmpty (h : channel.readMessages = []) :
      ParseMoves host brotli onReadMessage channel .drain ⟨channel, .returned, [], []⟩
  | testFound (h : channel.readMessages ≠ []) :
      ParseMoves host brotli onReadMessage channel .drain ⟨channel, .pop, [], []⟩
  | pop {message : Bytes} {messages : List Bytes}
      (h : channel.readMessages = message :: messages) :
      ParseMoves host brotli onReadMessage channel .pop
        ⟨{ channel with readMessages := messages }, .handOver message, [], []⟩
  | handOver {message : Bytes} :
      ParseMoves host brotli onReadMessage channel (.handOver message)
        ⟨channel, .drain, [], if onReadMessage then [message] else []⟩
  | returned :
      ParseMoves host brotli onReadMessage channel .returned ⟨channel, .returned, [], []⟩

theorem parseStep_moves
    {host : Endian}
    {brotli : Brotli}
    {onReadMessage : Bool}
    {channel : SocketChannel}
    {point : Point}
    {p : Parsed}
    (h : parseStep host brotli onReadMessage channel point = .ok p) :
    ParseMoves host brotli onReadMessage channel point p := by
  cases point with
  | head =>
      simp only [parseStep] at h
      split at h
      case isTrue hlength =>
        cases h
        exact .noLength hlength
      case isFalse hlength =>
        cases h
        exact .noted hlength
  | sizeHeader =>
      simp only [parseStep] at h
      split at h
      case isTrue hmore =>
        cases h
        exact .moreThanHeader hmore
      case isFalse hless =>
        cases h
        exact .noHeader (Nat.le_of_not_lt hless)
  | takeHeader =>
      simp only [parseStep] at h
      cases hdequeue : channel.readBuffer.dequeue HEAD_LENGTH with
      | error e =>
          rw [hdequeue] at h
          cases h
      | ok taken =>
          rw [hdequeue] at h
          cases h
          exact .takeHeader hdequeue
  | storeLength temp =>
      simp only [parseStep] at h
      cases hread : readLength host temp with
      | error e =>
          rw [hread] at h
          cases h
      | ok length =>
          rw [hread] at h
          cases h
          exact .storeLength hread
  | sizeBody =>
      simp only [parseStep] at h
      split at h
      case isTrue hwhole =>
        cases h
        exact .wholeBody hwhole
      case isFalse hless =>
        cases h
        exact .startOver (Nat.lt_of_not_le hless)
  | takeBody =>
      simp only [parseStep] at h
      cases hdequeue : channel.readBuffer.dequeue channel.readBufferLength with
      | error e =>
          rw [hdequeue] at h
          cases h
      | ok taken =>
          rw [hdequeue] at h
          cases h
          exact .takeBody hdequeue
  | clearLength body =>
      cases h
      exact .clearLength
  | pushMessage body =>
      simp only [parseStep] at h
      cases hdecode : decodeString brotli body with
      | error e =>
          rw [hdecode] at h
          cases h
      | ok message =>
          rw [hdecode] at h
          cases h
          exact .pushMessage hdecode
  | drain =>
      simp only [parseStep] at h
      split at h
      case isTrue hempty =>
        cases h
        exact .testEmpty hempty
      case isFalse hfound =>
        cases h
        exact .testFound hfound
  | pop =>
      simp only [parseStep] at h
      cases hqueue : channel.readMessages with
      | nil =>
          rw [hqueue] at h
          cases h
      | cons message messages =>
          rw [hqueue] at h
          cases h
          exact .pop hqueue
  | handOver message =>
      cases h
      exact .handOver
  | returned =>
      cases h
      exact .returned

theorem ParseMoves.parseStep_eq
    {host : Endian}
    {brotli : Brotli}
    {onReadMessage : Bool}
    {channel : SocketChannel}
    {point : Point}
    {p : Parsed}
    (h : ParseMoves host brotli onReadMessage channel point p) :
    parseStep host brotli onReadMessage channel point = .ok p := by
  cases h with
  | noLength hzero => simp only [parseStep, if_pos hzero]
  | noted hnoted => simp only [parseStep, if_neg hnoted]
  | moreThanHeader hmore => simp only [parseStep, if_pos hmore]
  | noHeader hfew => simp only [parseStep, if_neg (Nat.not_lt.mpr hfew)]
  | takeHeader hdequeue => simp only [parseStep, hdequeue]
  | storeLength hlength => simp only [parseStep, hlength]
  | wholeBody hlong => simp only [parseStep, if_pos hlong]
  | startOver hshort => simp only [parseStep, if_neg (Nat.not_le.mpr hshort)]
  | takeBody hdequeue => simp only [parseStep, hdequeue]
  | pushMessage hdecode => simp only [parseStep, hdecode]
  | testEmpty hempty => simp only [parseStep, if_pos hempty]
  | testFound hfound => simp only [parseStep, if_neg hfound]
  | pop hmessages => simp only [parseStep, hmessages]
  | clearLength => rfl
  | handOver => rfl
  | returned => rfl

section Dequeue

variable (host : Endian) (brotli : Brotli) (onReadMessage : Bool)
  {channel : SocketChannel} {content : Bytes}

theorem parseStep_takeHeader
    (h : channel.readBuffer.Holds content)
    (hcount : HEAD_LENGTH ≤ content.length) :
    ∃ buffer, buffer.Holds (content.drop HEAD_LENGTH) ∧
      parseStep host brotli onReadMessage channel .takeHeader =
        .ok ⟨{ channel with readBuffer := buffer },
          .storeLength (content.take HEAD_LENGTH), [], []⟩ := by
  obtain ⟨buffer, hdequeue, hbuffer⟩ := h.dequeue hcount
  exact ⟨buffer, hbuffer, (ParseMoves.takeHeader hdequeue).parseStep_eq⟩

theorem parseStep_takeHeader_short
    (h : channel.readBuffer.Holds content)
    (hcount : content.length < HEAD_LENGTH) :
    parseStep host brotli onReadMessage channel .takeHeader =
      .error (.runtimeError "Not enough elements in _queue") := by
  simp only [parseStep, h.dequeue_short hcount]

theorem parseStep_takeBody
    (h : channel.readBuffer.Holds content)
    (hcount : channel.readBufferLength ≤ content.length) :
    ∃ buffer, buffer.Holds (content.drop channel.readBufferLength) ∧
      parseStep host brotli onReadMessage channel .takeBody =
        .ok ⟨{ channel with readBuffer := buffer },
          .clearLength (content.take channel.readBufferLength), [], []⟩ := by
  obtain ⟨buffer, hdequeue, hbuffer⟩ := h.dequeue hcount
  exact ⟨buffer, hbuffer, (ParseMoves.takeBody hdequeue).parseStep_eq⟩

theorem parseStep_takeBody_short
    (h : channel.readBuffer.Holds content)
    (hcount : content.length < channel.readBufferLength) :
    parseStep host brotli onReadMessage channel .takeBody =
      .error (.runtimeError "Not enough elements in _queue") := by
  simp only [parseStep, h.dequeue_short hcount]

theorem parseStep_pushMessage_raises
    {body : Bytes}
    {e : Fault}
    (h : decodeString brotli body = .error e) :
    parseStep host brotli onReadMessage channel (.pushMessage body) = .error e := by
  simp only [parseStep, h]

end Dequeue

end Core
end ZeroRPC
