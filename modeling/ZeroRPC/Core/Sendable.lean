import ZeroRPC.Core.ReceiveRoom

/-!
# What sender and receiver agree on

`write_data` frames a message of any length: the length goes into an `int32_t`, and the
receiver keeps a body in a buffer of `BUFFER_SIZE` bytes until all of it is there.

Main facts:
* `delivered_of_fits`: a message that fits in the buffer is delivered, from its frame cut
  into two chunks;
* `Undelivered.step`: of a longer one nothing is handed over, however its frame is cut;
* `sendable_iff`: header and receiver do what the sender means exactly for messages whose
  encoded form fits in the buffer.
-/

namespace ZeroRPC
namespace Core

open Library

/-- The `int32_t` in four bytes, least significant first. -/
def headerValue (bytes : Bytes) : Int := (BitVec.ofNat 32 (leValue bytes)).toInt

/-- Given exactly these bytes, in some chunks, a new receiver comes to the point where the
whole body is buffered, and hands over the message. -/
def Delivered (receiver : Endian) (brotli : Brotli) (type : CompressionType) (data : Nat → UInt8)
    (framed plain : Bytes) : Prop :=
  ∃ s t : Receiver,
    (Receiver.system receiver brotli type data framed).Reachable System.anyStep s ∧
    s.point = .takeBody ∧ s.channel.readBuffer.size ≥ s.channel.readBufferLength ∧
    s.channel.readBufferLength + HEAD_LENGTH = framed.length ∧
    (∃ events, (Receiver.system receiver brotli type data framed).runFrom s events = some t) ∧
    t.upcoming = [] ∧ t.handed = [plain]

/-- The encoded form fits in the buffer of the receiver. -/
def FitsReceiver (brotli : Brotli) (plain : Bytes) : CompressionType → Prop
  | .none => plain.length + 1 ≤ BUFFER_SIZE
  | .brotli =>
      ∃ compressed, brotli.compress plain = .ok compressed ∧ compressed.length + 1 ≤ BUFFER_SIZE

section Encoded

variable {brotli : Brotli} {type : CompressionType} {plain encoded : Bytes}

theorem fitsReceiver_iff
    (h : encodeString brotli type plain = .ok encoded) :
    FitsReceiver brotli plain type ↔ encoded.length ≤ BUFFER_SIZE := by
  cases type with
  | none =>
      obtain rfl : CompressionType.none.toByte :: plain = encoded := Except.ok.inj h
      exact Iff.rfl
  | brotli =>
      rw [encodeString] at h
      cases hcompress : brotli.compress plain with
      | error e =>
          rw [hcompress] at h
          cases h
      | ok compressed =>
          rw [hcompress] at h
          obtain rfl : CompressionType.brotli.toByte :: compressed = encoded := Except.ok.inj h
          constructor
          · rintro ⟨other, hother, hfits⟩
            rw [hcompress] at hother
            cases hother
            exact hfits
          · exact fun hfits => ⟨compressed, hcompress, hfits⟩

/-- `write_data` frames what `encode_string` gives. -/
theorem writeData_eq
    {sender : Endian}
    {channel after : SocketChannel}
    {framed : Bytes}
    (h : channel.writeData sender brotli plain = .ok (framed, after)) :
    ∃ encoded, encodeString brotli channel.compressionType plain = .ok encoded ∧
      framed = frame sender encoded := by
  rw [SocketChannel.writeData] at h
  cases hencode : encodeString brotli channel.compressionType plain with
  | error e =>
      rw [hencode] at h
      cases h
  | ok encoded =>
      rw [hencode] at h
      cases h
      exact ⟨encoded, rfl, rfl⟩

end Encoded

/-! ### The header -/

theorem header_eq (host : Endian) (encoded : Bytes) :
    header host encoded = leBytes HEAD_LENGTH encoded.length :=
  variant2mem_eq ..

theorem frame_header_length (host : Endian) (encoded : Bytes) :
    (header host encoded).length = HEAD_LENGTH := by
  rw [header_eq, leBytes_length]

/-- The header is the length exactly when the length is an `int32_t`. -/
theorem headerValue_header
    (host : Endian)
    (encoded : Bytes) :
    headerValue (header host encoded) = encoded.length ↔ encoded.length < 2 ^ 31 := by
  have hpow : 256 ^ HEAD_LENGTH = 2 ^ 32 := by decide
  rw [headerValue, header_eq, leValue_leBytes, hpow, BitVec.toInt_eq_toNat_cond,
    BitVec.toNat_ofNat]
  split <;> omega

/-- The receiver reads the length of a message that is an `int32_t`. -/
theorem readLength_header
    (sender receiver : Endian)
    {encoded : Bytes}
    (h : encoded.length < 2 ^ 31) :
    readLength receiver (header sender encoded) = .ok encoded.length := by
  have hlt : encoded.length < 256 ^ HEAD_LENGTH := by
    simp only [HEAD_LENGTH]
    omega
  rw [readLength, header, mem2variant_variant2mem sender receiver HEAD_LENGTH hlt]
  simp only [signExtend, if_pos h]

/-! ### A message that fits -/

section Fits

variable {sender receiver : Endian} {brotli : Brotli}

/-- An operation of the call that runs. -/
theorem step_advance
    {s : Receiver}
    {p : Parsed}
    (hrun : s.point ≠ .returned)
    (h : parseStep receiver brotli true s.channel s.point = .ok p) :
    Receiver.step receiver brotli s .advance = some (s.after p) := by
  rw [Receiver.step, if_neg hrun, h]

/-- A chunk that fits, while the call is not past its loop. -/
theorem step_enqueue
    {s : Receiver}
    {n : Nat}
    {buffer : Buffer UInt8 BUFFER_SIZE}
    (hloop : s.point.draining = false)
    (hn : n ≤ s.upcoming.length)
    (h : s.channel.readBuffer.enqueue (s.upcoming.take n) = .ok buffer) :
    Receiver.step receiver brotli s (.enqueue n) =
      some { s with
        channel := { s.channel with readBuffer := buffer }
        due := s.due + 1
        upcoming := s.upcoming.drop n } := by
  rw [Receiver.step, if_pos ⟨hloop, hn⟩, h]

/-- The buffers on the way of a frame: with its first five bytes, with one of them left,
with the body, and empty. -/
structure Passes (sender : Endian) (encoded : Bytes) (data : Nat → UInt8)
    (b₁ b₂ b₃ b₄ : Buffer UInt8 BUFFER_SIZE) : Prop where
  first : (Buffer.init data).enqueue ((frame sender encoded).take 5) = .ok b₁
  taken : b₁.dequeue HEAD_LENGTH = .ok (header sender encoded, b₂)
  rest : b₂.enqueue ((frame sender encoded).drop 5) = .ok b₃
  body : b₃.dequeue encoded.length = .ok (encoded, b₄)
  size₁ : b₁.size = 5
  size₃ : b₃.size = encoded.length
  size₄ : b₄.size = 0

theorem passes
    (sender : Endian)
    (m : Sent brotli)
    (data : Nat → UInt8) :
    ∃ b₁ b₂ b₃ b₄, Passes sender m.encoded data b₁ b₂ b₃ b₄ := by
  have hfits := m.fits
  have hpos := List.length_pos_of_ne_nil m.encoded_ne_nil
  have hheader := m.header_length sender
  have hframe : (frame sender m.encoded).length = HEAD_LENGTH + m.encoded.length := by
    rw [frame, List.length_append, hheader]
  have hfour : HEAD_LENGTH = 4 := rfl
  have hfive : ((frame sender m.encoded).take 5).length = 5 := by
    rw [List.length_take]
    omega
  have hhead : ((frame sender m.encoded).take 5).take HEAD_LENGTH = header sender m.encoded := by
    rw [List.take_take, frame, hfour, Nat.min_eq_left (by omega), ← hfour, ← hheader,
      List.take_left]
  have hbody : ((frame sender m.encoded).take 5).drop HEAD_LENGTH ++
      (frame sender m.encoded).drop 5 = m.encoded := by
    rw [← List.drop_append_of_le_length (by omega), List.take_append_drop, frame, ← hheader,
      List.drop_left]
  have hsplit := congrArg List.length hbody
  rw [List.length_append] at hsplit
  have hempty : (Buffer.init data : Buffer UInt8 BUFFER_SIZE).Holds [] :=
    Buffer.init_holds data (by decide)
  have hfirst :
      ([] : Bytes).length + ((frame sender m.encoded).take 5).length ≤ BUFFER_SIZE := by
    rw [hfive]
    decide
  obtain ⟨b₁, henqueue₁, hb₁⟩ := hempty.enqueue hfirst
  rw [List.nil_append] at hb₁
  have htaken : HEAD_LENGTH ≤ ((frame sender m.encoded).take 5).length := by omega
  obtain ⟨b₂, hdequeue₂, hb₂⟩ := hb₁.dequeue htaken
  rw [hhead] at hdequeue₂
  have hsecond :
      (((frame sender m.encoded).take 5).drop HEAD_LENGTH).length +
        ((frame sender m.encoded).drop 5).length ≤ BUFFER_SIZE := by
    omega
  obtain ⟨b₃, henqueue₃, hb₃⟩ := hb₂.enqueue hsecond
  rw [hbody] at hb₃
  obtain ⟨b₄, hdequeue₄, hb₄⟩ := hb₃.dequeue (le_refl m.encoded.length)
  rw [List.take_length] at hdequeue₄
  rw [List.drop_length] at hb₄
  exact ⟨b₁, b₂, b₃, b₄, henqueue₁, hdequeue₂, henqueue₃, hdequeue₄, hb₁.size_eq.trans hfive,
    hb₃.size_eq, hb₄.size_eq⟩

/-- A new channel with another buffer. -/
def channelWith (type : CompressionType) (data : Nat → UInt8)
    (b : Buffer UInt8 BUFFER_SIZE) : SocketChannel :=
  { SocketChannel.init type data with readBuffer := b }

/-- The same with a length noted. -/
def notedWith (type : CompressionType) (data : Nat → UInt8) (length : Nat)
    (b : Buffer UInt8 BUFFER_SIZE) : SocketChannel :=
  { channelWith type data b with readBufferLength := length }

namespace Passes

variable {type : CompressionType} {data : Nat → UInt8} {encoded : Bytes}
  {b₁ b₂ b₃ b₄ : Buffer UInt8 BUFFER_SIZE}

/-- The header is taken with one byte more in the buffer; the rest follows before its length
is noted. -/
theorem to_body
    (h : Passes sender encoded data b₁ b₂ b₃ b₄)
    (hframe : (frame sender encoded).length = HEAD_LENGTH + encoded.length)
    (hpos : 0 < encoded.length)
    (hlength : readLength receiver (header sender encoded) = .ok encoded.length) :
    (Receiver.system receiver brotli type data (frame sender encoded)).run
        [.enqueue 5, .start, .advance, .advance, .advance,
          .enqueue ((frame sender encoded).drop 5).length, .advance, .advance] =
      some ⟨notedWith type data encoded.length b₃, .takeBody, 1, [], [], []⟩ := by
  have hfour : HEAD_LENGTH = 4 := rfl
  have hsize₁ := h.size₁
  have hsize₃ := h.size₃
  let channel := channelWith type data
  let noted := notedWith type data encoded.length
  let rest := (frame sender encoded).drop 5
  have hfirst : Receiver.step receiver brotli (.init type data (frame sender encoded))
      (.enqueue 5) = some ⟨channel b₁, .returned, 1, rest, [], []⟩ :=
    step_enqueue rfl (by simp only [Receiver.init]; omega) h.first
  have hstart : Receiver.step receiver brotli ⟨channel b₁, .returned, 1, rest, [], []⟩ .start =
      some ⟨channel b₁, .head, 0, rest, [], []⟩ := rfl
  have hhead : Receiver.step receiver brotli ⟨channel b₁, .head, 0, rest, [], []⟩ .advance =
      some ⟨channel b₁, .sizeHeader, 0, rest, [], []⟩ := rfl
  have hsizeHeader :
      Receiver.step receiver brotli ⟨channel b₁, .sizeHeader, 0, rest, [], []⟩ .advance =
        some ⟨channel b₁, .takeHeader, 0, rest, [], []⟩ :=
    step_advance (p := ⟨channel b₁, .takeHeader, [], []⟩) (by simp)
      (if_pos (by show HEAD_LENGTH < b₁.size; omega))
  have htakeHeader :
      Receiver.step receiver brotli ⟨channel b₁, .takeHeader, 0, rest, [], []⟩ .advance =
        some ⟨channel b₂, .storeLength (header sender encoded), 0, rest, [], []⟩ :=
    step_advance (p := ⟨channel b₂, .storeLength (header sender encoded), [], []⟩) (by simp)
      (by simp only [parseStep, channel, channelWith, h.taken])
  have hsecond :
      Receiver.step receiver brotli
          ⟨channel b₂, .storeLength (header sender encoded), 0, rest, [], []⟩
          (.enqueue rest.length) =
        some ⟨channel b₃, .storeLength (header sender encoded), 1, [], [], []⟩ := by
    have henqueued : b₂.enqueue (rest.take rest.length) = .ok b₃ := by
      simp only [List.take_length]
      exact h.rest
    rw [step_enqueue rfl le_rfl henqueued]
    simp only [List.drop_length, channel, channelWith]
  have hstore :
      Receiver.step receiver brotli
          ⟨channel b₃, .storeLength (header sender encoded), 1, [], [], []⟩ .advance =
        some ⟨noted b₃, .sizeBody, 1, [], [], []⟩ :=
    step_advance (p := ⟨noted b₃, .sizeBody, [], []⟩) (by simp)
      (by simp only [parseStep, hlength, noted, notedWith, channel])
  have hsizeBody :
      Receiver.step receiver brotli ⟨noted b₃, .sizeBody, 1, [], [], []⟩ .advance =
        some ⟨noted b₃, .takeBody, 1, [], [], []⟩ :=
    step_advance (p := ⟨noted b₃, .takeBody, [], []⟩) (by simp)
      (if_pos (by show encoded.length ≤ b₃.size; omega))
  refine System.runFrom_cons.mpr ⟨_, hfirst, ?_⟩
  refine System.runFrom_cons.mpr ⟨_, hstart, ?_⟩
  refine System.runFrom_cons.mpr ⟨_, hhead, ?_⟩
  refine System.runFrom_cons.mpr ⟨_, hsizeHeader, ?_⟩
  refine System.runFrom_cons.mpr ⟨_, htakeHeader, ?_⟩
  refine System.runFrom_cons.mpr ⟨_, hsecond, ?_⟩
  refine System.runFrom_cons.mpr ⟨_, hstore, ?_⟩
  exact System.runFrom_cons.mpr ⟨_, hsizeBody, rfl⟩

/-- The body is taken and decoded, and the message handed over. -/
theorem from_body
    {plain : Bytes}
    (h : Passes sender encoded data b₁ b₂ b₃ b₄)
    (hdecode : decodeString brotli encoded = .ok plain) :
    (Receiver.system receiver brotli type data (frame sender encoded)).runFrom
        ⟨notedWith type data encoded.length b₃, .takeBody, 1, [], [], []⟩
        [.advance, .advance, .advance, .advance, .advance, .advance, .advance, .advance] =
      some ⟨channelWith type data b₄, .drain, 1, [], [plain], [plain]⟩ := by
  let channel := channelWith type data
  let noted := notedWith type data encoded.length
  let queued : SocketChannel := { channel b₄ with readMessages := [plain] }
  have htakeBody :
      Receiver.step receiver brotli ⟨noted b₃, .takeBody, 1, [], [], []⟩ .advance =
        some ⟨noted b₄, .clearLength encoded, 1, [], [], []⟩ :=
    step_advance (p := ⟨noted b₄, .clearLength encoded, [], []⟩) (by simp)
      (by simp only [parseStep, noted, notedWith, channelWith, h.body])
  have hclear :
      Receiver.step receiver brotli ⟨noted b₄, .clearLength encoded, 1, [], [], []⟩ .advance =
        some ⟨channel b₄, .pushMessage encoded, 1, [], [], []⟩ := rfl
  have hpush :
      Receiver.step receiver brotli ⟨channel b₄, .pushMessage encoded, 1, [], [], []⟩ .advance =
        some ⟨queued, .head, 1, [], [plain], []⟩ :=
    step_advance (p := ⟨queued, .head, [plain], []⟩) (by simp)
      (by simp only [parseStep, hdecode, queued, channel, channelWith, SocketChannel.init,
        List.nil_append])
  have hhead : Receiver.step receiver brotli ⟨queued, .head, 1, [], [plain], []⟩ .advance =
      some ⟨queued, .sizeHeader, 1, [], [plain], []⟩ := rfl
  have hsizeHeader :
      Receiver.step receiver brotli ⟨queued, .sizeHeader, 1, [], [plain], []⟩ .advance =
        some ⟨queued, .drain, 1, [], [plain], []⟩ :=
    step_advance (p := ⟨queued, .drain, [], []⟩) (by simp)
      (if_neg (by show ¬ b₄.size > HEAD_LENGTH; simp [h.size₄]))
  have hdrain : Receiver.step receiver brotli ⟨queued, .drain, 1, [], [plain], []⟩ .advance =
      some ⟨queued, .pop, 1, [], [plain], []⟩ := rfl
  have hpop : Receiver.step receiver brotli ⟨queued, .pop, 1, [], [plain], []⟩ .advance =
      some ⟨channel b₄, .handOver plain, 1, [], [plain], []⟩ := rfl
  have hhandOver :
      Receiver.step receiver brotli ⟨channel b₄, .handOver plain, 1, [], [plain], []⟩ .advance =
        some ⟨channel b₄, .drain, 1, [], [plain], [plain]⟩ := rfl
  refine System.runFrom_cons.mpr ⟨_, htakeBody, ?_⟩
  refine System.runFrom_cons.mpr ⟨_, hclear, ?_⟩
  refine System.runFrom_cons.mpr ⟨_, hpush, ?_⟩
  refine System.runFrom_cons.mpr ⟨_, hhead, ?_⟩
  refine System.runFrom_cons.mpr ⟨_, hsizeHeader, ?_⟩
  refine System.runFrom_cons.mpr ⟨_, hdrain, ?_⟩
  refine System.runFrom_cons.mpr ⟨_, hpop, ?_⟩
  exact System.runFrom_cons.mpr ⟨_, hhandOver, rfl⟩

end Passes

/-- **A message that fits is delivered.**  The first chunk is the header and one byte more,
so that the header is taken; the rest follows when its length has been read. -/
theorem delivered_of_fits
    (hlossless : brotli.Lossless)
    (m : Sent brotli)
    (type : CompressionType)
    (data : Nat → UInt8) :
    Delivered receiver brotli type data (frame sender m.encoded) m.plain := by
  have hpos := List.length_pos_of_ne_nil m.encoded_ne_nil
  have hframe : (frame sender m.encoded).length = HEAD_LENGTH + m.encoded.length := by
    rw [frame, List.length_append, m.header_length sender]
  obtain ⟨b₁, b₂, b₃, b₄, h⟩ := passes sender m data
  have hbefore : (Receiver.system receiver brotli type data (frame sender m.encoded)).run _ =
      some ⟨notedWith type data m.encoded.length b₃, .takeBody, 1, [], [], []⟩ :=
    h.to_body hframe hpos (m.readLength_header sender receiver)
  have hafter :
      (Receiver.system receiver brotli type data (frame sender m.encoded)).runFrom _ _ =
        some ⟨channelWith type data b₄, .drain, 1, [], [m.plain], [m.plain]⟩ :=
    h.from_body (m.decodes hlossless)
  refine ⟨_, _, System.run_reachable hbefore, rfl, ?_, ?_, ⟨_, hafter⟩, rfl, rfl⟩
  · exact h.size₃.ge
  · show m.encoded.length + HEAD_LENGTH = (frame sender m.encoded).length
    omega

end Fits

/-! ### A longer message -/

section Longer

variable {sender receiver : Endian} {brotli : Brotli} {encoded : Bytes}

/-- Where the frame is: nothing taken, the header in hand, or its length noted. -/
inductive Blocked (sender : Endian) (encoded : Bytes) (s : Receiver) (content : Bytes) : Prop
  | whole (hlength : s.channel.readBufferLength = 0)
      (hstream : content ++ s.upcoming = frame sender encoded)
      (hpoint : s.point = .returned ∨ s.point = .head ∨ s.point = .sizeHeader ∨
        s.point = .takeHeader ∨ s.point = .drain)
  | header (hpoint : s.point = .storeLength (header sender encoded))
  | noted (hlength : s.channel.readBufferLength = encoded.length)
      (hpoint : s.point = .head ∨ s.point = .sizeBody)

/-- Nothing of the message is handed over, or will be. -/
structure Undelivered (sender : Endian) (encoded : Bytes) (s : Receiver) : Prop where
  messages : s.channel.readMessages = []
  handed : s.handed = []
  blocked : ∃ content, s.channel.readBuffer.Holds content ∧ Blocked sender encoded s content

theorem undelivered_init
    (type : CompressionType)
    (data : Nat → UInt8) :
    Undelivered sender encoded (Receiver.init type data (frame sender encoded)) where
  messages := rfl
  handed := rfl
  blocked := ⟨[], Buffer.init_holds data (by decide), .whole rfl rfl (.inl rfl)⟩

theorem Undelivered.enqueue
    {s t : Receiver}
    {n : Nat}
    (h : Undelivered sender encoded s)
    (hstep : Receiver.step receiver brotli s (.enqueue n) = some t) :
    Undelivered sender encoded t := by
  obtain ⟨content, hbuffer, hblocked⟩ := h.blocked
  cases Receiver.step_moves hstep with
  | enqueue _ _ henqueue =>
      refine ⟨h.messages, h.handed, _, hbuffer.of_enqueue henqueue, ?_⟩
      cases hblocked with
      | whole hlength hstream hpoint =>
          refine .whole hlength ?_ hpoint
          rw [List.append_assoc, List.take_append_drop, hstream]
      | header hpoint => exact .header hpoint
      | noted hlength hpoint => exact .noted hlength hpoint

theorem Undelivered.start
    {s t : Receiver}
    (h : Undelivered sender encoded s)
    (hstep : Receiver.step receiver brotli s .start = some t) :
    Undelivered sender encoded t := by
  obtain ⟨content, hbuffer, hblocked⟩ := h.blocked
  cases Receiver.step_moves hstep with
  | start hreturned _ =>
      refine ⟨h.messages, h.handed, content, hbuffer, ?_⟩
      cases hblocked with
      | whole hlength hstream hpoint => exact .whole hlength hstream (.inr (.inl rfl))
      | header hpoint =>
          rw [hreturned] at hpoint
          cases hpoint
      | noted hlength hpoint => exact .noted hlength (.inl rfl)

/-- The four bytes at the front of the stream are the header. -/
theorem take_header
    {content upcoming : Bytes}
    (hstream : content ++ upcoming = frame sender encoded)
    (hfour : HEAD_LENGTH ≤ content.length) :
    content.take HEAD_LENGTH = header sender encoded := by
  have htake := congrArg (List.take HEAD_LENGTH) hstream
  rw [List.take_append_of_le_length hfour, frame] at htake
  rw [htake, ← frame_header_length sender encoded, List.take_left]

theorem Undelivered.after
    {s : Receiver}
    {p : Parsed}
    {content : Bytes}
    (h : Undelivered sender encoded s)
    (hmessages : p.channel.readMessages = s.channel.readMessages)
    (hhanded : p.handed = [])
    (hbuffer : p.channel.readBuffer.Holds content)
    (hblocked : Blocked sender encoded (s.after p) content) :
    Undelivered sender encoded (s.after p) where
  messages := hmessages.trans h.messages
  handed := by
    show s.handed ++ p.handed = []
    rw [h.handed, hhanded]
    rfl
  blocked := ⟨content, hbuffer, hblocked⟩

/-- **An operation of the call hands nothing over.**  The body is never all there, as the
buffer holds no more than `BUFFER_SIZE` bytes. -/
theorem Undelivered.advance
    {s t : Receiver}
    (hlong : BUFFER_SIZE < encoded.length)
    (hint : encoded.length < 2 ^ 31)
    (h : Undelivered sender encoded s)
    (hstep : Receiver.step receiver brotli s .advance = some t) :
    Undelivered sender encoded t := by
  obtain ⟨content, hbuffer, hblocked⟩ := h.blocked
  have hsize := hbuffer.size_le
  simp only [Receiver.step, Option.ite_none_left_eq_some] at hstep
  obtain ⟨hrun, hstep⟩ := hstep
  cases hblocked with
  | whole hlength hstream hpoint =>
      rcases hpoint with hpoint | hpoint | hpoint | hpoint | hpoint
      · exact absurd hpoint hrun
      · simp only [hpoint, parseStep, if_pos hlength] at hstep
        cases hstep
        exact h.after rfl rfl hbuffer (.whole hlength hstream (by simp [Receiver.after]))
      · simp only [hpoint, parseStep] at hstep
        split at hstep
        · cases hstep
        case h_2 p hp =>
          split at hp <;> cases hp <;> cases hstep
          all_goals
            exact h.after rfl rfl hbuffer (.whole hlength hstream (by simp [Receiver.after]))
      · by_cases hfour : HEAD_LENGTH ≤ content.length
        · obtain ⟨buffer, hdequeued, htake⟩ :=
            parseStep_takeHeader receiver brotli true hbuffer hfour
          simp only [hpoint, htake] at hstep
          cases hstep
          refine h.after rfl rfl hdequeued (.header ?_)
          show Point.storeLength (content.take HEAD_LENGTH) =
            .storeLength (Core.header sender encoded)
          rw [take_header hstream hfour]
        · simp only [hpoint, parseStep_takeHeader_short receiver brotli true hbuffer
            (Nat.lt_of_not_le hfour)] at hstep
          cases hstep
      · simp only [hpoint, parseStep, if_pos h.messages] at hstep
        cases hstep
        exact h.after rfl rfl hbuffer (.whole hlength hstream (by simp [Receiver.after]))
  | header hpoint =>
      simp only [hpoint, parseStep, readLength_header sender receiver hint] at hstep
      cases hstep
      exact h.after rfl rfl hbuffer (.noted rfl (.inr rfl))
  | noted hlength hpoint =>
      rcases hpoint with hpoint | hpoint
      · have hne : s.channel.readBufferLength ≠ 0 := by omega
        simp only [hpoint, parseStep, if_neg hne] at hstep
        cases hstep
        exact h.after rfl rfl hbuffer (.noted hlength (.inr rfl))
      · have hless : ¬ s.channel.readBuffer.size ≥ s.channel.readBufferLength := by omega
        simp only [hpoint, parseStep, if_neg hless] at hstep
        cases hstep
        exact h.after rfl rfl hbuffer (.noted hlength (.inl rfl))

theorem Undelivered.step
    {s t : Receiver}
    {e : ReceiverEvent}
    (hlong : BUFFER_SIZE < encoded.length)
    (hint : encoded.length < 2 ^ 31)
    (h : Undelivered sender encoded s)
    (hstep : Receiver.step receiver brotli s e = some t) :
    Undelivered sender encoded t := by
  cases e with
  | enqueue n => exact h.enqueue hstep
  | start => exact h.start hstep
  | advance => exact h.advance hlong hint hstep

/-- **However its frame is cut, nothing of a longer message is handed over.** -/
theorem not_delivered_of_longer
    {type : CompressionType}
    {data : Nat → UInt8}
    {plain : Bytes}
    (hlong : BUFFER_SIZE < encoded.length)
    (hint : encoded.length < 2 ^ 31) :
    ¬ Delivered receiver brotli type data (frame sender encoded) plain := by
  rintro ⟨s, t, hs, -, -, -, ⟨events, hrun⟩, -, hhanded⟩
  have ht := hs.runFrom hrun
  have hnothing : Undelivered sender encoded t :=
    ht.invariant (I := Undelivered sender encoded) (undelivered_init type data)
      fun _ _ _ hs _ hstep => hs.step hlong hint hstep
  rw [hnothing.handed] at hhanded
  cases hhanded

end Longer

/-- **What can be sent.**  When `write_data` frames a message without throwing, the header
is the number of bytes behind it, and a new receiver given the frame in some chunks
delivers the message, exactly if the encoded form fits in the receiver's buffer. -/
theorem sendable_iff
    (sender receiver : Endian)
    (brotli : Brotli)
    (hlossless : brotli.Lossless)
    (channel after : SocketChannel)
    (plain framed : Bytes)
    (h : channel.writeData sender brotli plain = .ok (framed, after))
    (type : CompressionType)
    (data : Nat → UInt8) :
    headerValue (framed.take HEAD_LENGTH) = (framed.drop HEAD_LENGTH).length ∧
        Delivered receiver brotli type data framed plain ↔
      FitsReceiver brotli plain channel.compressionType := by
  obtain ⟨encoded, hencodes, rfl⟩ := writeData_eq h
  have htake : (frame sender encoded).take HEAD_LENGTH = header sender encoded := by
    rw [frame, ← frame_header_length sender encoded, List.take_left]
  have hdrop : (frame sender encoded).drop HEAD_LENGTH = encoded := by
    rw [frame, ← frame_header_length sender encoded, List.drop_left]
  rw [fitsReceiver_iff hencodes, htake, hdrop, headerValue_header]
  constructor
  · rintro ⟨hint, hdelivered⟩
    by_contra hlong
    exact not_delivered_of_longer (Nat.lt_of_not_le hlong) hint hdelivered
  · intro hfits
    refine ⟨?_, delivered_of_fits hlossless ⟨_, plain, encoded, hencodes, hfits⟩ type data⟩
    simp only [BUFFER_SIZE] at hfits
    omega

/-- A short message between hosts of different byte order. -/
theorem sendable_greeting :
    Delivered .big .identity .none (fun _ => 0) (frame .little [0, 7, 7]) [7, 7] :=
  ((sendable_iff .little .big .identity Brotli.identity_lossless
    (.init .none fun _ => 0) _ [7, 7] _ rfl .none (fun _ => 0)).mpr
      (show 2 + 1 ≤ BUFFER_SIZE by decide)).2

/-- A message of `BUFFER_SIZE` bytes: with its tag one byte too many. -/
theorem full_buffer_not_sendable :
    ¬ ∀ (sender receiver : Endian) (brotli : Brotli), brotli.Lossless →
      ∀ (channel after : SocketChannel) (plain framed : Bytes),
        channel.writeData sender brotli plain = .ok (framed, after) →
          ∀ (type : CompressionType) (data : Nat → UInt8),
            headerValue (framed.take HEAD_LENGTH) = (framed.drop HEAD_LENGTH).length ∧
              Delivered receiver brotli type data framed plain := by
  intro h
  have hsent := h .little .little .identity Brotli.identity_lossless (.init .none fun _ => 0) _
    (List.replicate BUFFER_SIZE 0) _ rfl .none (fun _ => 0)
  obtain ⟨-, hdelivered⟩ := hsent
  refine not_delivered_of_longer ?_ ?_ hdelivered
  · rw [List.length_cons, List.length_replicate]
    omega
  · rw [List.length_cons, List.length_replicate]
    decide

end Core
end ZeroRPC
