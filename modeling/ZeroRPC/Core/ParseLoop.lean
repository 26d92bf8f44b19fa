import ZeroRPC.Core.Channel
import ZeroRPC.Library.Loop

/-!
# When the loop of `parse_message` ends

One call of `parse_message` runs alone on a channel whose buffer holds any bytes, with any
length noted.  The loop is left by its `break`, which needs no length to be noted and at
most a header in the buffer, or by an exception of the decompressor.  A length that is
noted with less than that many bytes in the buffer is tested again and again.

Main facts:
* `sizeBody_iff`, `head_iff`: what the end of the loop depends on, one turn at a time;
* `parse_message_ends_iff`: the loop ends exactly when, behind whole frames that decode,
  at most a header's worth of bytes is left, or a whole frame whose decoding throws;
* `runLoop_leaves`, `runLoop_returns`: the loop takes the whole frames and leaves what is
  behind them.
-/

namespace ZeroRPC
namespace Core

open Library

/-- The next operation of a call that runs alone. -/
def aloneStep (host : Endian) (brotli : Brotli) (s : SocketChannel × Point) :
    Except Fault (SocketChannel × Point) :=
  match parseStep host brotli true s.1 s.2 with
  | .error e => .error e
  | .ok p => .ok (p.channel, p.point)

/-- An exception, and not behaviour the language leaves open. -/
def Fault.Thrown : Fault → Prop
  | .runtimeError _ => True
  | .undefined => False

/-- The call leaves its `while(1)` loop after finitely many operations. -/
def LeavesLoop (host : Endian) (brotli : Brotli) (channel : SocketChannel) (point : Point) : Prop :=
  Ends (aloneStep host brotli) (fun s => s.2 = .drain) Fault.Thrown (channel, point)

/-- Whole frames that decode; behind them at most a header's worth of bytes, or a whole
frame whose decoding throws. -/
inductive WholeFrames (host : Endian) (brotli : Brotli) : Bytes → Prop
  | few {rest : Bytes} (h : rest.length ≤ HEAD_LENGTH) : WholeFrames host brotli rest
  | frame {head body rest message : Bytes} (hhead : head.length = HEAD_LENGTH)
      (hlength : readLength host head = .ok body.length)
      (hdecode : decodeString brotli body = .ok message) (hrest : WholeFrames host brotli rest) :
      WholeFrames host brotli (head ++ (body ++ rest))
  | throws {head body rest : Bytes} {what : String} (hhead : head.length = HEAD_LENGTH)
      (hlength : readLength host head = .ok body.length)
      (hdecode : decodeString brotli body = .error (.runtimeError what)) :
      WholeFrames host brotli (head ++ (body ++ rest))

/-- A whole body of the length noted, and what `WholeFrames` says behind it. -/
inductive WholeBody (host : Endian) (brotli : Brotli) (length : Nat) : Bytes → Prop
  | decodes {body rest message : Bytes} (hlength : body.length = length)
      (hdecode : decodeString brotli body = .ok message) (hrest : WholeFrames host brotli rest) :
      WholeBody host brotli length (body ++ rest)
  | throws {body rest : Bytes} {what : String} (hlength : body.length = length)
      (hdecode : decodeString brotli body = .error (.runtimeError what)) :
      WholeBody host brotli length (body ++ rest)

/-- What the buffer has to hold, with a length noted or none. -/
def Whole (host : Endian) (brotli : Brotli) (length : Nat) (content : Bytes) : Prop :=
  if length = 0 then WholeFrames host brotli content else WholeBody host brotli length content

section Shape

variable {host : Endian} {brotli : Brotli} {length : Nat} {content : Bytes}

/-- With less than the length noted there is no whole body. -/
theorem not_wholeBody_of_short
    (hshort : content.length < length) :
    ¬ WholeBody host brotli length content := by
  intro h
  cases h with
  | decodes hlength hdecode hrest =>
      rw [List.length_append] at hshort
      omega
  | throws hlength hdecode =>
      rw [List.length_append] at hshort
      omega

/-- The first body is the one of the length noted. -/
theorem wholeBody_iff
    (hlong : length ≤ content.length) :
    WholeBody host brotli length content ↔
      (∃ message, decodeString brotli (content.take length) = .ok message ∧
          WholeFrames host brotli (content.drop length)) ∨
        ∃ what, decodeString brotli (content.take length) = .error (.runtimeError what) := by
  constructor
  · intro h
    cases h with
    | decodes hlength hdecode hrest =>
        subst hlength
        rw [List.take_left, List.drop_left]
        exact .inl ⟨_, hdecode, hrest⟩
    | throws hlength hdecode =>
        subst hlength
        rw [List.take_left]
        exact .inr ⟨_, hdecode⟩
  · intro h
    have htake : (content.take length).length = length := by
      rw [List.length_take]
      omega
    rw [← List.take_append_drop length content]
    rcases h with ⟨message, hdecode, hrest⟩ | ⟨what, hdecode⟩
    · exact .decodes htake hdecode hrest
    · exact .throws htake hdecode

/-- With more bytes than a header has, the first four are one. -/
theorem wholeFrames_iff
    (hmore : HEAD_LENGTH < content.length)
    (hlength : readLength host (content.take HEAD_LENGTH) = .ok length) :
    WholeFrames host brotli content ↔
      WholeBody host brotli length (content.drop HEAD_LENGTH) := by
  constructor
  · intro h
    cases h with
    | few hfew => omega
    | frame hhead hread hdecode hrest =>
        rw [← hhead, List.take_left, hread] at hlength
        rw [← hhead, List.drop_left]
        exact .decodes (Except.ok.inj hlength) hdecode hrest
    | throws hhead hread hdecode =>
        rw [← hhead, List.take_left, hread] at hlength
        rw [← hhead, List.drop_left]
        exact .throws (Except.ok.inj hlength) hdecode
  · intro h
    have htake : (content.take HEAD_LENGTH).length = HEAD_LENGTH := by
      rw [List.length_take]
      omega
    rw [← List.take_append_drop HEAD_LENGTH content]
    generalize content.drop HEAD_LENGTH = rest at h
    cases h with
    | decodes hbody hdecode hrest =>
        subst hbody
        exact .frame htake hlength hdecode hrest
    | throws hbody hdecode =>
        subst hbody
        exact .throws htake hlength hdecode

end Shape

/-- Four bytes are always read as a length. -/
theorem readLength_ok
    (host : Endian)
    {temp : Bytes}
    (h : temp.length = HEAD_LENGTH) :
    ∃ length, readLength host temp = .ok length := by
  rw [readLength, mem2variant, if_neg (by omega)]
  cases host with
  | little => exact ⟨_, rfl⟩
  | big => exact ⟨_, rfl⟩

/-! ### One turn of the loop -/

section Turn

variable {host : Endian} {brotli : Brotli} {channel : SocketChannel} {content : Bytes}

/-- Past an operation that succeeds. -/
theorem leavesLoop_next
    {point : Point}
    {p : Parsed}
    (hpoint : point ≠ .drain)
    (h : parseStep host brotli true channel point = .ok p) :
    LeavesLoop host brotli channel point ↔ LeavesLoop host brotli p.channel p.point := by
  refine Ends.iff_next hpoint ?_
  simp only [aloneStep, h]

/-- A length noted and less than that in the buffer. -/
def Waiting (s : SocketChannel × Point) : Prop :=
  (s.2 = .head ∨ s.2 = .sizeBody) ∧ s.1.readBufferLength ≠ 0 ∧
    s.1.readBuffer.size < s.1.readBufferLength

/-- **The loop waits for ever.** -/
theorem not_leavesLoop_of_waiting
    {point : Point}
    (h : Waiting (channel, point)) :
    ¬ LeavesLoop host brotli channel point := by
  refine Ends.not_of_invariant (I := Waiting) ?_ ?_ h
  · rintro ⟨channel, point⟩ ⟨hpoint, -⟩ hdrain
    rcases hpoint with hpoint | hpoint <;> cases hpoint <;> cases hdrain
  · rintro ⟨channel, point⟩ ⟨hpoint, hlength, hless⟩
    rcases hpoint with hpoint | hpoint
    · obtain rfl : point = .head := hpoint
      refine ⟨(channel, .sizeBody), ?_, .inr rfl, hlength, hless⟩
      simp only [aloneStep, parseStep, if_neg hlength]
    · obtain rfl : point = .sizeBody := hpoint
      refine ⟨(channel, .head), ?_, .inl rfl, hlength, hless⟩
      simp only [aloneStep, parseStep, if_neg (Nat.not_le_of_lt hless)]

/-- An empty body does not decode. -/
theorem body_ne_nil
    {body message : Bytes}
    (h : decodeString brotli body = .ok message) :
    body ≠ [] := by
  rintro rfl
  cases h

/-- From the test of the body on, with what is known of the contents that are shorter. -/
theorem sizeBody_iff
    (h : channel.readBuffer.Holds content)
    (hshorter :
      ∀ (after : SocketChannel) (rest : Bytes), after.readBuffer.Holds rest →
        after.readBufferLength = 0 → rest.length < content.length →
          (LeavesLoop host brotli after .head ↔ WholeFrames host brotli rest)) :
    LeavesLoop host brotli channel .sizeBody ↔
      WholeBody host brotli channel.readBufferLength content := by
  have hsize := h.size_eq
  by_cases hlong : channel.readBufferLength ≤ content.length
  · obtain ⟨buffer, hbuffer, htake⟩ := parseStep_takeBody host brotli true h hlong
    have htest : parseStep host brotli true channel .sizeBody =
        .ok ⟨channel, .takeBody, [], []⟩ :=
      (ParseMoves.wholeBody (hsize ▸ hlong)).parseStep_eq
    rw [wholeBody_iff hlong, leavesLoop_next (by simp) htest, leavesLoop_next (by simp) htake,
      leavesLoop_next (by simp) rfl]
    simp only
    cases hdecode : decodeString brotli (content.take channel.readBufferLength) with
    | error e =>
        have hraised :
            parseStep host brotli true
              { channel with readBuffer := buffer, readBufferLength := 0 }
              (.pushMessage (content.take channel.readBufferLength)) = .error e :=
          parseStep_pushMessage_raises host brotli true hdecode
        rw [LeavesLoop, Ends.iff_raised (e := e) (by simp) (by simp only [aloneStep, hraised])]
        cases e with
        | runtimeError what => exact iff_of_true trivial (.inr ⟨what, rfl⟩)
        | undefined =>
            refine iff_of_false id ?_
            rintro (⟨message, hok, -⟩ | ⟨what, hthrown⟩)
            · cases hok
            · cases hthrown
    | ok message =>
        have hpush :
            parseStep host brotli true
              { channel with readBuffer := buffer, readBufferLength := 0 }
              (.pushMessage (content.take channel.readBufferLength)) =
              .ok ⟨{ channel with
                  readBuffer := buffer
                  readBufferLength := 0
                  readMessages := channel.readMessages ++ [message] },
                .head, [message], []⟩ :=
          (ParseMoves.pushMessage hdecode).parseStep_eq
        have hpos := List.length_pos_of_ne_nil (body_ne_nil hdecode)
        rw [List.length_take] at hpos
        rw [leavesLoop_next (by simp) hpush, hshorter _ _ hbuffer rfl
          (by rw [List.length_drop]; omega)]
        constructor
        · intro hrest
          exact .inl ⟨message, rfl, hrest⟩
        · rintro (⟨message, -, hrest⟩ | ⟨what, hthrown⟩)
          · exact hrest
          · cases hthrown
  · have hwaiting : Waiting (channel, .sizeBody) := by
      refine ⟨.inr rfl, ?_, ?_⟩
      · show channel.readBufferLength ≠ 0
        omega
      · show channel.readBuffer.size < channel.readBufferLength
        omega
    exact iff_of_false (not_leavesLoop_of_waiting hwaiting) (not_wholeBody_of_short (by omega))

/-- From the head of the loop with no length noted. -/
theorem head_iff
    (h : channel.readBuffer.Holds content)
    (hzero : channel.readBufferLength = 0) :
    LeavesLoop host brotli channel .head ↔ WholeFrames host brotli content := by
  induction hn : content.length using Nat.strong_induction_on generalizing channel content with
  | _ n ih =>
      have hsize := h.size_eq
      have hhead : parseStep host brotli true channel .head =
          .ok ⟨channel, .sizeHeader, [], []⟩ :=
        (ParseMoves.noLength hzero).parseStep_eq
      rw [leavesLoop_next (by simp) hhead]
      by_cases hmore : HEAD_LENGTH < content.length
      · obtain ⟨buffer, hbuffer, htake⟩ := parseStep_takeHeader host brotli true h hmore.le
        have htest : parseStep host brotli true channel .sizeHeader =
            .ok ⟨channel, .takeHeader, [], []⟩ :=
          (ParseMoves.moreThanHeader (hsize ▸ hmore)).parseStep_eq
        have hfour : (content.take HEAD_LENGTH).length = HEAD_LENGTH := by
          rw [List.length_take]
          omega
        obtain ⟨length, hlength⟩ := readLength_ok host hfour
        have hstore :
            parseStep host brotli true { channel with readBuffer := buffer }
                (.storeLength (content.take HEAD_LENGTH)) =
              .ok ⟨{ channel with readBuffer := buffer, readBufferLength := length },
                .sizeBody, [], []⟩ :=
          (ParseMoves.storeLength hlength).parseStep_eq
        rw [leavesLoop_next (by simp) htest, leavesLoop_next (by simp) htake,
          leavesLoop_next (by simp) hstore, wholeFrames_iff hmore hlength]
        refine sizeBody_iff hbuffer ?_
        intro after rest hrest hnone hshorter
        rw [List.length_drop] at hshorter
        exact ih rest.length (by omega) hrest hnone rfl
      · have hbreak : parseStep host brotli true channel .sizeHeader =
            .ok ⟨channel, .drain, [], []⟩ :=
          (ParseMoves.noHeader (by omega)).parseStep_eq
        rw [leavesLoop_next (by simp) hbreak]
        exact iff_of_true (.outside rfl) (.few (by omega))

/-- **When the loop ends.**  A call of `parse_message` that runs alone leaves its loop
exactly when the buffer holds whole frames (the first without its header, if a length is
noted) that decode, and behind them at most a header's worth of bytes or a whole frame
whose decoding throws. -/
theorem parse_message_ends_iff
    (host : Endian)
    (brotli : Brotli)
    (channel : SocketChannel)
    (content : Bytes)
    (h : channel.readBuffer.Holds content) :
    LeavesLoop host brotli channel .head ↔
      Whole host brotli channel.readBufferLength content := by
  by_cases hzero : channel.readBufferLength = 0
  · rw [Whole, if_pos hzero]
    exact head_iff h hzero
  · have hhead : parseStep host brotli true channel .head =
        .ok ⟨channel, .sizeBody, [], []⟩ :=
      (ParseMoves.noted hzero).parseStep_eq
    rw [Whole, if_neg hzero, leavesLoop_next (by simp) hhead]
    exact sizeBody_iff h fun after rest hrest hnone _ => head_iff hrest hnone

end Turn

/-! ### What the loop leaves -/

/-- Whole frames that decode, and at most a header's worth of bytes behind them. -/
inductive Frames (host : Endian) (brotli : Brotli) : Bytes → Bytes → Prop
  | few {rest : Bytes} (h : rest.length ≤ HEAD_LENGTH) : Frames host brotli rest rest
  | frame {head body after rest message : Bytes} (hhead : head.length = HEAD_LENGTH)
      (hlength : readLength host head = .ok body.length)
      (hdecode : decodeString brotli body = .ok message) (hrest : Frames host brotli after rest) :
      Frames host brotli (head ++ (body ++ after)) rest

theorem Frames.whole
    {host : Endian}
    {brotli : Brotli}
    {content rest : Bytes}
    (h : Frames host brotli content rest) :
    WholeFrames host brotli content := by
  induction h with
  | few hfew => exact .few hfew
  | frame hhead hlength hdecode _ ih => exact .frame hhead hlength hdecode ih

section Leaves

variable {host : Endian} {brotli : Brotli} {channel : SocketChannel} {content rest : Bytes}

/-- At most a header's worth of bytes is left as it is. -/
theorem frames_few_iff
    (hfew : content.length ≤ HEAD_LENGTH) :
    Frames host brotli content rest ↔ rest = content := by
  constructor
  · intro h
    cases h with
    | few => rfl
    | frame hhead hlength hdecode hrest =>
        have hbody := List.length_pos_of_ne_nil (body_ne_nil hdecode)
        rw [List.length_append, List.length_append] at hfew
        omega
  · rintro rfl
    exact .few hfew

/-- With more bytes than a header has, the first frame is the one its header tells of. -/
theorem frames_iff
    {length : Nat}
    (hmore : HEAD_LENGTH < content.length)
    (hlength : readLength host (content.take HEAD_LENGTH) = .ok length) :
    Frames host brotli content rest ↔
      length ≤ (content.drop HEAD_LENGTH).length ∧
        (∃ message,
          decodeString brotli ((content.drop HEAD_LENGTH).take length) = .ok message) ∧
        Frames host brotli ((content.drop HEAD_LENGTH).drop length) rest := by
  constructor
  · intro h
    cases h with
    | few hfew => omega
    | @frame head body after _ message hhead hread hdecode hrest =>
        rw [← hhead, List.take_left, hread] at hlength
        cases hlength
        rw [← hhead, List.drop_left, List.take_left, List.drop_left]
        refine ⟨?_, ⟨message, hdecode⟩, hrest⟩
        rw [List.length_append]
        omega
  · rintro ⟨hlong, ⟨message, hdecode⟩, hrest⟩
    have htake : (content.take HEAD_LENGTH).length = HEAD_LENGTH := by
      rw [List.length_take]
      omega
    have hbody : ((content.drop HEAD_LENGTH).take length).length = length := by
      rw [List.length_take]
      omega
    have h := Frames.frame htake (hbody.symm ▸ hlength) hdecode hrest
    rwa [List.take_append_drop, List.take_append_drop] at h

end Leaves

/-- The loop of a call that runs alone, as far as so many operations go. -/
def runLoop (host : Endian) (brotli : Brotli) :
    Nat → SocketChannel × Point → Option (Except Fault SocketChannel)
  | 0, _ => none
  | operations + 1, s =>
      if s.2 = .drain then
        some (.ok s.1)
      else
        match aloneStep host brotli s with
        | .error e => some (.error e)
        | .ok t => runLoop host brotli operations t

/-- What the loop makes of the content of the buffer: it leaves what is behind the whole
frames, or throws when the content is not of that form. -/
def Leaves (host : Endian) (brotli : Brotli) (content : Bytes) :
    Except Fault SocketChannel → Prop
  | .ok after =>
      after.readBufferLength = 0 ∧
        ∃ rest, after.readBuffer.Holds rest ∧
          ∀ other, Frames host brotli content other ↔ other = rest
  | .error _ => ∀ rest, ¬ Frames host brotli content rest

section Run

variable {host : Endian} {brotli : Brotli} {channel : SocketChannel} {content : Bytes}
  {operations : Nat} {result : Except Fault SocketChannel}

/-- Past an operation that succeeds. -/
theorem runLoop_next
    {point : Point}
    {p : Parsed}
    (hpoint : point ≠ .drain)
    (hp : parseStep host brotli true channel point = .ok p)
    (h : runLoop host brotli operations (channel, point) = some result) :
    ∃ fewer, fewer < operations ∧ runLoop host brotli fewer (p.channel, p.point) = some result := by
  cases operations with
  | zero => cases h
  | succ operations =>
      rw [runLoop, if_neg hpoint] at h
      simp only [aloneStep, hp] at h
      exact ⟨operations, Nat.lt_succ_self _, h⟩

/-- An operation that throws is the last. -/
theorem runLoop_raised
    {point : Point}
    {e : Fault}
    (hpoint : point ≠ .drain)
    (hp : parseStep host brotli true channel point = .error e)
    (h : runLoop host brotli operations (channel, point) = some result) :
    result = .error e := by
  cases operations with
  | zero => cases h
  | succ operations =>
      rw [runLoop, if_neg hpoint] at h
      simp only [aloneStep, hp] at h
      exact (Option.some.inj h).symm

theorem runLoop_drain
    (h : runLoop host brotli operations (channel, .drain) = some result) :
    result = .ok channel := by
  cases operations with
  | zero => cases h
  | succ operations => exact (Option.some.inj h).symm

/-- A call that waits for the rest of a body does not come back. -/
theorem runLoop_waiting
    {point : Point}
    (hwaiting : Waiting (channel, point)) :
    runLoop host brotli operations (channel, point) = none := by
  induction operations generalizing point with
  | zero => rfl
  | succ operations ih =>
      obtain ⟨hpoint, hlength, hless⟩ := hwaiting
      rcases hpoint with hhead | hsize
      · obtain rfl : point = .head := hhead
        rw [runLoop, if_neg (by simp)]
        simp only [aloneStep, parseStep, if_neg hlength]
        exact ih ⟨.inr rfl, hlength, hless⟩
      · obtain rfl : point = .sizeBody := hsize
        rw [runLoop, if_neg (by simp)]
        simp only [aloneStep, parseStep, if_neg (Nat.not_le_of_lt hless)]
        exact ih ⟨.inl rfl, hlength, hless⟩

/-- With at most a header's worth of bytes the loop is left at once. -/
theorem runLoop_few
    (hholds : channel.readBuffer.Holds content)
    (hzero : channel.readBufferLength = 0)
    (hfew : content.length ≤ HEAD_LENGTH)
    (h : runLoop host brotli operations (channel, .head) = some result) :
    result = .ok channel := by
  have hsize := hholds.size_eq
  have hhead : parseStep host brotli true channel .head = .ok ⟨channel, .sizeHeader, [], []⟩ :=
    (ParseMoves.noLength hzero).parseStep_eq
  have hbreak : parseStep host brotli true channel .sizeHeader =
      .ok ⟨channel, .drain, [], []⟩ :=
    (ParseMoves.noHeader (by omega)).parseStep_eq
  obtain ⟨_, -, h⟩ := runLoop_next (by simp) hhead h
  obtain ⟨_, -, h⟩ := runLoop_next (by simp) hbreak h
  exact runLoop_drain h

/-- From the test of the body on: the body is there and decodes, and the loop goes on with
what is behind it, or it throws. -/
theorem runLoop_body
    (hholds : channel.readBuffer.Holds content)
    (h : runLoop host brotli operations (channel, .sizeBody) = some result) :
    channel.readBufferLength ≤ content.length ∧
      ((∃ e, decodeString brotli (content.take channel.readBufferLength) = .error e ∧
          result = .error e) ∨
        ∃ message after fewer,
          decodeString brotli (content.take channel.readBufferLength) = .ok message ∧
            after.readBuffer.Holds (content.drop channel.readBufferLength) ∧
            after.readBufferLength = 0 ∧ fewer < operations ∧
            runLoop host brotli fewer (after, .head) = some result) := by
  have hsize := hholds.size_eq
  by_cases hlong : channel.readBufferLength ≤ content.length
  · obtain ⟨buffer, hbuffer, htake⟩ := parseStep_takeBody host brotli true hholds hlong
    have htest : parseStep host brotli true channel .sizeBody =
        .ok ⟨channel, .takeBody, [], []⟩ :=
      (ParseMoves.wholeBody (hsize ▸ hlong)).parseStep_eq
    obtain ⟨first, hfirst, h⟩ := runLoop_next (by simp) htest h
    obtain ⟨second, hsecond, h⟩ := runLoop_next (by simp) htake h
    obtain ⟨third, hthird, h⟩ := runLoop_next (by simp) rfl h
    refine ⟨hlong, ?_⟩
    cases hdecode : decodeString brotli (content.take channel.readBufferLength) with
    | error e =>
        have hraised :
            parseStep host brotli true
              { channel with readBuffer := buffer, readBufferLength := 0 }
              (.pushMessage (content.take channel.readBufferLength)) = .error e :=
          parseStep_pushMessage_raises host brotli true hdecode
        exact .inl ⟨e, rfl, runLoop_raised (by simp) hraised h⟩
    | ok message =>
        have hpush :
            parseStep host brotli true
              { channel with readBuffer := buffer, readBufferLength := 0 }
              (.pushMessage (content.take channel.readBufferLength)) =
              .ok ⟨{ channel with
                  readBuffer := buffer
                  readBufferLength := 0
                  readMessages := channel.readMessages ++ [message] },
                .head, [message], []⟩ :=
          (ParseMoves.pushMessage hdecode).parseStep_eq
        obtain ⟨fourth, hfourth, h⟩ := runLoop_next (by simp) hpush h
        exact .inr ⟨message, _, fourth, rfl, hbuffer, rfl, by omega, h⟩
  · have hwaiting : Waiting (channel, .sizeBody) := by
      refine ⟨.inr rfl, ?_, ?_⟩
      · show channel.readBufferLength ≠ 0
        omega
      · show channel.readBuffer.size < channel.readBufferLength
        omega
    rw [runLoop_waiting hwaiting] at h
    cases h

/-- More operations do not change what a loop makes that ends. -/
theorem runLoop_mono
    {s : SocketChannel × Point}
    {more : Nat}
    (hle : operations ≤ more)
    (h : runLoop host brotli operations s = some result) :
    runLoop host brotli more s = some result := by
  induction operations generalizing s more with
  | zero => cases h
  | succ operations ih =>
      obtain ⟨more, rfl⟩ : ∃ n, more = n + 1 := ⟨more - 1, by omega⟩
      rw [runLoop] at h ⊢
      by_cases hdrain : s.2 = .drain
      · rwa [if_pos hdrain] at h ⊢
      · rw [if_neg hdrain] at h ⊢
        cases hstep : aloneStep host brotli s with
        | error e => rwa [hstep] at h
        | ok t =>
            rw [hstep] at h
            exact ih (by omega) h

/-- A loop that ends makes something. -/
theorem runLoop_of_leavesLoop
    {point : Point}
    (h : LeavesLoop host brotli channel point) :
    ∃ operations result, runLoop host brotli operations (channel, point) = some result := by
  suffices hany : ∀ s, Ends (aloneStep host brotli) (fun s => s.2 = .drain) Fault.Thrown s →
      ∃ operations result, runLoop host brotli operations s = some result from hany _ h
  intro s hends
  induction hends with
  | outside hdrain => exact ⟨1, _, by rw [runLoop, if_pos hdrain]⟩
  | @raised s e hstep he =>
      by_cases hdrain : s.2 = .drain
      · exact ⟨1, _, by rw [runLoop, if_pos hdrain]⟩
      · refine ⟨1, .error e, ?_⟩
        rw [runLoop, if_neg hdrain, hstep]
  | @next s t hstep _ ih =>
      by_cases hdrain : s.2 = .drain
      · exact ⟨1, _, by rw [runLoop, if_pos hdrain]⟩
      · obtain ⟨operations, result, hrun⟩ := ih
        refine ⟨operations + 1, result, ?_⟩
        rw [runLoop, if_neg hdrain, hstep]
        exact hrun

/-- **What the loop leaves**, from its head with no length noted. -/
theorem runLoop_leaves
    (hholds : channel.readBuffer.Holds content)
    (hzero : channel.readBufferLength = 0)
    (h : runLoop host brotli operations (channel, .head) = some result) :
    Leaves host brotli content result := by
  induction operations using Nat.strong_induction_on generalizing channel content with
  | _ n ih =>
      by_cases hfew : content.length ≤ HEAD_LENGTH
      · rw [runLoop_few hholds hzero hfew h]
        exact ⟨hzero, content, hholds, fun other => frames_few_iff hfew⟩
      · have hmore : HEAD_LENGTH < content.length := by omega
        have hsize := hholds.size_eq
        have hhead : parseStep host brotli true channel .head =
            .ok ⟨channel, .sizeHeader, [], []⟩ :=
          (ParseMoves.noLength hzero).parseStep_eq
        have htest : parseStep host brotli true channel .sizeHeader =
            .ok ⟨channel, .takeHeader, [], []⟩ :=
          (ParseMoves.moreThanHeader (hsize ▸ hmore)).parseStep_eq
        obtain ⟨buffer, hbuffer, htake⟩ := parseStep_takeHeader host brotli true hholds hmore.le
        have hfour : (content.take HEAD_LENGTH).length = HEAD_LENGTH := by
          rw [List.length_take]
          omega
        obtain ⟨length, hlength⟩ := readLength_ok host hfour
        have hstore :
            parseStep host brotli true { channel with readBuffer := buffer }
                (.storeLength (content.take HEAD_LENGTH)) =
              .ok ⟨{ channel with readBuffer := buffer, readBufferLength := length },
                .sizeBody, [], []⟩ :=
          (ParseMoves.storeLength hlength).parseStep_eq
        obtain ⟨first, hfirst, h⟩ := runLoop_next (by simp) hhead h
        obtain ⟨second, hsecond, h⟩ := runLoop_next (by simp) htest h
        obtain ⟨third, hthird, h⟩ := runLoop_next (by simp) htake h
        obtain ⟨fourth, hfourth, h⟩ := runLoop_next (by simp) hstore h
        obtain ⟨hlong, hbody⟩ := runLoop_body hbuffer h
        rcases hbody with ⟨e, hdecode, rfl⟩ | hdecodes
        · intro rest hframes
          obtain ⟨-, ⟨message, hok⟩, -⟩ := (frames_iff hmore hlength).mp hframes
          rw [hdecode] at hok
          cases hok
        · obtain ⟨message, after, fewer, hdecode, hafter, hnone, hless, h⟩ := hdecodes
          have hrest := ih fewer (by omega) hafter hnone h
          cases result with
          | error e =>
              intro rest hframes
              exact hrest rest ((frames_iff hmore hlength).mp hframes).2.2
          | ok left =>
              obtain ⟨hleft, rest, hholds, hother⟩ := hrest
              refine ⟨hleft, rest, hholds, fun other => ?_⟩
              rw [frames_iff hmore hlength, hother]
              exact ⟨fun hframes => hframes.2.2, fun heq => ⟨hlong, ⟨message, hdecode⟩, heq⟩⟩

/-- **Whole frames are taken**, with enough operations. -/
theorem runLoop_returns
    {rest : Bytes}
    (hholds : channel.readBuffer.Holds content)
    (hzero : channel.readBufferLength = 0)
    (hframes : Frames host brotli content rest) :
    ∃ operations after, runLoop host brotli operations (channel, .head) = some (.ok after) := by
  obtain ⟨operations, result, hrun⟩ :=
    runLoop_of_leavesLoop ((head_iff hholds hzero).mpr hframes.whole)
  have hleaves := runLoop_leaves hholds hzero hrun
  cases result with
  | error e => exact absurd hframes (hleaves rest)
  | ok after => exact ⟨operations, after, hrun⟩

end Run

/-! ### From a new channel -/

/-- The channel after chunks were enqueued in its buffer. -/
def SocketChannel.receive : SocketChannel → List Bytes → Except Fault SocketChannel
  | channel, [] => .ok channel
  | channel, chunk :: chunks =>
      match channel.readBuffer.enqueue chunk with
      | .error e => .error e
      | .ok buffer => receive { channel with readBuffer := buffer } chunks

/-- As long as the chunks fit, the buffer holds them all. -/
theorem receive_holds
    {channel : SocketChannel}
    {content : Bytes}
    (h : channel.readBuffer.Holds content)
    (chunks : List Bytes)
    (hroom : content.length + chunks.flatten.length ≤ BUFFER_SIZE) :
    ∃ after, channel.receive chunks = .ok after ∧
      after.readBuffer.Holds (content ++ chunks.flatten) ∧
      after.readBufferLength = channel.readBufferLength := by
  induction chunks generalizing channel content with
  | nil => exact ⟨channel, rfl, by simpa using h, rfl⟩
  | cons chunk chunks ih =>
      rw [List.flatten_cons, List.length_append] at hroom
      have hchunk : content.length + chunk.length ≤ BUFFER_SIZE := by omega
      obtain ⟨buffer, henqueue, hbuffer⟩ := h.enqueue hchunk
      have hnext : ∃ after, { channel with readBuffer := buffer }.receive chunks = .ok after ∧
          after.readBuffer.Holds (content ++ chunk ++ chunks.flatten) ∧
          after.readBufferLength = channel.readBufferLength :=
        ih hbuffer (by rw [List.length_append]; omega)
      obtain ⟨after, hreceive, hholds, hlength⟩ := hnext
      refine ⟨after, ?_, ?_, hlength⟩
      · rw [SocketChannel.receive, henqueue]
        exact hreceive
      · rwa [List.flatten_cons, ← List.append_assoc]

/-- A frame that has arrived whole, in two chunks. -/
theorem parse_message_ends_after_frame :
    ∃ channel, (SocketChannel.init .none fun _ => 0).receive [[2, 0, 0, 0], [0, 7]] = .ok channel ∧
      LeavesLoop .little .identity channel .head := by
  have hempty : (SocketChannel.init .none fun _ => 0).readBuffer.Holds [] :=
    Buffer.init_holds _ (by decide)
  obtain ⟨channel, hreceive, hholds, hlength⟩ :=
    receive_holds hempty [[2, 0, 0, 0], [0, 7]] (by decide)
  refine ⟨channel, hreceive, (parse_message_ends_iff _ _ channel _ hholds).mpr ?_⟩
  have hzero : channel.readBufferLength = 0 := hlength
  rw [Whole, if_pos hzero]
  have hnone : WholeFrames .little .identity [] := .few (by decide)
  have hlong : ([0, 7] : Bytes).length = 2 := rfl
  have hbody : WholeBody .little .identity 2 [0, 7] := .decodes hlong rfl hnone
  exact (wholeFrames_iff (by decide) rfl).mpr hbody

/-- The header of a body of two bytes, and the first of them. -/
theorem parse_message_spins :
    ¬ ∀ (host : Endian) (brotli : Brotli) (type : CompressionType) (data : Nat → UInt8)
        (chunks : List Bytes) (channel : SocketChannel),
        (SocketChannel.init type data).receive chunks = .ok channel →
          LeavesLoop host brotli channel .head := by
  intro h
  have hempty : (SocketChannel.init .none fun _ => 0).readBuffer.Holds [] :=
    Buffer.init_holds _ (by decide)
  obtain ⟨channel, hreceive, hholds, hlength⟩ :=
    receive_holds hempty [[2, 0, 0, 0, 0]] (by decide)
  have hzero : channel.readBufferLength = 0 := hlength
  have hends := h .little .identity .none (fun _ => 0) _ channel hreceive
  rw [parse_message_ends_iff _ _ channel _ hholds, Whole, if_pos hzero] at hends
  have hwhole : WholeBody .little .identity 2 [0] := (wholeFrames_iff (by decide) rfl).mp hends
  exact not_wholeBody_of_short (by decide) hwhole

end Core
end ZeroRPC
