import ZeroRPC.Core.Channel

/-!
# Decompression into a growing vector

`Brotli::decompress` lets a streaming decoder write into a vector.  Each call offers what is
free behind the bytes decoded so far, at first nothing; when the decoder needs more space,
the vector is made twice as long.  The decoder is a parameter; what the code relies on is
its contract, for a whole compressed stream or a broken one.  The vector can always grow.

Main facts:
* `Decoded.turn`: a turn stays inside the vector, keeps what was decoded, and either ends
  the loop or leaves less to decode;
* `Brotli.ofDecoder_decompress`: the decompressor of a channel is this function;
* `decompress_whole_output`: the loop ends, with the whole output of a whole stream, and an
  exception for a broken one.
-/

namespace ZeroRPC
namespace Core

/-! ### The decoder -/

inductive BrotliDecoderResult
  | error
  | success
  | needsMoreInput
  | needsMoreOutput
deriving DecidableEq

/-- What a call of `BrotliDecoderDecompressStream` gives back: the state, the input that is
left, what it wrote to `next_out`, and how much was written in all. -/
structure DecoderCall (σ : Type) where
  state : σ
  nextIn : Bytes
  written : Bytes
  totalOut : Nat
  result : BrotliDecoderResult

/-- A decoder; there may be no instance.  A call gets the input that is left and the size of
the space at `next_out`. -/
structure StreamDecoder where
  State : Type
  createInstance : Option State
  decompressStream : State → Bytes → Nat → DecoderCall State

/-- What an input stands for: all of some output, or, if it is bad or truncated, no more than
so many bytes before the decoder notices. -/
inductive Compressed
  | whole (output : Bytes)
  | broken (bound : Nat)

namespace Compressed

def length : Compressed → Nat
  | .whole output => output.length
  | .broken bound => bound

/-- The contract of one call, with `written` bytes before it and space for `availableOut`. -/
def Allows {σ : Type} (stream : Compressed) (written availableOut : Nat) (call : DecoderCall σ) :
    Prop :=
  call.totalOut = written + call.written.length ∧
    match stream with
    | .whole output =>
        call.written = (output.drop written).take availableOut ∧
          call.result =
            if written + availableOut < output.length then .needsMoreOutput else .success
    | .broken bound =>
        call.written.length ≤ availableOut ∧
          (call.result = .needsMoreOutput ∧ call.written.length = availableOut ∧
              written + availableOut < bound ∨
            call.result = .error ∨ call.result = .needsMoreInput)

end Compressed

/-- An instance after calls that all needed more space: its state, the input that is left and
the number of bytes written. -/
inductive Decoding (d : StreamDecoder) (state₀ : d.State) (input : Bytes) :
    d.State → Bytes → Nat → Prop
  | start : Decoding d state₀ input state₀ input 0
  | more {state : d.State} {nextIn : Bytes} {written : Nat} (availableOut : Nat)
      (h : Decoding d state₀ input state nextIn written)
      (hmore : (d.decompressStream state nextIn availableOut).result = .needsMoreOutput) :
      Decoding d state₀ input (d.decompressStream state nextIn availableOut).state
        (d.decompressStream state nextIn availableOut).nextIn
        (written + (d.decompressStream state nextIn availableOut).written.length)

/-- The decoder keeps its contract on an input, whatever space it is offered. -/
def ObeysContract (d : StreamDecoder) (input : Bytes) (stream : Compressed) : Prop :=
  ∀ state₀, d.createInstance = some state₀ →
    ∀ state nextIn written, Decoding d state₀ input state nextIn written →
      ∀ availableOut,
        stream.Allows written availableOut (d.decompressStream state nextIn availableOut)

/-! ### The loop -/

/-- `resize`. -/
def resize (vector : Bytes) (size : Nat) : Bytes :=
  vector.take size ++ List.replicate (size - vector.length) 0

/-- The vector after bytes were written at an offset. -/
def writeAt (vector : Bytes) (offset : Nat) (bytes : Bytes) : Bytes :=
  vector.take offset ++ bytes ++ vector.drop (offset + bytes.length)

/-- The local variables between two turns of the loop. -/
structure Decompressing (σ : Type) where
  state : σ
  nextIn : Bytes
  decodedSize : Nat
  decompressed : Bytes

namespace Decompressing

/-- `decompressed.size() - decoded_size`, of two `size_t`. -/
def availableOut {σ : Type} (s : Decompressing σ) : Nat :=
  if s.decodedSize ≤ s.decompressed.length then
    s.decompressed.length - s.decodedSize
  else
    2 ^ 64 - (s.decodedSize - s.decompressed.length)

/-- What is offered to the decoder lies in the vector. -/
def OffersVector {σ : Type} (s : Decompressing σ) : Prop :=
  s.decodedSize + s.availableOut ≤ s.decompressed.length

instance {σ : Type} (s : Decompressing σ) : Decidable s.OffersVector :=
  inferInstanceAs (Decidable (_ ≤ _))

/-- The size for more output. -/
def newSize (size : Nat) : Nat := if size * 2 = 0 then 1024 else size * 2

/-- The body of the loop, with the result of the call. -/
def turn (d : StreamDecoder) (s : Decompressing d.State) :
    Except Fault (Decompressing d.State × BrotliDecoderResult) :=
  if s.OffersVector then
    let call := d.decompressStream s.state s.nextIn s.availableOut
    let decompressed := writeAt s.decompressed s.decodedSize call.written
    .ok
      ({ state := call.state
         nextIn := call.nextIn
         decodedSize := call.totalOut
         decompressed :=
          if call.result = .needsMoreOutput then
            resize decompressed (newSize decompressed.length)
          else
            decompressed },
        call.result)
  else
    .error .undefined

/-- The loop, for at most so many turns. -/
def loop (d : StreamDecoder) (turns : Nat) (s : Decompressing d.State) :
    Option (Except Fault (Decompressing d.State × BrotliDecoderResult)) :=
  match turns with
  | 0 => none
  | turns + 1 =>
      match s.turn d with
      | .error e => some (.error e)
      | .ok (t, result) =>
          if result = .needsMoreOutput then loop d turns t else some (.ok (t, result))

/-- Before the loop. -/
def start {σ : Type} (state : σ) (compressedData : Bytes) : Decompressing σ where
  state := state
  nextIn := compressedData
  decodedSize := 0
  decompressed := []

/-- A state in which the loop begins a turn. -/
inductive Begins (d : StreamDecoder) (state₀ : d.State) (input : Bytes) :
    Decompressing d.State → Prop
  | first : Begins d state₀ input (start state₀ input)
  | next {s t : Decompressing d.State} (h : Begins d state₀ input s)
      (hturn : s.turn d = .ok (t, .needsMoreOutput)) : Begins d state₀ input t

end Decompressing

open Decompressing

/-- `Brotli::decompress`, whose loop makes at most so many turns. -/
def decompress (d : StreamDecoder) (turns : Nat) (compressedData : Bytes) :
    Option (Except Fault Bytes) :=
  match d.createInstance with
  | none => some (.error (.runtimeError "Failed to create Brotli decoder instance"))
  | some state =>
      match loop d turns (start state compressedData) with
      | none => none
      | some (.error e) => some (.error e)
      | some (.ok (s, result)) =>
          if result = .success then
            some (.ok (resize s.decompressed s.decodedSize))
          else
            some (.error (.runtimeError "Brotli decompression failed"))

/-! ### Vectors -/

section Vectors

variable {vector bytes : Bytes} {offset size : Nat}

theorem resize_of_le
    (h : size ≤ vector.length) :
    resize vector size = vector.take size := by
  rw [resize, Nat.sub_eq_zero_of_le h, List.replicate_zero, List.append_nil]

@[simp] theorem resize_length :
    (resize vector size).length = size := by
  rw [resize, List.length_append, List.length_take, List.length_replicate]
  omega

/-- What was there stays. -/
theorem take_resize
    (hsize : offset ≤ size)
    (hvector : offset ≤ vector.length) :
    (resize vector size).take offset = vector.take offset := by
  rw [resize, List.take_append_of_le_length (by rw [List.length_take]; omega), List.take_take,
    Nat.min_eq_left hsize]

theorem writeAt_length
    (h : offset + bytes.length ≤ vector.length) :
    (writeAt vector offset bytes).length = vector.length := by
  simp only [writeAt, List.length_append, List.length_take, List.length_drop]
  omega

theorem take_writeAt
    (h : offset ≤ vector.length) :
    (writeAt vector offset bytes).take (offset + bytes.length) = vector.take offset ++ bytes := by
  have hlength : (vector.take offset ++ bytes).length = offset + bytes.length := by
    rw [List.length_append, List.length_take, Nat.min_eq_left h]
  rw [writeAt, ← hlength, List.take_left]

theorem lt_newSize (size : Nat) : size < newSize size := by
  unfold newSize
  split <;> omega

end Vectors

/-! ### A turn -/

section Turn

variable {d : StreamDecoder} {state₀ : d.State} {input : Bytes} {stream : Compressed}
  {s : Decompressing d.State}

/-- Between two turns the vector begins with what was decoded, and, unless it is empty, has
space behind it. -/
structure Decoded (d : StreamDecoder) (state₀ : d.State) (input : Bytes) (stream : Compressed)
    (s : Decompressing d.State) : Prop where
  decoding : Decoding d state₀ input s.state s.nextIn s.decodedSize
  behind : s.decodedSize ≤ stream.length
  room : (s.decompressed = [] ∧ s.decodedSize = 0) ∨ s.decodedSize < s.decompressed.length
  decoded : ∀ output, stream = .whole output →
    s.decompressed.take s.decodedSize = output.take s.decodedSize

theorem decoded_start : Decoded d state₀ input stream (start state₀ input) where
  decoding := .start
  behind := Nat.zero_le _
  room := .inl ⟨rfl, rfl⟩
  decoded := fun _ _ => rfl

theorem Decoded.inside
    (h : Decoded d state₀ input stream s) :
    s.decodedSize ≤ s.decompressed.length := by
  rcases h.room with ⟨-, hzero⟩ | hless
  · omega
  · exact hless.le

theorem Decoded.availableOut_eq
    (h : Decoded d state₀ input stream s) :
    s.decodedSize + s.availableOut = s.decompressed.length := by
  have hinside := h.inside
  rw [availableOut, if_pos hinside]
  omega

/-- Nothing outside the vector is offered. -/
theorem Decoded.offersVector
    (h : Decoded d state₀ input stream s) :
    s.OffersVector :=
  h.availableOut_eq.le

/-- What is still to be decoded, and that the vector is empty at first. -/
def remaining (stream : Compressed) (s : Decompressing d.State) : Nat :=
  2 * (stream.length - s.decodedSize) + if s.decompressed = [] then 1 else 0

/-- After the last turn: all of the output, or a failure. -/
def Finished (stream : Compressed) (s : Decompressing d.State) (result : BrotliDecoderResult) :
    Prop :=
  match stream with
  | .whole output => result = .success ∧ resize s.decompressed s.decodedSize = output
  | .broken _ => result = .error ∨ result = .needsMoreInput

/-- When the decoder needs more space, it has filled what it was offered. -/
theorem Compressed.Allows.filled
    {σ : Type}
    {written availableOut : Nat}
    {call : DecoderCall σ}
    (h : stream.Allows written availableOut call)
    (hmore : call.result = .needsMoreOutput) :
    call.written.length = availableOut ∧ written + availableOut < stream.length := by
  obtain ⟨-, hcontract⟩ := h
  cases stream with
  | whole output =>
      obtain ⟨hwritten, hresult⟩ := hcontract
      rw [hmore] at hresult
      split at hresult
      case isTrue hless =>
        refine ⟨?_, hless⟩
        rw [hwritten, List.length_take, List.length_drop]
        omega
      · cases hresult
  | broken bound =>
      obtain ⟨-, ⟨-, hlength, hless⟩ | herror | hinput⟩ := hcontract
      · exact ⟨hlength, hless⟩
      · rw [hmore] at herror
        cases herror
      · rw [hmore] at hinput
        cases hinput

/-- The decoder needs more space: the vector is full, and grows. -/
theorem Decoded.grow
    (h : Decoded d state₀ input stream s)
    (hallows : stream.Allows s.decodedSize s.availableOut
      (d.decompressStream s.state s.nextIn s.availableOut))
    (hmore : (d.decompressStream s.state s.nextIn s.availableOut).result = .needsMoreOutput) :
    ∃ t, s.turn d = .ok (t, .needsMoreOutput) ∧ Decoded d state₀ input stream t ∧
      remaining stream t < remaining stream s := by
  have hfull := h.availableOut_eq
  obtain ⟨hfilled, hless⟩ := hallows.filled hmore
  obtain ⟨htotal, hcontract⟩ := hallows
  have hdecoding := h.decoding.more s.availableOut hmore
  rw [← htotal] at hdecoding
  unfold turn
  rw [if_pos h.offersVector]
  simp only [hmore, if_true]
  generalize d.decompressStream s.state s.nextIn s.availableOut = call at *
  have hlength : (writeAt s.decompressed s.decodedSize call.written).length =
      s.decompressed.length := writeAt_length (by omega)
  have hgrown := lt_newSize (writeAt s.decompressed s.decodedSize call.written).length
  refine ⟨_, rfl, ⟨hdecoding, ?_, .inr ?_, ?_⟩, ?_⟩
  · simp only
    omega
  · simp only [resize_length]
    omega
  · rintro output rfl
    simp only
    rw [take_resize (by omega) (by omega), htotal, take_writeAt h.inside, h.decoded output rfl,
      hfilled, hcontract.1, List.take_add]
  · have hnonempty : resize (writeAt s.decompressed s.decodedSize call.written)
        (newSize (writeAt s.decompressed s.decodedSize call.written).length) ≠ [] := by
      rw [← List.length_pos_iff, resize_length]
      omega
    simp only [remaining, if_neg hnonempty, htotal, hfilled]
    rcases h.room with ⟨hempty, hzero⟩ | hspace
    · rw [if_pos hempty]
      omega
    · omega

/-- The decoder needs no more space: the loop is over. -/
theorem Decoded.finish
    (h : Decoded d state₀ input stream s)
    (hallows : stream.Allows s.decodedSize s.availableOut
      (d.decompressStream s.state s.nextIn s.availableOut))
    (hlast : (d.decompressStream s.state s.nextIn s.availableOut).result ≠ .needsMoreOutput) :
    ∃ t result, s.turn d = .ok (t, result) ∧ result ≠ .needsMoreOutput ∧
      Finished stream t result := by
  have hfull := h.availableOut_eq
  obtain ⟨htotal, hcontract⟩ := hallows
  unfold turn
  rw [if_pos h.offersVector]
  generalize d.decompressStream s.state s.nextIn s.availableOut = call at *
  simp only [if_neg hlast]
  refine ⟨_, _, rfl, hlast, ?_⟩
  cases stream with
  | broken bound =>
      obtain ⟨-, ⟨hmore, -⟩ | hfailed⟩ := hcontract
      · exact absurd hmore hlast
      · exact hfailed
  | whole output =>
      obtain ⟨hwritten, hresult⟩ := hcontract
      split at hresult
      case isTrue => exact absurd hresult hlast
      case isFalse hall =>
        have hbehind : s.decodedSize ≤ output.length := h.behind
        have hrest : call.written = output.drop s.decodedSize := by
          rw [hwritten, List.take_of_length_le (by rw [List.length_drop]; omega)]
        have hlength : call.written.length = output.length - s.decodedSize := by
          rw [hrest, List.length_drop]
        refine ⟨hresult, ?_⟩
        have hfits : call.totalOut ≤
            (writeAt s.decompressed s.decodedSize call.written).length := by
          rw [writeAt_length (by omega)]
          omega
        rw [resize_of_le hfits, htotal, take_writeAt h.inside, h.decoded output rfl, hrest,
          List.take_append_drop]

/-- **A turn** ends the loop with what it should end with, or leaves less to decode. -/
theorem Decoded.turn
    (hobeys : ObeysContract d input stream)
    (hinstance : d.createInstance = some state₀)
    (h : Decoded d state₀ input stream s) :
    (∃ t, s.turn d = .ok (t, .needsMoreOutput) ∧ Decoded d state₀ input stream t ∧
        remaining stream t < remaining stream s) ∨
      ∃ t result, s.turn d = .ok (t, result) ∧ result ≠ .needsMoreOutput ∧
        Finished stream t result := by
  have hallows := hobeys state₀ hinstance _ _ _ h.decoding s.availableOut
  by_cases hmore :
      (d.decompressStream s.state s.nextIn s.availableOut).result = .needsMoreOutput
  · exact .inl (h.grow hallows hmore)
  · exact .inr (h.finish hallows hmore)

end Turn

/-! ### The loop and the function -/

section Loop

variable {d : StreamDecoder} {state₀ : d.State} {input : Bytes} {stream : Compressed}
  {s : Decompressing d.State}

/-- With more turns than there is to decode, the loop ends. -/
theorem Decoded.loop
    (hobeys : ObeysContract d input stream)
    (hinstance : d.createInstance = some state₀)
    (h : Decoded d state₀ input stream s)
    {turns : Nat}
    (henough : remaining stream s < turns) :
    ∃ t result, loop d turns s = some (.ok (t, result)) ∧ Finished stream t result := by
  induction turns generalizing s with
  | zero => omega
  | succ turns ih =>
      rcases h.turn hobeys hinstance with ⟨t, hturn, ht, hless⟩ | ⟨t, result, hturn, hlast, hdone⟩
      · obtain ⟨u, result, hloop, hdone⟩ := ih ht (by omega)
        refine ⟨u, result, ?_, hdone⟩
        rw [Decompressing.loop, hturn]
        exact hloop
      · refine ⟨t, result, ?_, hdone⟩
        rw [Decompressing.loop, hturn]
        exact if_neg hlast

/-- Every turn begins between two turns. -/
theorem begins_decoded
    (hobeys : ObeysContract d input stream)
    (hinstance : d.createInstance = some state₀)
    (h : Begins d state₀ input s) :
    Decoded d state₀ input stream s := by
  induction h with
  | first => exact decoded_start
  | @next s t _ hturn ih =>
      rcases ih.turn hobeys hinstance with ⟨t', hturn', ht, -⟩ | ⟨t', result, hturn', hlast, -⟩
      · rw [hturn] at hturn'
        cases hturn'
        exact ht
      · rw [hturn] at hturn'
        cases hturn'
        exact absurd rfl hlast

end Loop

/-- What `decompress` should give: the whole output of a whole stream, else an exception. -/
def decompressed (d : StreamDecoder) (stream : Compressed) : Except Fault Bytes :=
  match d.createInstance, stream with
  | none, _ => .error (.runtimeError "Failed to create Brotli decoder instance")
  | some _, .whole output => .ok output
  | some _, .broken _ => .error (.runtimeError "Brotli decompression failed")

/-- With enough turns, the function gives what it should. -/
theorem decompress_eventually
    {d : StreamDecoder}
    {input : Bytes}
    {stream : Compressed}
    (hobeys : ObeysContract d input stream) :
    ∃ enough, ∀ turns, enough ≤ turns →
      decompress d turns input = some (decompressed d stream) := by
  cases hinstance : d.createInstance with
  | none =>
      refine ⟨0, fun turns _ => ?_⟩
      simp only [decompress, decompressed, hinstance]
  | some state₀ =>
      refine ⟨remaining stream (start state₀ input) + 1, fun turns hturns => ?_⟩
      have hstart : Decoded d state₀ input stream (start state₀ input) := decoded_start
      obtain ⟨t, result, hloop, hdone⟩ := hstart.loop hobeys hinstance hturns
      simp only [decompress, decompressed, hinstance, hloop]
      cases stream with
      | whole output =>
          obtain ⟨rfl, hall⟩ := hdone
          rw [if_pos rfl, hall]
      | broken bound =>
          have hfailed : result ≠ .success := by
            rcases hdone with rfl | rfl
            · exact nofun
            · exact nofun
          rw [if_neg hfailed]

/-- The compressor of a channel whose decoder makes of each input what it stands for. -/
def Brotli.ofDecoder (compress : Bytes → Except Fault Bytes) (d : StreamDecoder)
    (stream : Bytes → Compressed) : Brotli where
  compress := compress
  decompress := fun data => decompressed d (stream data)

/-- **The decompressor of such a channel is the function.** -/
theorem Brotli.ofDecoder_decompress
    {d : StreamDecoder}
    {stream : Bytes → Compressed}
    (compress : Bytes → Except Fault Bytes)
    (hobeys : ∀ input, ObeysContract d input (stream input))
    (data : Bytes) :
    ∃ enough, ∀ turns, enough ≤ turns →
      Core.decompress d turns data = some ((ofDecoder compress d stream).decompress data) :=
  decompress_eventually (hobeys data)

/-- What is compressed to a whole stream of itself is not lost. -/
theorem Brotli.ofDecoder_lossless
    {compress : Bytes → Except Fault Bytes}
    {d : StreamDecoder}
    {stream : Bytes → Compressed}
    {state₀ : d.State}
    (hinstance : d.createInstance = some state₀)
    (hstream : ∀ data compressed, compress data = .ok compressed →
      stream compressed = .whole data) :
    (ofDecoder compress d stream).Lossless := by
  intro data compressed hcompress
  have hwhole : stream compressed = .whole data := hstream data compressed hcompress
  simp only [ofDecoder, decompressed, hinstance, hwhole]

/-- **Decompression yields the whole output**, or throws, after finitely many turns, each of
which offers the decoder space in the vector only. -/
theorem decompress_whole_output
    (d : StreamDecoder)
    (input : Bytes)
    (stream : Compressed)
    (hobeys : ObeysContract d input stream) :
    (∃ enough, ∀ turns, enough ≤ turns →
        decompress d turns input = some (decompressed d stream)) ∧
      ∀ state₀, d.createInstance = some state₀ →
        ∀ s, Begins d state₀ input s → s.OffersVector := by
  refine ⟨decompress_eventually hobeys, ?_⟩
  intro state₀ hinstance s hbegins
  exact (begins_decoded hobeys hinstance hbegins).offersVector

/-- A decoder on an input that stands for an output; its state is what was written. -/
def StreamDecoder.giving (output : Bytes) : StreamDecoder where
  State := Nat
  createInstance := some 0
  decompressStream written _ availableOut :=
    let bytes := (output.drop written).take availableOut
    { state := written + bytes.length
      nextIn := []
      written := bytes
      totalOut := written + bytes.length
      result := if written + availableOut < output.length then .needsMoreOutput else .success }

theorem giving_obeys
    (output input : Bytes) :
    ObeysContract (.giving output) input (.whole output) := by
  intro state₀ hinstance state nextIn written hdecoding availableOut
  have hzero : (0 : Nat) = state₀ := Option.some.inj hinstance
  have hstate : (state : Nat) = written := by
    induction hdecoding with
    | start => exact hzero.symm
    | more availableOut _ _ ih =>
        subst ih
        rfl
  subst hstate
  exact ⟨rfl, rfl, rfl⟩

/-- `hello` in one meta-block that is not compressed, and an empty last one. -/
theorem hello_decompressed :
    (∃ enough, ∀ turns, enough ≤ turns →
        decompress (.giving [104, 101, 108, 108, 111]) turns
          [11, 2, 128, 104, 101, 108, 108, 111, 3] = some (.ok [104, 101, 108, 108, 111])) ∧
      ∀ state₀, (StreamDecoder.giving [104, 101, 108, 108, 111]).createInstance = some state₀ →
        ∀ s, Begins (.giving [104, 101, 108, 108, 111]) state₀
          [11, 2, 128, 104, 101, 108, 108, 111, 3] s → s.OffersVector :=
  decompress_whole_output (.giving [104, 101, 108, 108, 111])
    [11, 2, 128, 104, 101, 108, 108, 111, 3] (.whole [104, 101, 108, 108, 111])
    (giving_obeys [104, 101, 108, 108, 111] [11, 2, 128, 104, 101, 108, 108, 111, 3])

end Core
end ZeroRPC
