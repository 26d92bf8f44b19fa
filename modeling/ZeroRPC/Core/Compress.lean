import ZeroRPC.Core.Decompress
import ZeroRPC.Core.Traffic

/-!
# Compression, and back

`Brotli::compress` asks for the largest size the result can have, lets the encoder write into
a vector of that size, and cuts the vector to what was written.  With no such size, or if the
encoder fails, it throws.  The encoder is a parameter, like the decoder.

Main facts:
* `compress_eq`: what is returned is what the encoder wrote, inside the vector;
* `compress_round_trip`: for every input `compress` throws because there is no size for the
  result, or `decompress` gives the input back;
* `Brotli.ofLibraries_lossless`, `encodedFits_of_max`: so a channel with these libraries loses
  nothing, and carries what has a small enough size.
-/

namespace ZeroRPC
namespace Core

/-! ### The encoder -/

/-- What a call of `BrotliEncoderCompress` gives back: whether it succeeded, what it wrote to
`encoded_buffer`, and `encoded_size`. -/
structure EncoderCall where
  result : Bool
  written : Bytes
  encodedSize : Nat

/-- `BrotliEncoderMaxCompressedSize`, which is 0 if the size does not fit, and
`BrotliEncoderCompress`, which gets the input and the size of the buffer. -/
structure Encoder where
  maxCompressedSize : Nat → Nat
  compress : Bytes → Nat → EncoderCall

/-- The contract: nothing is written outside the buffer; what a successful call wrote stands
for the input; a buffer of the largest size is enough, and one of no bytes never is. -/
structure Encoder.ObeysContract (e : Encoder) (stream : Bytes → Compressed) : Prop where
  inside : ∀ data size, (e.compress data size).written.length ≤ size
  whole : ∀ data size, (e.compress data size).result = true →
    (e.compress data size).encodedSize = (e.compress data size).written.length ∧
      stream (e.compress data size).written = .whole data
  enough : ∀ data, e.maxCompressedSize data.length ≠ 0 →
    (e.compress data (e.maxCompressedSize data.length)).result = true
  nothing : ∀ data, (e.compress data 0).result = false

/-- `Brotli::compress`. -/
def compress (e : Encoder) (data : Bytes) : Except Fault Bytes :=
  let maxCompressedSize := e.maxCompressedSize data.length
  let compressed : Bytes := List.replicate maxCompressedSize 0
  let call := e.compress data maxCompressedSize
  if compressed.length < call.written.length then
    .error .undefined
  else if call.result = false then
    .error (.runtimeError "Brotli compression failed")
  else
    .ok (resize (writeAt compressed 0 call.written) call.encodedSize)

/-- What was written at the beginning of a vector is left when the rest is cut off. -/
theorem resize_written
    {vector bytes : Bytes}
    (h : bytes.length ≤ vector.length) :
    resize (writeAt vector 0 bytes) bytes.length = bytes := by
  have hlength : (writeAt vector 0 bytes).length = vector.length :=
    writeAt_length (by rwa [Nat.zero_add])
  have htake : (writeAt vector 0 bytes).take (0 + bytes.length) = vector.take 0 ++ bytes :=
    take_writeAt (Nat.zero_le vector.length)
  rw [resize_of_le (by rwa [hlength])]
  simpa using htake

section Contract

variable {e : Encoder} {d : StreamDecoder} {stream : Bytes → Compressed}

/-- The vector is cut to what was written into it. -/
theorem compress_eq
    (hobeys : e.ObeysContract stream)
    (data : Bytes) :
    compress e data =
      if (e.compress data (e.maxCompressedSize data.length)).result = false then
        .error (.runtimeError "Brotli compression failed")
      else
        .ok (e.compress data (e.maxCompressedSize data.length)).written := by
  have hinside := hobeys.inside data (e.maxCompressedSize data.length)
  simp only [compress, List.length_replicate]
  rw [if_neg (by omega)]
  split
  · rfl
  · obtain ⟨hsize, -⟩ := hobeys.whole data (e.maxCompressedSize data.length)
      (Bool.eq_true_of_not_eq_false ‹_›)
    rw [hsize, resize_written (by rwa [List.length_replicate])]

theorem compress_ok
    (hobeys : e.ObeysContract stream)
    {data compressed : Bytes}
    (h : compress e data = .ok compressed) :
    compressed.length ≤ e.maxCompressedSize data.length ∧ stream compressed = .whole data := by
  rw [compress_eq hobeys] at h
  split at h
  · cases h
  · obtain rfl := Except.ok.inj h
    obtain ⟨-, hwhole⟩ := hobeys.whole data (e.maxCompressedSize data.length)
      (Bool.eq_true_of_not_eq_false ‹_›)
    exact ⟨hobeys.inside _ _, hwhole⟩

/-- Without a size for the result `compress` throws. -/
theorem compress_throws
    (hobeys : e.ObeysContract stream)
    {data : Bytes}
    (hnone : e.maxCompressedSize data.length = 0) :
    compress e data = .error (.runtimeError "Brotli compression failed") := by
  rw [compress_eq hobeys, hnone, if_pos (hobeys.nothing data)]

theorem compress_succeeds
    (hobeys : e.ObeysContract stream)
    {data : Bytes}
    (hsize : e.maxCompressedSize data.length ≠ 0) :
    ∃ compressed, compress e data = .ok compressed := by
  rw [compress_eq hobeys, hobeys.enough data hsize]
  exact ⟨_, rfl⟩

/-- **What is compressed is decompressed to what it was**, after finitely many turns. -/
theorem compress_round_trip
    (e : Encoder)
    (d : StreamDecoder)
    (stream : Bytes → Compressed)
    (hencoder : e.ObeysContract stream)
    (hdecoder : ∀ input, ObeysContract d input (stream input))
    (hinstance : d.createInstance ≠ none)
    (data : Bytes) :
    (e.maxCompressedSize data.length = 0 ∧
        compress e data = .error (.runtimeError "Brotli compression failed")) ∨
      ∃ compressed, compress e data = .ok compressed ∧
        compressed.length ≤ e.maxCompressedSize data.length ∧
        ∃ enough, ∀ turns, enough ≤ turns → decompress d turns compressed = some (.ok data) := by
  by_cases hsize : e.maxCompressedSize data.length = 0
  · exact .inl ⟨hsize, compress_throws hencoder hsize⟩
  · obtain ⟨compressed, hcompress⟩ := compress_succeeds hencoder hsize
    obtain ⟨hlength, hwhole⟩ := compress_ok hencoder hcompress
    obtain ⟨state₀, hstate⟩ := Option.ne_none_iff_exists'.mp hinstance
    refine .inr ⟨compressed, hcompress, hlength, ?_⟩
    obtain ⟨enough, henough⟩ := decompress_eventually (hdecoder compressed)
    refine ⟨enough, fun turns hturns => ?_⟩
    rw [henough turns hturns]
    simp only [decompressed, hstate, hwhole]

/-! ### On a channel -/

/-- The compressor of a channel with these libraries. -/
def Brotli.ofLibraries (e : Encoder) (d : StreamDecoder) (stream : Bytes → Compressed) : Brotli :=
  .ofDecoder (Core.compress e) d stream

theorem Brotli.ofLibraries_lossless
    (hencoder : e.ObeysContract stream)
    (hinstance : d.createInstance ≠ none) :
    (Brotli.ofLibraries e d stream).Lossless := by
  obtain ⟨state₀, hstate⟩ := Option.ne_none_iff_exists'.mp hinstance
  exact ofDecoder_lossless hstate fun _ _ hcompress => (compress_ok hencoder hcompress).2

/-- A payload for which there is room, whichever way it is sent. -/
theorem encodedFits_of_max
    (hencoder : e.ObeysContract stream)
    {data : Bytes}
    (hdata : data.length < BUFFER_SIZE)
    (hmax : e.maxCompressedSize data.length < BUFFER_SIZE)
    (type : CompressionType) :
    EncodedFits (.ofLibraries e d stream) type data := by
  cases type with
  | none => exact hdata
  | brotli =>
      rw [EncodedFits, encodeString]
      cases hcompress : (Brotli.ofLibraries e d stream).compress data with
      | error fault => trivial
      | ok compressed =>
          have hlength := (compress_ok hencoder hcompress).1
          exact (Nat.succ_le_succ hlength).trans hmax

end Contract

/-! ### One meta-block -/

/-- Five bytes in one meta-block that is not compressed, and an empty last one. -/
def stored (data : Bytes) : Bytes := [11, 2, 128] ++ data ++ [3]

/-- An encoder for inputs of five bytes. -/
def Encoder.storing : Encoder where
  maxCompressedSize := fun size => if size = 5 then 11 else 0
  compress data size :=
    if data.length = 5 ∧ 9 ≤ size then
      { result := true
        written := stored data
        encodedSize := 9 }
    else
      { result := false
        written := []
        encodedSize := 0 }

def storedStream (input : Bytes) : Compressed :=
  if input = stored ((input.drop 3).take 5) ∧ input.length = 9 then
    .whole ((input.drop 3).take 5)
  else
    .broken 0

theorem storedStream_stored
    {data : Bytes}
    (hdata : data.length = 5) :
    (stored data).length = 9 ∧ storedStream (stored data) = .whole data := by
  have hlength : (stored data).length = 9 := by
    simp only [stored, List.length_append, List.length_cons, List.length_nil, hdata]
  have hbody : ((stored data).drop 3).take 5 = data := by
    rw [← hdata]
    exact List.take_left
  refine ⟨hlength, ?_⟩
  rw [storedStream, hbody, if_pos ⟨rfl, hlength⟩]

theorem storing_obeys : Encoder.storing.ObeysContract storedStream where
  inside := by
    intro data size
    simp only [Encoder.storing]
    split
    · rename_i hroom
      rw [(storedStream_stored hroom.1).1]
      exact hroom.2
    · exact Nat.zero_le _
  whole := by
    intro data size
    simp only [Encoder.storing]
    split
    · rename_i hroom
      obtain ⟨hlength, hstream⟩ := storedStream_stored hroom.1
      exact fun _ => ⟨hlength.symm, hstream⟩
    · rintro ⟨⟩
  enough := by
    intro data hsize
    have hdata : data.length = 5 := by
      by_contra hne
      exact hsize (if_neg hne)
    simp only [Encoder.storing, hdata, if_true]
    rfl
  nothing := by
    intro data
    simp only [Encoder.storing]
    rw [if_neg (by omega)]

/-- A decoder that reads whole inputs in some way; its state is what the input stands for,
once it is known, and what was written. -/
def StreamDecoder.reading (stream : Bytes → Compressed) : StreamDecoder where
  State := Option Compressed × Nat
  createInstance := some (none, 0)
  decompressStream state nextIn availableOut :=
    let what := state.1.getD (stream nextIn)
    match what with
    | .whole output =>
        let bytes := (output.drop state.2).take availableOut
        { state := (some what, state.2 + bytes.length)
          nextIn := nextIn
          written := bytes
          totalOut := state.2 + bytes.length
          result :=
            if state.2 + availableOut < output.length then .needsMoreOutput else .success }
    | .broken _ =>
        { state := (some what, state.2)
          nextIn := nextIn
          written := []
          totalOut := state.2
          result := .error }

/-- Between calls the state is what it was at first, or knows what the input stands for. -/
theorem reading_state
    {stream : Bytes → Compressed}
    {input nextIn : Bytes}
    {state : (StreamDecoder.reading stream).State}
    {written : Nat}
    (h : Decoding (.reading stream) (none, 0) input state nextIn written) :
    (Prod.fst state).getD (stream nextIn) = stream input ∧ Prod.snd state = written := by
  induction h with
  | start => exact ⟨rfl, rfl⟩
  | more availableOut h hmore ih =>
      obtain ⟨hwhat, hwritten⟩ := ih
      revert hmore
      simp only [StreamDecoder.reading, hwhat, hwritten]
      cases stream input with
      | whole output => exact fun _ => ⟨rfl, rfl⟩
      | broken bound => rintro ⟨⟩

theorem reading_obeys
    (stream : Bytes → Compressed)
    (input : Bytes) :
    ObeysContract (.reading stream) input (stream input) := by
  intro state₀ hinstance state nextIn written hdecoding availableOut
  obtain rfl : (none, 0) = state₀ := Option.some.inj hinstance
  obtain ⟨hwhat, hwritten⟩ := reading_state hdecoding
  simp only [StreamDecoder.reading, hwhat, hwritten]
  cases stream input with
  | whole output => exact ⟨rfl, rfl, rfl⟩
  | broken bound => exact ⟨rfl, Nat.zero_le _, .inr (.inl rfl)⟩

theorem hello_round_trip :
    ∃ compressed, compress .storing [104, 101, 108, 108, 111] = .ok compressed ∧
      compressed.length ≤ 11 ∧
      ∃ enough, ∀ turns, enough ≤ turns →
        decompress (.reading storedStream) turns compressed =
          some (.ok [104, 101, 108, 108, 111]) :=
  (compress_round_trip .storing (.reading storedStream) storedStream storing_obeys
    (reading_obeys storedStream) (by rintro ⟨⟩) [104, 101, 108, 108, 111]).resolve_left
    (by rintro ⟨hnone, -⟩; cases hnone)

end Core
end ZeroRPC
