import ZeroRPC.Core.Buffer
import ZeroRPC.Library.IntegerType

/-!
# The header codec on longer spans

`mem2variant<T>` takes any span of at least `sizeof(T)` bytes.  On a little-endian host it
copies the first bytes of the span.  On a big-endian host it reverses the whole span in
place, copies the first bytes of what that gives, and reverses the span again; those are the
last bytes of the span, so the value is that of the first ones only when both are the same.

Main facts:
* `mem2variant_little`, `mem2variant_big`: the span is left as it was, and on a big-endian
  host its last bytes are read;
* `header_codec_iff`: reading is independent of the host exactly for a span that ends with
  the bytes it begins with.
-/

namespace ZeroRPC
namespace Core
namespace HeaderCodec

open Library

/-- `mem2variant<T>(memory)`, with what the call leaves in the span. -/
def mem2variant (host : Endian) (T : IntegerType) (memory : List UInt8) :
    Except Fault (T.Value × List UInt8) :=
  (Core.mem2variant host T.width memory).map fun (bits, memory) => (T.ofBits bits, memory)

/-- `variant2mem<T>(value)`. -/
def variant2mem (host : Endian) (T : IntegerType) (value : T.Value) : List UInt8 :=
  Core.variant2mem host T.width value.toBits

/-- On this host and this span the codec does what it does on any other host. -/
structure HostIndependent
    (host : Endian)
    (T : IntegerType)
    (value : T.Value)
    (memory : List UInt8) : Prop where
  reads : mem2variant host T memory = .ok (T.decode (memory.take T.width), memory)
  writes : variant2mem host T value = IntegerType.encode value
  undoes : ∀ sender rest, memory = variant2mem sender T value ++ rest →
    mem2variant host T memory = .ok (value, memory)

section Codec

variable {host : Endian} {T : IntegerType} {memory : List UInt8}

theorem variant2mem_eq (value : T.Value) :
    variant2mem host T value = IntegerType.encode value :=
  Core.variant2mem_eq host T.width value.toBits

theorem mem2variant_little
    (hmemory : T.width ≤ memory.length) :
    mem2variant .little T memory = .ok (T.decode (memory.take T.width), memory) := by
  rw [mem2variant, Core.mem2variant, if_neg (by omega), if_neg (by decide)]
  rfl

/-- The front of the reversed span is the end of the span, reversed. -/
theorem mem2variant_big
    (hmemory : T.width ≤ memory.length) :
    mem2variant .big T memory =
      .ok (T.decode (memory.drop (memory.length - T.width)), memory) := by
  have hfront : (memory.reverse.take T.width).reverse =
      memory.drop (memory.length - T.width) := by
    rw [List.take_reverse, List.reverse_reverse]
  rw [mem2variant, Core.mem2variant, if_neg (by omega), if_pos rfl]
  simp only [Endian.fetch, hfront, List.reverse_reverse]
  rfl

/-- What is read back from an encoding, whatever follows it. -/
theorem decode_take_variant2mem
    (sender : Endian)
    (value : T.Value)
    (rest : List UInt8) :
    T.decode ((variant2mem sender T value ++ rest).take T.width) = value := by
  have hfront : (IntegerType.encode value ++ rest).take T.width = IntegerType.encode value :=
    List.take_left' (IntegerType.encode_length value)
  rw [variant2mem_eq, hfront, IntegerType.decode_encode]

theorem HostIndependent.of_reads
    (value : T.Value)
    (hreads : mem2variant host T memory = .ok (T.decode (memory.take T.width), memory)) :
    HostIndependent host T value memory where
  reads := hreads
  writes := variant2mem_eq value
  undoes := by
    rintro sender rest rfl
    rw [hreads, decode_take_variant2mem]

end Codec

/-- **The codec is independent of the host on a span exactly when the host is
little-endian or the span ends with the bytes it begins with.** -/
theorem header_codec_iff
    (host : Endian)
    (T : IntegerType)
    (value : T.Value)
    (memory : List UInt8)
    (hmemory : T.width ≤ memory.length) :
    HostIndependent host T value memory ↔
      host = .little ∨ memory.drop (memory.length - T.width) = memory.take T.width := by
  cases host with
  | little =>
      constructor
      · intro _
        exact .inl rfl
      · intro _
        exact .of_reads value (mem2variant_little hmemory)
  | big =>
      have hlast : (memory.drop (memory.length - T.width)).length = T.width := by
        rw [List.length_drop]
        omega
      have hfirst : (memory.take T.width).length = T.width := List.length_take_of_le hmemory
      have hread := mem2variant_big hmemory
      constructor
      · intro h
        have hreads := h.reads
        rw [hread] at hreads
        have hvalue := (Prod.mk.inj (Except.ok.inj hreads)).1
        exact .inr ((IntegerType.decode_inj hlast hfirst).mp hvalue)
      · rintro (hlittle | hsame)
        · cases hlittle
        · exact .of_reads value (by rw [hread, hsame])

/-! ### A span with one more byte -/

def int32 : IntegerType where
  width := 4
  signed := true

def one : int32.Value where
  val := 1
  low_le := by decide
  lt_high := by decide

/-- The header of a message of one byte, and that byte. -/
def headerAndBody : List UInt8 := [1, 0, 0, 0, 2]

theorem little_endian_header : HostIndependent .little int32 one headerAndBody :=
  (header_codec_iff .little int32 one headerAndBody (by decide)).mpr (.inl rfl)

theorem big_endian_header :
    ¬ ∀ host T value memory, T.width ≤ memory.length →
      HostIndependent host T value memory := by
  intro h
  have hreads := (h .big int32 one headerAndBody (by decide)).reads
  rw [mem2variant_big (by decide)] at hreads
  have hvalue := congrArg IntegerType.Value.val (Prod.mk.inj (Except.ok.inj hreads)).1
  revert hvalue
  decide

end HeaderCodec
end Core
end ZeroRPC
