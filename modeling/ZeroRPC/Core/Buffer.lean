import ZeroRPC.Library.Ring
import ZeroRPC.Library.ByteOrder

/-!
# The receive buffer

`Common::Buffer` is a ring of fixed capacity over an array, with a head, a tail and a
size.  Elements are trivially copyable, so both directions are one or two block
copies.  Next to it, the header codec `variant2mem` and `mem2variant`.

Main facts:
* `Holds`: the buffer stands for a list;
* `Holds.enqueue`, `Holds.dequeue`: the two operations append to the list and take
  from its front;
* `mem2variant_variant2mem`: a header is read back on any host.
-/

namespace ZeroRPC
namespace Core

open Library Library.Ring

/-- What ends an operation without a result: an exception, or behaviour the language
does not define. -/
inductive Fault
  | runtimeError (what : String)
  | undefined
deriving DecidableEq, Repr

structure Buffer (T : Type) (Capacity : Nat) where
  data : Nat → T
  head : Nat
  tail : Nat
  size : Nat

namespace Buffer

variable {T : Type} {Capacity : Nat}

/-- A new buffer; the array is not initialised. -/
def init (data : Nat → T) : Buffer T Capacity where
  data := data
  head := 0
  tail := 0
  size := 0

/-- `enqueue(begin, end)`. -/
def enqueue (b : Buffer T Capacity) (xs : List T) : Except Fault (Buffer T Capacity) :=
  let count := xs.length
  if count > Capacity - b.size then
    .error (.runtimeError "Queue overflow")
  else
    let firstPart := min (Capacity - b.tail) count
    let copied := copyTo b.data b.tail (xs.take firstPart)
    .ok
      { data := if firstPart < count then copyTo copied 0 (xs.drop firstPart) else copied
        head := b.head
        tail := (b.tail + count) % Capacity
        size := b.size + count }

/-- `dequeue(out, count)`, with what it writes to `out`. -/
def dequeue (b : Buffer T Capacity) (count : Nat) :
    Except Fault (List T × Buffer T Capacity) :=
  if count > b.size then
    .error (.runtimeError "Not enough elements in _queue")
  else
    let firstPart := min (Capacity - b.head) count
    let front := block b.data b.head firstPart
    .ok
      (if firstPart < count then front ++ block b.data 0 (count - firstPart) else front,
        { data := b.data
          head := (b.head + count) % Capacity
          tail := b.tail
          size := b.size - count })

/-- The elements, the first one in front. -/
def elements (b : Buffer T Capacity) : List T := ring b.data Capacity b.head b.size

/-- The buffer stands for a list of elements. -/
structure Holds (b : Buffer T Capacity) (xs : List T) : Prop where
  head_lt : b.head < Capacity
  size_le : b.size ≤ Capacity
  tail_eq : b.tail = (b.head + b.size) % Capacity
  content : b.elements = xs

theorem Holds.size_eq
    {b : Buffer T Capacity}
    {xs : List T}
    (h : b.Holds xs) :
    b.size = xs.length := by
  rw [← h.content, elements, ring_length]

theorem init_holds
    (data : Nat → T)
    (hcapacity : 0 < Capacity) :
    (init data : Buffer T Capacity).Holds [] where
  head_lt := hcapacity
  size_le := Nat.zero_le _
  tail_eq := (Nat.zero_mod _).symm
  content := rfl

/-- A block copy of nothing may be left out. -/
theorem copyTo_rest
    (mem : Nat → T)
    (firstPart : Nat)
    (xs : List T) :
    (if firstPart < xs.length then copyTo mem 0 (xs.drop firstPart) else mem) =
      copyTo mem 0 (xs.drop firstPart) := by
  by_cases h : firstPart < xs.length
  · rw [if_pos h]
  · rw [if_neg h, List.drop_of_length_le (by omega)]
    funext i
    rw [copyTo, dif_neg (by simp)]

theorem block_rest
    (mem : Nat → T)
    (front : List T)
    (firstPart count : Nat) :
    (if firstPart < count then front ++ block mem 0 (count - firstPart) else front) =
      front ++ block mem 0 (count - firstPart) := by
  by_cases h : firstPart < count
  · rw [if_pos h]
  · have hzero : count - firstPart = 0 := by omega
    rw [if_neg h, hzero]
    simp [block]

/-- **`enqueue` appends.** -/
theorem Holds.enqueue
    {b : Buffer T Capacity}
    {xs ys : List T}
    (h : b.Holds xs)
    (hroom : xs.length + ys.length ≤ Capacity) :
    ∃ b', b.enqueue ys = .ok b' ∧ b'.Holds (xs ++ ys) := by
  have hsize := h.size_eq
  rw [Buffer.enqueue]
  simp only [copyTo_rest]
  rw [if_neg (by omega)]
  refine ⟨_, rfl, ?_⟩
  constructor
  · exact h.head_lt
  · show b.size + ys.length ≤ Capacity
    omega
  · show (b.tail + ys.length) % Capacity = (b.head + (b.size + ys.length)) % Capacity
    rw [h.tail_eq, Nat.mod_add_mod, Nat.add_assoc]
  · show ring _ Capacity b.head (b.size + ys.length) = xs ++ ys
    rw [h.tail_eq, ring_copyTwice b.data h.head_lt (by omega)]
    exact congrArg (· ++ ys) h.content

theorem Holds.enqueue_overflow
    {b : Buffer T Capacity}
    {xs ys : List T}
    (h : b.Holds xs)
    (hroom : Capacity < xs.length + ys.length) :
    b.enqueue ys = .error (.runtimeError "Queue overflow") := by
  have hsize := h.size_eq
  have hle := h.size_le
  rw [Buffer.enqueue]
  simp only
  rw [if_pos (by omega)]

/-- When `enqueue` does not throw, it appends. -/
theorem Holds.of_enqueue
    {b b' : Buffer T Capacity}
    {xs ys : List T}
    (h : b.Holds xs)
    (henqueue : b.enqueue ys = .ok b') :
    b'.Holds (xs ++ ys) := by
  by_cases hroom : xs.length + ys.length ≤ Capacity
  · obtain ⟨b'', heq, hholds⟩ := h.enqueue hroom
    rw [heq] at henqueue
    cases henqueue
    exact hholds
  · rw [h.enqueue_overflow (by omega)] at henqueue
    cases henqueue

/-- **`dequeue` takes from the front.** -/
theorem Holds.dequeue
    {b : Buffer T Capacity}
    {xs : List T}
    {count : Nat}
    (h : b.Holds xs)
    (hcount : count ≤ xs.length) :
    ∃ b', b.dequeue count = .ok (xs.take count, b') ∧ b'.Holds (xs.drop count) := by
  have hsize := h.size_eq
  have hle := h.size_le
  rw [Buffer.dequeue]
  simp only [block_rest]
  rw [if_neg (by omega), ring_eq_blocks b.data h.head_lt (by omega)]
  have hhead := h.head_lt
  refine ⟨_, by rw [← h.content, elements, ring_take b.data Capacity b.head (by omega)], ?_⟩
  constructor
  · exact Nat.mod_lt _ (by omega)
  · show b.size - count ≤ Capacity
    omega
  · show b.tail = ((b.head + count) % Capacity + (b.size - count)) % Capacity
    rw [h.tail_eq, Nat.mod_add_mod,
      show b.head + count + (b.size - count) = b.head + b.size by omega]
  · show ring b.data Capacity ((b.head + count) % Capacity) (b.size - count) = xs.drop count
    rw [← ring_drop]
    exact congrArg (List.drop count) h.content

theorem Holds.dequeue_short
    {b : Buffer T Capacity}
    {xs : List T}
    {count : Nat}
    (h : b.Holds xs)
    (hcount : xs.length < count) :
    b.dequeue count = .error (.runtimeError "Not enough elements in _queue") := by
  have hsize := h.size_eq
  rw [Buffer.dequeue, if_pos (by omega)]

/-- When `dequeue` does not throw, it takes from the front. -/
theorem Holds.of_dequeue
    {b b' : Buffer T Capacity}
    {xs ys : List T}
    {count : Nat}
    (h : b.Holds xs)
    (hdequeue : b.dequeue count = .ok (ys, b')) :
    count ≤ xs.length ∧ ys = xs.take count ∧ b'.Holds (xs.drop count) := by
  by_cases hcount : count ≤ xs.length
  · obtain ⟨b'', heq, hholds⟩ := h.dequeue hcount
    rw [heq] at hdequeue
    cases hdequeue
    exact ⟨hcount, rfl, hholds⟩
  · rw [h.dequeue_short (by omega)] at hdequeue
    cases hdequeue

end Buffer

/-! ### The header codec -/

/-- `variant2mem<T>` for a `width`-byte unsigned or two's complement type. -/
def variant2mem (host : Endian) (width value : Nat) : List UInt8 :=
  let res := host.store width value
  if host = .big then res.reverse else res

/-- `mem2variant<T>(memory)`: the bits that are loaded, and what the call leaves in the span. -/
def mem2variant (host : Endian) (width : Nat) (memory : List UInt8) :
    Except Fault (Nat × List UInt8) :=
  if memory.length < width then
    .error (.runtimeError "mem2variant convert error! invalid memory size!")
  else if host = .big then
    let memory := memory.reverse
    let res := host.fetch (memory.take width)
    .ok (res, memory.reverse)
  else
    let res := host.fetch (memory.take width)
    .ok (res, memory)

theorem variant2mem_eq (host : Endian) (width value : Nat) :
    variant2mem host width value = leBytes width value := by
  cases host <;> simp [variant2mem, Endian.store]

@[simp]
theorem variant2mem_length (host : Endian) (width value : Nat) :
    (variant2mem host width value).length = width := by
  rw [variant2mem_eq, leBytes_length]

/-- A header is read back on any host. -/
theorem mem2variant_variant2mem
    (sender receiver : Endian)
    (width : Nat)
    {value : Nat}
    (hvalue : value < 256 ^ width) :
    mem2variant receiver width (variant2mem sender width value) =
      .ok (value, variant2mem sender width value) := by
  have hread : leValue (leBytes width value) = value := by
    rw [leValue_leBytes, Nat.mod_eq_of_lt hvalue]
  have htake : (leBytes width value).take width = leBytes width value :=
    List.take_of_length_le (by simp)
  have htake' : (leBytes width value).reverse.take width = (leBytes width value).reverse :=
    List.take_of_length_le (by simp)
  rw [variant2mem_eq, mem2variant, if_neg (by simp)]
  cases receiver with
  | little => simp [Endian.fetch, htake, hread]
  | big => simp [Endian.fetch, htake', hread]

end Core
end ZeroRPC
