import ZeroRPC.Core.Buffer
import ZeroRPC.Library.Machine

/-!
# The receive buffer as a bounded queue

All public operations of `Common::Buffer`, for both copying paths: `memcpy` for
trivially copyable elements, a loop for the others.  Against them, a list that holds
at most `Capacity` elements.

Main facts:
* `Holds.perform`: with `memcpy`, an operation answers as the list does and the
  buffer still stands for it;
* `memcpy_refines_fifo`: the same for whole sequences of operations.
-/

namespace ZeroRPC
namespace Core

open Library Library.Ring

namespace Buffer

variable {T : Type} {Capacity : Nat}

/-- `clear()`. -/
def clear (b : Buffer T Capacity) : Buffer T Capacity :=
  { b with head := 0, tail := 0, size := 0 }

/-- `full()`. -/
def full (b : Buffer T Capacity) : Bool := b.size == Capacity

/-- `empty()`. -/
def empty (b : Buffer T Capacity) : Bool := b.size == 0

/-- `operator[](index)`: no check. -/
def subscript (b : Buffer T Capacity) (index : Nat) : T :=
  b.data ((b.head + index) % Capacity)

/-- The loop in `enqueue`, for elements that are not trivially copyable. -/
def storeEach : Buffer T Capacity → List T → Buffer T Capacity
  | b, [] => b
  | b, x :: xs =>
      storeEach
        { b with
          data := Function.update b.data b.tail x
          tail := (b.tail + 1) % Capacity }
        xs

/-- `enqueue(begin, end)` with the loop: the tail has moved with every element, and
moves by the whole count once more. -/
def enqueueEach (b : Buffer T Capacity) (xs : List T) : Except Fault (Buffer T Capacity) :=
  if xs.length > Capacity - b.size then
    .error (.runtimeError "Queue overflow")
  else
    let stored := b.storeEach xs
    .ok
      { stored with
        tail := (stored.tail + xs.length) % Capacity
        size := stored.size + xs.length }

/-- The loop in `dequeue`. -/
def takeEach : Buffer T Capacity → Nat → List T × Buffer T Capacity
  | b, 0 => ([], b)
  | b, count + 1 =>
      let rest := takeEach { b with head := (b.head + 1) % Capacity } count
      (b.data b.head :: rest.1, rest.2)

/-- `dequeue(out, count)` with the loop: the head moves twice. -/
def dequeueEach (b : Buffer T Capacity) (count : Nat) :
    Except Fault (List T × Buffer T Capacity) :=
  if count > b.size then
    .error (.runtimeError "Not enough elements in _queue")
  else
    let taken := b.takeEach count
    .ok
      (taken.1,
        { taken.2 with
          head := (taken.2.head + count) % Capacity
          size := taken.2.size - count })

/-- A call of a member function. -/
inductive Operation (T : Type)
  | enqueue (range : List T)
  | dequeue (count : Nat)
  | clear
  | size
  | empty
  | full
  | atIndex (index : Nat)
  | subscript (index : Nat)
deriving DecidableEq, Repr

/-- What a call gives back. -/
inductive Outcome (T : Type)
  | done
  | elements (xs : List T)
  | number (n : Nat)
  | flag (b : Bool)
  | element (x : T)
  | outOfRange (what : String)
  | fault (f : Fault)
  | unspecified
deriving DecidableEq, Repr

/-- A call on a buffer; `is_trivially_copyable_v<T>` selects the copying path. -/
def perform (is_trivially_copyable : Bool) (b : Buffer T Capacity) :
    Operation T → Outcome T × Buffer T Capacity
  | .enqueue range =>
      match if is_trivially_copyable then b.enqueue range else b.enqueueEach range with
      | .ok b' => (.done, b')
      | .error f => (.fault f, b)
  | .dequeue count =>
      match if is_trivially_copyable then b.dequeue count else b.dequeueEach count with
      | .ok (out, b') => (.elements out, b')
      | .error f => (.fault f, b)
  | .clear => (.done, b.clear)
  | .size => (.number b.size, b)
  | .empty => (.flag b.empty, b)
  | .full => (.flag b.full, b)
  | .atIndex index =>
      if index ≥ b.size then (.outOfRange "Index out of range", b)
      else (.element (b.subscript index), b)
  | .subscript index => (.element (b.subscript index), b)

/-- The buffer as a machine. -/
def machine (is_trivially_copyable : Bool) :
    Machine (Buffer T Capacity) (Operation T) (Outcome T) where
  step := perform is_trivially_copyable

end Buffer

/-! ### The list a buffer stands for -/

namespace Fifo

open Buffer

variable {T : Type}

/-- A call on a list of at most `Capacity` elements. -/
def perform (Capacity : Nat) (xs : List T) : Operation T → Outcome T × List T
  | .enqueue range =>
      if xs.length + range.length ≤ Capacity then (.done, xs ++ range)
      else (.fault (.runtimeError "Queue overflow"), xs)
  | .dequeue count =>
      if count ≤ xs.length then (.elements (xs.take count), xs.drop count)
      else (.fault (.runtimeError "Not enough elements in _queue"), xs)
  | .clear => (.done, [])
  | .size => (.number xs.length, xs)
  | .empty => (.flag xs.isEmpty, xs)
  | .full => (.flag (xs.length == Capacity), xs)
  | .atIndex index =>
      match xs[index]? with
      | some x => (.element x, xs)
      | none => (.outOfRange "Index out of range", xs)
  | .subscript index =>
      match xs[index]? with
      | some x => (.element x, xs)
      | none => (.unspecified, xs)

/-- The bounded list as a machine. -/
def machine (Capacity : Nat) : Machine (List T) (Operation T) (Outcome T) where
  step := perform Capacity

/-- `operator[]` is only called with an index below the size. -/
def MayCall (xs : List T) : Operation T → Prop
  | .subscript index => index < xs.length
  | _ => True

instance (xs : List T) : ∀ op : Operation T, Decidable (MayCall xs op)
  | .subscript _ => inferInstanceAs (Decidable (_ < _))
  | .enqueue _ => isTrue trivial
  | .dequeue _ => isTrue trivial
  | .clear => isTrue trivial
  | .size => isTrue trivial
  | .empty => isTrue trivial
  | .full => isTrue trivial
  | .atIndex _ => isTrue trivial

end Fifo

/-! ### The `memcpy` path -/

namespace Buffer

variable {T : Type} {Capacity : Nat}

theorem Holds.clear
    {b : Buffer T Capacity}
    {xs : List T}
    (h : b.Holds xs) :
    b.clear.Holds [] where
  head_lt := by
    have hhead := h.head_lt
    show 0 < Capacity
    omega
  size_le := Nat.zero_le _
  tail_eq := (Nat.zero_mod _).symm
  content := rfl

theorem Holds.subscript
    {b : Buffer T Capacity}
    {xs : List T}
    {index : Nat}
    (h : b.Holds xs)
    (hindex : index < xs.length) :
    xs[index]? = some (b.subscript index) := by
  have hsize := h.size_eq
  rw [← h.content, elements, ring, List.getElem?_map, List.getElem?_range (by omega)]
  rfl

/-- **One call.**  It answers as the list does, and the buffer stands for the list
after it. -/
theorem Holds.perform
    {b : Buffer T Capacity}
    {xs : List T}
    (h : b.Holds xs)
    (op : Operation T)
    (hmay : Fifo.MayCall xs op) :
    (b.perform true op).1 = (Fifo.perform Capacity xs op).1 ∧
      (b.perform true op).2.Holds (Fifo.perform Capacity xs op).2 := by
  have hsize := h.size_eq
  cases op with
  | enqueue range =>
      by_cases hroom : xs.length + range.length ≤ Capacity
      · obtain ⟨b', hok, hholds⟩ := h.enqueue hroom
        simp only [Buffer.perform, Fifo.perform, if_true, hok, if_pos hroom]
        exact ⟨trivial, hholds⟩
      · have hfull : b.enqueue range = .error (.runtimeError "Queue overflow") :=
          h.enqueue_overflow (by omega)
        simp only [Buffer.perform, Fifo.perform, if_true, hfull, if_neg hroom]
        exact ⟨trivial, h⟩
  | dequeue count =>
      by_cases hcount : count ≤ xs.length
      · obtain ⟨b', hok, hholds⟩ := h.dequeue hcount
        simp only [Buffer.perform, Fifo.perform, if_true, hok, if_pos hcount]
        exact ⟨trivial, hholds⟩
      · have hshort : b.dequeue count = .error (.runtimeError "Not enough elements in _queue") :=
          h.dequeue_short (by omega)
        simp only [Buffer.perform, Fifo.perform, if_true, hshort, if_neg hcount]
        exact ⟨trivial, h⟩
  | clear => exact ⟨rfl, h.clear⟩
  | size => exact ⟨congrArg Outcome.number hsize, h⟩
  | empty =>
      refine ⟨congrArg Outcome.flag ?_, h⟩
      rw [Buffer.empty, hsize]
      cases xs with
      | nil => rfl
      | cons x xs => rfl
  | full => exact ⟨congrArg (fun n => Outcome.flag (n == Capacity)) hsize, h⟩
  | atIndex index =>
      by_cases hindex : index < xs.length
      · simp only [Buffer.perform, Fifo.perform, h.subscript hindex,
          if_neg (by omega : ¬ index ≥ b.size)]
        exact ⟨trivial, h⟩
      · simp only [Buffer.perform, Fifo.perform,
          List.getElem?_eq_none (by omega : xs.length ≤ index),
          if_pos (by omega : index ≥ b.size)]
        exact ⟨trivial, h⟩
  | subscript index =>
      have hindex : index < xs.length := hmay
      simp only [Buffer.perform, Fifo.perform, h.subscript hindex]
      exact ⟨trivial, h⟩

/-- A call that throws leaves the buffer as it was, on either path. -/
theorem perform_throws
    {is_trivially_copyable : Bool}
    {b : Buffer T Capacity}
    {op : Operation T}
    {f : Fault}
    (h : (b.perform is_trivially_copyable op).1 = .fault f) :
    (b.perform is_trivially_copyable op).2 = b := by
  cases op with
  | enqueue range =>
      revert h
      simp only [Buffer.perform]
      split
      · rintro ⟨⟩
      · exact fun _ => rfl
  | dequeue count =>
      revert h
      simp only [Buffer.perform]
      split
      · rintro ⟨⟩
      · exact fun _ => rfl
  | clear => cases h
  | size => rfl
  | empty => rfl
  | full => rfl
  | atIndex index =>
      rw [Buffer.perform] at h
      split at h <;> cases h
  | subscript index => rfl

/-- **The ring refines a bounded list.**  Whatever the array holds at first, a sequence
of calls is answered as by a list of at most `Capacity` elements; the buffer then holds
exactly these elements, with head and tail below `Capacity` and the size between them;
`enqueue` throws exactly when the range does not fit, `dequeue` exactly when fewer
elements are present, and a call that throws leaves the buffer as it was. -/
theorem memcpy_refines_fifo
    (hcapacity : 0 < Capacity)
    (data : Nat → T)
    (ops : List (Operation T))
    (hasked : (Fifo.machine Capacity).Asked Fifo.MayCall [] ops) :
    (machine true).outputs (init data : Buffer T Capacity) ops =
        (Fifo.machine Capacity).outputs [] ops ∧
      ∀ b xs, (machine true).after (init data : Buffer T Capacity) ops = b →
        (Fifo.machine Capacity).after [] ops = xs →
          b.elements = xs ∧ xs.length ≤ Capacity ∧ b.size = xs.length ∧
          b.head < Capacity ∧ b.tail < Capacity ∧ b.tail = (b.head + b.size) % Capacity ∧
          (∀ range, (∃ f, (b.perform true (.enqueue range)).1 = .fault f) ↔
            Capacity < xs.length + range.length) ∧
          (∀ count, (∃ f, (b.perform true (.dequeue count)).1 = .fault f) ↔ xs.length < count) ∧
          ∀ op f, (b.perform true op).1 = .fault f → (b.perform true op).2 = b := by
  obtain ⟨houtputs, hholds⟩ :=
    Machine.simulation (M := machine true) (N := Fifo.machine Capacity)
      (fun _ _ op h hmay => Holds.perform h op hmay) (init_holds data hcapacity) hasked
  refine ⟨houtputs, ?_⟩
  rintro b xs rfl rfl
  have hsize := hholds.size_eq
  have hle := hholds.size_le
  refine ⟨hholds.content, by omega, hsize, hholds.head_lt, ?_, hholds.tail_eq, ?_, ?_, ?_⟩
  · rw [hholds.tail_eq]
    exact Nat.mod_lt _ hcapacity
  · intro range
    rw [(hholds.perform (.enqueue range) trivial).1, Fifo.perform]
    split <;> simp <;> omega
  · intro count
    rw [(hholds.perform (.dequeue count) trivial).1, Fifo.perform]
    split <;> simp <;> omega
  · intro op f h
    exact perform_throws h

/-- Two batches in an array of three cells, the second one around its end. -/
theorem memcpy_refines_fifo_wrapped :
    (machine true).outputs (init (fun _ => 0) : Buffer Nat 3)
        [.enqueue [1, 2], .dequeue 1, .enqueue [3, 4], .subscript 2, .enqueue [5], .dequeue 3] =
      [.done, .elements [1], .done, .element 4, .fault (.runtimeError "Queue overflow"),
        .elements [2, 3, 4]] :=
  (memcpy_refines_fifo (by decide) (fun _ => 0)
    [.enqueue [1, 2], .dequeue 1, .enqueue [3, 4], .subscript 2, .enqueue [5], .dequeue 3]
    (by decide)).1.trans (by decide)

end Buffer

end Core
end ZeroRPC
