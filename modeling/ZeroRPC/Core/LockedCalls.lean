import ZeroRPC.Core.Fifo
import ZeroRPC.Library.Guarded

/-!
# The queue and the buffer behind their locks

Every member function of `Thread_Safe_Queue` and of `Common::Buffer` takes the lock of its
object, does what it does in several accesses, and gives the lock back.  Threads call them at
any time.  `front()` and `at()` give back references; here they answer with the element.

Main facts:
* `ThreadSafeQueue.guarded_implements`, `Buffer.guarded_implements`: what a call does when it
  is left alone;
* `queue_calls_atomic`: whatever calls and returns are seen on a queue could have been seen on
  a list that is called atomically;
* `buffer_calls_atomic`: the same for a buffer and a list of at most `Capacity` elements.
-/

namespace ZeroRPC
namespace Core

open Library

/-! ### `Thread_Safe_Queue` -/

namespace ThreadSafeQueue

variable {T : Type}

inductive Call (T : Type)
  | push (data : T)
  | pop
  | clear
  | size
  | empty
  | front
  | frontPop
deriving DecidableEq

/-- What a call gives back; `front` or `pop` of an empty `std::queue` is not defined. -/
inductive Answer (T : Type)
  | done
  | number (n : Nat)
  | flag (b : Bool)
  | element (x : T)
  | undefined
deriving DecidableEq

/-- The next access to `_queue`. -/
inductive Access (T : Type)
  | push (data : T)
  | pop
  | testEmpty
  | popNext
  | size
  | empty
  | front
  | copyFront
  | popFront (res : T)

def enter : Call T → Access T
  | .push data => .push data
  | .pop => .pop
  | .clear => .testEmpty
  | .size => .size
  | .empty => .empty
  | .front => .front
  | .frontPop => .copyFront

def access : Access T → List T → (Access T ⊕ Answer T) × List T
  | .push data, queue => (.inr .done, queue ++ [data])
  | .pop, [] => (.inr .undefined, [])
  | .pop, _ :: queue => (.inr .done, queue)
  -- the loop of `clear`
  | .testEmpty, [] => (.inr .done, [])
  | .testEmpty, x :: queue => (.inl .popNext, x :: queue)
  | .popNext, queue => (.inl .testEmpty, queue.tail)
  | .size, queue => (.inr (.number queue.length), queue)
  | .empty, queue => (.inr (.flag queue.isEmpty), queue)
  | .front, [] => (.inr .undefined, [])
  | .front, x :: queue => (.inr (.element x), x :: queue)
  | .copyFront, [] => (.inr .undefined, [])
  | .copyFront, x :: queue => (.inl (.popFront x), x :: queue)
  | .popFront res, queue => (.inr (.element res), queue.tail)

def guarded (T : Type) : Guarded (List T) (Call T) (Access T) (Answer T) where
  enter := enter
  access := access

/-- A call as a whole. -/
def perform (queue : List T) : Call T → Answer T × List T
  | .push data => (.done, queue ++ [data])
  | .pop =>
      match queue with
      | [] => (.undefined, [])
      | _ :: rest => (.done, rest)
  | .clear => (.done, [])
  | .size => (.number queue.length, queue)
  | .empty => (.flag queue.isEmpty, queue)
  | .front =>
      match queue with
      | [] => (.undefined, [])
      | x :: rest => (.element x, x :: rest)
  | .frontPop =>
      match queue with
      | [] => (.undefined, [])
      | x :: rest => (.element x, rest)

def machine (T : Type) : Machine (List T) (Call T) (Answer T) where
  step := perform

/-- The loop of `clear` ends with an empty queue. -/
theorem clear_completes (queue : List T) :
    (guarded T).Completes .testEmpty queue .done [] := by
  induction queue with
  | nil => exact .last rfl
  | cons x queue ih => exact .next rfl (.next rfl ih)

theorem guarded_implements : (guarded T).Implements (machine T) := by
  intro queue call
  cases call with
  | push data => exact .last rfl
  | pop =>
      cases queue with
      | nil => exact .last rfl
      | cons x rest => exact .last rfl
  | clear => exact clear_completes queue
  | size => exact .last rfl
  | empty => exact .last rfl
  | front =>
      cases queue with
      | nil => exact .last rfl
      | cons x rest => exact .last rfl
  | frontPop =>
      cases queue with
      | nil => exact .last rfl
      | cons x rest => exact .next rfl (.last rfl)

/-- **Calls on a `Thread_Safe_Queue` are atomic.** -/
theorem queue_calls_atomic
    (queue : List T)
    (es : List (CallStep (Call T)))
    (s : Locked (List T) (Call T) (Access T) (Answer T))
    (hrun : (Locked.system (guarded T) queue).run es = some s) :
    ∃ fs a, (Atomic.system (machine T) queue).run fs = some a ∧
      (Atomic.system (machine T) queue).trace Atomic.seen (Atomic.init queue) fs =
        (Locked.system (guarded T) queue).trace Locked.seen (Locked.init queue) es ∧
      (s.lock = none → s.object = a.object) :=
  locked_refines_atomic guarded_implements queue hrun

/-- One thread calls `push` while another is in `front_pop`. -/
def contention : List (CallStep (Call Nat)) :=
  [.call 0 (.push 2), .call 1 .frontPop, .advance 1, .advance 1, .advance 1, .advance 1,
    .advance 0, .advance 0, .advance 0]

def contended : Locked (List Nat) (Call Nat) (Access Nat) (Answer Nat) :=
  ((Locked.system (guarded Nat) [1]).run contention).getD (Locked.init [])

theorem contended_atomic :
    ∃ fs a, (Atomic.system (machine Nat) [1]).run fs = some a ∧
      (Atomic.system (machine Nat) [1]).trace Atomic.seen (Atomic.init [1]) fs =
        [.called 0 (.push 2), .called 1 .frontPop, .returned 1 (.element 1), .returned 0 .done] ∧
      (contended.lock = none → contended.object = a.object) :=
  queue_calls_atomic [1] contention contended rfl

end ThreadSafeQueue

/-! ### `Common::Buffer` -/

namespace Buffer

open Library.Ring

variable {T : Type} {Capacity : Nat}

/-- The next access to the fields. -/
inductive Access (T : Type)
  | checkRoom (range : List T)
  | copyIn (range : List T)
  | copyInRest (range : List T) (firstPart : Nat)
  | moveTail (count : Nat)
  | grow (count : Nat)
  | checkCount (count : Nat)
  | copyOut (count : Nat)
  | copyOutRest (count firstPart : Nat) (front : List T)
  | moveHead (count : Nat) (out : List T)
  | shrink (count : Nat) (out : List T)
  | clearSize
  | clearTail
  | clearHead
  | size
  | empty
  | full
  | checkIndex (index : Nat)
  | subscript (index : Nat)

def enter : Operation T → Access T
  | .enqueue range => .checkRoom range
  | .dequeue count => .checkCount count
  | .clear => .clearSize
  | .size => .size
  | .empty => .empty
  | .full => .full
  | .atIndex index => .checkIndex index
  | .subscript index => .subscript index

/-- `is_trivially_copyable_v<T>` holds: elements are copied by `memcpy`. -/
def access : Access T → Buffer T Capacity → (Access T ⊕ Outcome T) × Buffer T Capacity
  | .checkRoom range, b =>
      if range.length > Capacity - b.size then
        (.inr (.fault (.runtimeError "Queue overflow")), b)
      else
        (.inl (.copyIn range), b)
  | .copyIn range, b =>
      let firstPart := min (Capacity - b.tail) range.length
      (.inl (.copyInRest range firstPart),
        { b with data := copyTo b.data b.tail (range.take firstPart) })
  | .copyInRest range firstPart, b =>
      (.inl (.moveTail range.length),
        if firstPart < range.length then
          { b with data := copyTo b.data 0 (range.drop firstPart) }
        else
          b)
  | .moveTail count, b => (.inl (.grow count), { b with tail := (b.tail + count) % Capacity })
  | .grow count, b => (.inr .done, { b with size := b.size + count })
  | .checkCount count, b =>
      if count > b.size then
        (.inr (.fault (.runtimeError "Not enough elements in _queue")), b)
      else
        (.inl (.copyOut count), b)
  | .copyOut count, b =>
      let firstPart := min (Capacity - b.head) count
      (.inl (.copyOutRest count firstPart (block b.data b.head firstPart)), b)
  | .copyOutRest count firstPart front, b =>
      (.inl (.moveHead count
        (if firstPart < count then front ++ block b.data 0 (count - firstPart) else front)), b)
  | .moveHead count out, b =>
      (.inl (.shrink count out), { b with head := (b.head + count) % Capacity })
  | .shrink count out, b => (.inr (.elements out), { b with size := b.size - count })
  -- `_head = _tail = _size = 0` assigns from the right
  | .clearSize, b => (.inl .clearTail, { b with size := 0 })
  | .clearTail, b => (.inl .clearHead, { b with tail := 0 })
  | .clearHead, b => (.inr .done, { b with head := 0 })
  | .size, b => (.inr (.number b.size), b)
  | .empty, b => (.inr (.flag b.empty), b)
  | .full, b => (.inr (.flag b.full), b)
  | .checkIndex index, b =>
      if index ≥ b.size then (.inr (.outOfRange "Index out of range"), b)
      else (.inl (.subscript index), b)
  | .subscript index, b => (.inr (.element (b.subscript index)), b)

/-- All calls but `operator[]`, whose callers have to know the size. -/
def Operation.checked : Operation T → Bool
  | .subscript _ => false
  | _ => true

abbrev Checked (T : Type) := {op : Operation T // op.checked = true}

def guarded (T : Type) (Capacity : Nat) :
    Guarded (Buffer T Capacity) (Checked T) (Access T) (Outcome T) where
  enter := fun op => enter op.1
  access := access

def checkedMachine (T : Type) (Capacity : Nat) :
    Machine (Buffer T Capacity) (Checked T) (Outcome T) where
  step := fun b op => b.perform true op.1

def checkedFifo (T : Type) (Capacity : Nat) : Machine (List T) (Checked T) (Outcome T) where
  step := fun xs op => Fifo.perform Capacity xs op.1

theorem enqueue_completes (b : Buffer T Capacity) (range : List T) :
    (guarded T Capacity).Completes (.checkRoom range) b (b.perform true (.enqueue range)).1
      (b.perform true (.enqueue range)).2 := by
  by_cases hroom : range.length > Capacity - b.size
  · simp only [perform, enqueue, if_true, if_pos hroom]
    exact .last (if_pos hroom)
  · simp only [perform, enqueue, if_true, if_neg hroom]
    refine .next (if_neg hroom) ?_
    refine .next rfl (.next rfl (.next rfl (.last ?_)))
    by_cases hpart : min (Capacity - b.tail) range.length < range.length
    · simp only [guarded, access, if_pos hpart]
    · simp only [guarded, access, if_neg hpart]

theorem dequeue_completes (b : Buffer T Capacity) (count : Nat) :
    (guarded T Capacity).Completes (.checkCount count) b (b.perform true (.dequeue count)).1
      (b.perform true (.dequeue count)).2 := by
  by_cases hcount : count > b.size
  · simp only [perform, dequeue, if_true, if_pos hcount]
    exact .last (if_pos hcount)
  · simp only [perform, dequeue, if_true, if_neg hcount]
    refine .next (if_neg hcount) ?_
    exact .next rfl (.next rfl (.next rfl (.last rfl)))

theorem at_completes (b : Buffer T Capacity) (index : Nat) :
    (guarded T Capacity).Completes (.checkIndex index) b (b.perform true (.atIndex index)).1
      (b.perform true (.atIndex index)).2 := by
  by_cases hindex : index ≥ b.size
  · simp only [perform, if_pos hindex]
    exact .last (if_pos hindex)
  · simp only [perform, if_neg hindex]
    exact .next (if_neg hindex) (.last rfl)

theorem guarded_implements : (guarded T Capacity).Implements (checkedMachine T Capacity) := by
  rintro b ⟨op, hchecked⟩
  cases op with
  | enqueue range => exact enqueue_completes b range
  | dequeue count => exact dequeue_completes b count
  | clear => exact .next rfl (.next rfl (.last rfl))
  | size => exact .last rfl
  | empty => exact .last rfl
  | full => exact .last rfl
  | atIndex index => exact at_completes b index
  | subscript index => cases hchecked

/-- A call that is checked may always be made. -/
theorem Checked.mayCall
    (op : Checked T)
    (xs : List T) :
    Fifo.MayCall xs op.1 := by
  obtain ⟨op, hchecked⟩ := op
  cases op with
  | subscript index => cases hchecked
  | _ => trivial

/-- **Calls on a `Common::Buffer` are atomic**, and those of a bounded list. -/
theorem buffer_calls_atomic
    (hcapacity : 0 < Capacity)
    (data : Nat → T)
    (es : List (CallStep (Checked T)))
    (s : Locked (Buffer T Capacity) (Checked T) (Access T) (Outcome T))
    (hrun : (Locked.system (guarded T Capacity) (init data)).run es = some s) :
    ∃ fs a, (Atomic.system (checkedFifo T Capacity) []).run fs = some a ∧
      (Atomic.system (checkedFifo T Capacity) []).trace Atomic.seen (Atomic.init []) fs =
        (Locked.system (guarded T Capacity) (init data)).trace Locked.seen
          (Locked.init (init data)) es ∧
      (s.lock = none → s.object.elements = a.object) := by
  obtain ⟨gs, b, hgs, hseen, hobject⟩ := locked_refines_atomic guarded_implements _ hrun
  obtain ⟨fs, a, hfs, hsame, hholds⟩ := atomic_refines (N := checkedFifo T Capacity)
    (R := Holds) (fun b xs op h => h.perform op.1 (op.mayCall xs)) (init_holds data hcapacity) hgs
  refine ⟨fs, a, hfs, hsame.trans hseen, ?_⟩
  intro hlock
  rw [hobject hlock]
  exact hholds.content

/-- One thread calls `size` while another is in `enqueue`. -/
def crowding : List (CallStep (Checked Nat)) :=
  [.call 0 ⟨.enqueue [7, 8], rfl⟩, .advance 0, .advance 0, .advance 0, .call 1 ⟨.size, rfl⟩,
    .advance 0, .advance 0, .advance 0, .advance 0, .advance 1, .advance 1, .advance 1]

def crowded : Locked (Buffer Nat 3) (Checked Nat) (Access Nat) (Outcome Nat) :=
  ((Locked.system (guarded Nat 3) (init fun _ => 0)).run crowding).getD
    (Locked.init (init fun _ => 0))

theorem crowded_atomic :
    ∃ fs a, (Atomic.system (checkedFifo Nat 3) []).run fs = some a ∧
      (Atomic.system (checkedFifo Nat 3) []).trace Atomic.seen (Atomic.init []) fs =
        [.called 0 ⟨.enqueue [7, 8], rfl⟩, .called 1 ⟨.size, rfl⟩, .returned 0 .done,
          .returned 1 (.number 2)] ∧
      (crowded.lock = none → crowded.object.elements = a.object) :=
  buffer_calls_atomic (by decide) (fun _ => 0) crowding crowded rfl

end Buffer

end Core
end ZeroRPC
