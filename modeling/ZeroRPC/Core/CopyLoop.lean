import ZeroRPC.Core.Fifo

/-!
# The copying loop against `memcpy`

For elements that are not trivially copyable `enqueue` and `dequeue` advance the tail and
the head with every element and by the whole count once more.  Number the elements
enqueued since the last `clear`.  Element `j` of a batch that begins with element `b` is
stored in cell `b + j`, and with `d` elements dequeued element `k` is read from cell
`d + k`, both modulo the capacity.

Main facts:
* `Follows.perform`: what the loop does to the buffer, in terms of these numbers;
* `Follows.run`: both paths give the same outputs exactly when each element that is read was
  the last one stored in the cell it is read from.
-/

namespace ZeroRPC
namespace Core

open Library Library.Ring

namespace Buffer

variable {T U : Type} {Capacity : Nat}

/-- Corresponding calls. -/
def Operation.map (f : T → U) : Operation T → Operation U
  | .enqueue range => .enqueue (range.map f)
  | .dequeue count => .dequeue count
  | .clear => .clear
  | .size => .size
  | .empty => .empty
  | .full => .full
  | .atIndex index => .atIndex index
  | .subscript index => .subscript index

/-- Corresponding outcomes. -/
def Outcome.map (f : T → U) : Outcome T → Outcome U
  | .done => .done
  | .elements xs => .elements (xs.map f)
  | .number n => .number n
  | .flag b => .flag b
  | .element x => .element (f x)
  | .outOfRange what => .outOfRange what
  | .fault e => .fault e
  | .unspecified => .unspecified

end Buffer

open Buffer

/-- The elements that went through a buffer: those enqueued since the last `clear`, how
many of them were dequeued, and every store with its cell, the latest first. -/
structure Ledger (T : Type) where
  entered : List T
  taken : Nat
  stored : List (Nat × T)
deriving DecidableEq

namespace Ledger

variable {T U : Type} {Capacity : Nat}

def start : Ledger T where
  entered := []
  taken := 0
  stored := []

/-- The elements still to be dequeued. -/
def waiting (l : Ledger T) : List T := l.entered.drop l.taken

/-- The stores of a batch that begins with element `first`: element `first + i` goes to
cell `first + (first + i)`. -/
def batch (Capacity first : Nat) (range : List T) : List (Nat × T) :=
  range.mapIdx fun i x => ((first + (first + i)) % Capacity, x)

/-- The books after a call. -/
def perform (Capacity : Nat) (l : Ledger T) : Operation T → Ledger T
  | .enqueue range =>
      if l.waiting.length + range.length ≤ Capacity then
        { l with
          entered := l.entered ++ range
          stored := (batch Capacity l.entered.length range).reverse ++ l.stored }
      else l
  | .dequeue count =>
      if count ≤ l.waiting.length then { l with taken := l.taken + count } else l
  | .clear => { l with entered := [], taken := 0 }
  | _ => l

/-- The last element stored in a cell; `data` is what the array held at first. -/
def lastStored (data : Nat → T) (l : Ledger T) (cell : Nat) : T :=
  (l.stored.lookup cell).getD (data cell)

/-- Element `k` was the last one stored in cell `taken + k`, or corresponds to that one. -/
def Found (Capacity : Nat) (data : Nat → T) (f : T → U) (l : Ledger T) (k : Nat) : Prop :=
  l.entered[k]?.map f = some (f (l.lastStored data ((l.taken + k) % Capacity)))

instance [DecidableEq U] (data : Nat → T) (f : T → U) (l : Ledger T) (k : Nat) :
    Decidable (l.Found Capacity data f k) :=
  inferInstanceAs (Decidable (_ = _))

/-- Every element that the call reads is found. -/
def Finds (Capacity : Nat) (data : Nat → T) (f : T → U) (l : Ledger T) : Operation T → Prop
  | .dequeue count =>
      count ≤ l.waiting.length → ∀ i < count, l.Found Capacity data f (l.taken + i)
  | .atIndex index =>
      index < l.waiting.length → l.Found Capacity data f (l.taken + index)
  | .subscript index =>
      index < l.waiting.length → l.Found Capacity data f (l.taken + index)
  | _ => True

/-- Every element read by a sequence of calls is found. -/
def FindsAll (Capacity : Nat) (data : Nat → T) (f : T → U) : Ledger T → List (Operation T) → Prop
  | _, [] => True
  | l, op :: ops =>
      l.Finds Capacity data f op ∧ FindsAll Capacity data f (l.perform Capacity op) ops

end Ledger

namespace Fifo

variable {T U : Type} {Capacity : Nat}

/-- A list of corresponding elements answers correspondingly. -/
theorem perform_map
    (f : T → U)
    (xs : List T)
    (op : Operation T) :
    Fifo.perform Capacity (xs.map f) (op.map f) =
      ((Fifo.perform Capacity xs op).1.map f, (Fifo.perform Capacity xs op).2.map f) := by
  cases op with
  | enqueue range =>
      simp only [Fifo.perform, Operation.map, List.length_map]
      split
      · rw [List.map_append]
        rfl
      · rfl
  | dequeue count =>
      simp only [Fifo.perform, Operation.map, List.length_map]
      split
      · rw [List.map_drop, Outcome.map, List.map_take]
      · rfl
  | clear => rfl
  | size => simp [Fifo.perform, Operation.map, Outcome.map]
  | empty => cases xs <;> rfl
  | full => simp [Fifo.perform, Operation.map, Outcome.map]
  | atIndex index =>
      simp only [Fifo.perform, Operation.map, List.getElem?_map]
      cases xs[index]? <;> rfl
  | subscript index =>
      simp only [Fifo.perform, Operation.map, List.getElem?_map]
      cases xs[index]? <;> rfl

theorem mayCall_map
    (f : T → U)
    {xs : List T}
    {op : Operation T}
    (h : MayCall xs op) :
    MayCall (xs.map f) (op.map f) := by
  cases op with
  | subscript index =>
      show index < (xs.map f).length
      rw [List.length_map]
      exact h
  | _ => trivial

/-- The list after a call is what the books call waiting. -/
theorem perform_waiting
    (l : Ledger T)
    (htaken : l.taken ≤ l.entered.length)
    (op : Operation T) :
    (Fifo.perform Capacity l.waiting op).2 = (l.perform Capacity op).waiting := by
  cases op with
  | enqueue range =>
      simp only [Fifo.perform, Ledger.perform]
      split
      · show l.waiting ++ range = (l.entered ++ range).drop l.taken
        rw [List.drop_append_of_le_length htaken]
        rfl
      · rfl
  | dequeue count =>
      simp only [Fifo.perform, Ledger.perform]
      split
      · exact List.drop_drop
      · rfl
  | clear => rfl
  | size => rfl
  | empty => rfl
  | full => rfl
  | atIndex index =>
      simp only [Fifo.perform]
      split <;> rfl
  | subscript index =>
      simp only [Fifo.perform]
      split <;> rfl

end Fifo

/-! ### What the loops do -/

namespace Buffer

variable {T U : Type} {Capacity : Nat}

/-- The loop of `dequeue` reads the ring once around. -/
theorem takeEach_eq
    {b : Buffer T Capacity}
    (hhead : b.head < Capacity)
    (count : Nat) :
    b.takeEach count =
      (ring b.data Capacity b.head count, { b with head := (b.head + count) % Capacity }) := by
  induction count generalizing b with
  | zero =>
      rw [takeEach, Nat.add_zero, Nat.mod_eq_of_lt hhead]
      rfl
  | succ count ih =>
      have hnext : (b.head + 1) % Capacity < Capacity := Nat.mod_lt _ (by omega)
      rw [takeEach, ih hnext]
      simp only [ring, List.range_succ_eq_map, List.map_cons, List.map_map, Nat.mod_add_mod,
        Nat.add_assoc, Nat.add_zero, Nat.mod_eq_of_lt hhead, Nat.add_comm 1 count,
        Function.comp_def, Nat.succ_eq_add_one, Nat.add_comm 1]

/-- The loop of `enqueue` moves the tail and leaves head and size. -/
theorem storeEach_moves
    {b : Buffer T Capacity}
    (htail : b.tail < Capacity)
    (xs : List T) :
    (b.storeEach xs).head = b.head ∧ (b.storeEach xs).size = b.size ∧
      (b.storeEach xs).tail = (b.tail + xs.length) % Capacity := by
  induction xs generalizing b with
  | nil => exact ⟨rfl, rfl, (Nat.mod_eq_of_lt htail).symm⟩
  | cons x xs ih =>
      have hnext : (b.tail + 1) % Capacity < Capacity := Nat.mod_lt _ (by omega)
      obtain ⟨hhead, hsize, hmoved⟩ :=
        ih (b := { b with
          data := Function.update b.data b.tail x
          tail := (b.tail + 1) % Capacity }) hnext
      refine ⟨hhead, hsize, ?_⟩
      rw [storeEach, hmoved, List.length_cons, Nat.mod_add_mod, Nat.add_assoc,
        Nat.add_comm 1 xs.length]

/-- What the loop of `enqueue` stores, the latest store first. -/
theorem storeEach_data
    {b : Buffer T Capacity}
    (htail : b.tail < Capacity)
    (xs : List T)
    (cell : Nat) :
    (b.storeEach xs).data cell =
      ((xs.mapIdx fun i x => ((b.tail + i) % Capacity, x)).reverse.lookup cell).getD
        (b.data cell) := by
  induction xs generalizing b with
  | nil => rfl
  | cons x xs ih =>
      have hnext : (b.tail + 1) % Capacity < Capacity := Nat.mod_lt _ (by omega)
      rw [storeEach, ih hnext, List.mapIdx_cons, List.reverse_cons, List.lookup_append]
      have hshift :
          (xs.mapIdx fun i x => (((b.tail + 1) % Capacity + i) % Capacity, x)) =
            xs.mapIdx fun i x => ((b.tail + (i + 1)) % Capacity, x) := by
        congr 1
        funext i x
        rw [Nat.mod_add_mod, Nat.add_assoc, Nat.add_comm 1 i]
      rw [hshift]
      cases (xs.mapIdx fun i x => ((b.tail + (i + 1)) % Capacity, x)).reverse.lookup cell with
      | some y => rfl
      | none =>
          by_cases hcell : cell = b.tail
          · subst hcell
            simp [Nat.mod_eq_of_lt htail]
          · have hne : (cell == b.tail) = false := beq_eq_false_iff_ne.mpr hcell
            simp [Nat.mod_eq_of_lt htail, List.lookup_cons, hne, Function.update_of_ne hcell]

/-- The buffer with the loops, in terms of the books. -/
structure Follows (data : Nat → T) (l : Ledger T) (b : Buffer T Capacity) : Prop where
  taken_le : l.taken ≤ l.entered.length
  fits : l.waiting.length ≤ Capacity
  size_eq : b.size = l.waiting.length
  head_eq : b.head = (l.taken + l.taken) % Capacity
  tail_eq : b.tail = (l.entered.length + l.entered.length) % Capacity
  cells : ∀ cell, b.data cell = l.lastStored data cell

theorem follows_start (data : Nat → T) :
    Follows data Ledger.start (init data : Buffer T Capacity) where
  taken_le := Nat.le_refl _
  fits := Nat.zero_le _
  size_eq := rfl
  head_eq := (Nat.zero_mod _).symm
  tail_eq := (Nat.zero_mod _).symm
  cells := fun _ => rfl

variable {data : Nat → T} {l : Ledger T} {b : Buffer T Capacity}

theorem advance_twice (position count : Nat) :
    ((position % Capacity + count) % Capacity + count) % Capacity =
      (position + count + count) % Capacity := by
  rw [Nat.mod_add_mod, Nat.add_assoc, Nat.mod_add_mod, Nat.add_assoc]

theorem waiting_length (l : Ledger T) : l.waiting.length = l.entered.length - l.taken := by
  rw [Ledger.waiting, List.length_drop]

/-- Where the next elements are read. -/
theorem Follows.subscript
    (h : Follows data l b)
    (i : Nat) :
    b.subscript i = l.lastStored data ((l.taken + (l.taken + i)) % Capacity) := by
  rw [Buffer.subscript, h.cells, h.head_eq, Nat.mod_add_mod, Nat.add_assoc]

theorem Follows.enqueueEach
    (h : Follows data l b)
    (hcapacity : 0 < Capacity)
    {range : List T}
    (hroom : l.waiting.length + range.length ≤ Capacity) :
    ∃ b', b.enqueueEach range = .ok b' ∧
      Follows data (l.perform Capacity (.enqueue range)) b' := by
  have hsize := h.size_eq
  have hfits := h.fits
  have hlength := waiting_length l
  have htaken := h.taken_le
  have htail : b.tail < Capacity := by
    rw [h.tail_eq]
    exact Nat.mod_lt _ hcapacity
  obtain ⟨hhead, hkept, hmoved⟩ := storeEach_moves htail range
  rw [Buffer.enqueueEach, if_neg (by omega)]
  refine ⟨_, rfl, ?_⟩
  rw [Ledger.perform, if_pos hroom]
  constructor
  · show l.taken ≤ (l.entered ++ range).length
    rw [List.length_append]
    omega
  · show ((l.entered ++ range).drop l.taken).length ≤ Capacity
    rw [List.length_drop, List.length_append]
    omega
  · show (b.storeEach range).size + range.length = ((l.entered ++ range).drop l.taken).length
    rw [hkept, List.length_drop, List.length_append]
    omega
  · show (b.storeEach range).head = (l.taken + l.taken) % Capacity
    rw [hhead, h.head_eq]
  · show ((b.storeEach range).tail + range.length) % Capacity =
      ((l.entered ++ range).length + (l.entered ++ range).length) % Capacity
    rw [hmoved, h.tail_eq, advance_twice, List.length_append]
    congr 1
    omega
  · intro cell
    show (b.storeEach range).data cell =
      (((Ledger.batch Capacity l.entered.length range).reverse ++ l.stored).lookup cell).getD
        (data cell)
    have hbatch :
        Ledger.batch Capacity l.entered.length range =
          range.mapIdx fun i x => ((b.tail + i) % Capacity, x) := by
      rw [Ledger.batch]
      congr 1
      funext i x
      rw [h.tail_eq, Nat.mod_add_mod, Nat.add_assoc]
    rw [storeEach_data htail, hbatch, List.lookup_append, h.cells, Ledger.lastStored]
    cases (range.mapIdx fun i x => ((b.tail + i) % Capacity, x)).reverse.lookup cell <;> rfl

theorem Follows.dequeueEach
    (h : Follows data l b)
    (hcapacity : 0 < Capacity)
    {count : Nat}
    (hcount : count ≤ l.waiting.length) :
    ∃ b', b.dequeueEach count = .ok ((List.range count).map b.subscript, b') ∧
      Follows data (l.perform Capacity (.dequeue count)) b' := by
  have hsize := h.size_eq
  have hfits := h.fits
  have hlength := waiting_length l
  have htaken := h.taken_le
  have hhead : b.head < Capacity := by
    rw [h.head_eq]
    exact Nat.mod_lt _ hcapacity
  rw [Buffer.dequeueEach, if_neg (by omega), takeEach_eq hhead]
  refine ⟨_, rfl, ?_⟩
  rw [Ledger.perform, if_pos hcount]
  constructor
  · show l.taken + count ≤ l.entered.length
    omega
  · show (l.entered.drop (l.taken + count)).length ≤ Capacity
    rw [List.length_drop]
    omega
  · show b.size - count = (l.entered.drop (l.taken + count)).length
    rw [List.length_drop]
    omega
  · show ((b.head + count) % Capacity + count) % Capacity =
      (l.taken + count + (l.taken + count)) % Capacity
    rw [h.head_eq, advance_twice]
    congr 1
    omega
  · exact h.tail_eq
  · exact h.cells

theorem Follows.clear
    (h : Follows data l b) :
    Follows data (l.perform Capacity .clear) b.clear where
  taken_le := Nat.le_refl _
  fits := Nat.zero_le _
  size_eq := rfl
  head_eq := (Nat.zero_mod _).symm
  tail_eq := (Nat.zero_mod _).symm
  cells := h.cells

/-- A list of elements read one by one is the one expected exactly when each of them is. -/
theorem map_range_eq_iff
    {f : T → U}
    {read : Nat → T}
    {xs : List T}
    {count : Nat} :
    ((List.range count).map read).map f = (xs.take count).map f ↔
      ∀ i < count, xs[i]?.map f = some (f (read i)) := by
  constructor
  · intro h i hi
    have hat := congrArg (fun ys => ys[i]?) h
    simp only [List.getElem?_map, List.getElem?_range hi, List.getElem?_take_of_lt hi] at hat
    exact hat.symm
  · intro h
    refine List.ext_getElem? fun i => ?_
    by_cases hi : i < count
    · simp only [List.getElem?_map, List.getElem?_range hi, List.getElem?_take_of_lt hi, h i hi]
      rfl
    · rw [List.getElem?_eq_none (by simp; omega), List.getElem?_eq_none (by simp; omega)]

/-- An element that waits is found where the books say it is read. -/
theorem Follows.found_iff
    (h : Follows data l b)
    (f : T → U)
    (i : Nat) :
    l.waiting[i]?.map f = some (f (b.subscript i)) ↔ l.Found Capacity data f (l.taken + i) := by
  rw [Ledger.waiting, List.getElem?_drop, h.subscript, Ledger.Found]

theorem Follows.element_iff
    (h : Follows data l b)
    (f : T → U)
    {index : Nat}
    (hindex : index < l.waiting.length) :
    (Outcome.element (b.subscript index)).map f = (Outcome.element l.waiting[index]).map f ↔
      l.Found Capacity data f (l.taken + index) := by
  rw [← h.found_iff, List.getElem?_eq_getElem hindex]
  simp only [Outcome.map, Outcome.element.injEq, Option.map_some, Option.some.injEq]
  exact eq_comm

/-- **One call.**  The loops follow the books, and give the list's answer exactly when
every element that the call reads is found. -/
theorem Follows.perform
    (h : Follows data l b)
    (hcapacity : 0 < Capacity)
    (f : T → U)
    (op : Operation T)
    (hmay : Fifo.MayCall l.waiting op) :
    Follows data (l.perform Capacity op) (b.perform false op).2 ∧
      ((b.perform false op).1.map f = (Fifo.perform Capacity l.waiting op).1.map f ↔
        l.Finds Capacity data f op) := by
  have hsize := h.size_eq
  have hfits := h.fits
  cases op with
  | enqueue range =>
      by_cases hroom : l.waiting.length + range.length ≤ Capacity
      · obtain ⟨b', hok, hfollows⟩ := h.enqueueEach hcapacity hroom
        simp only [Buffer.perform, Bool.false_eq_true, if_false, hok]
        exact ⟨hfollows, iff_of_true (by rw [Fifo.perform, if_pos hroom]) trivial⟩
      · have hfull : b.enqueueEach range = .error (.runtimeError "Queue overflow") := by
          rw [Buffer.enqueueEach, if_pos (by omega)]
        simp only [Buffer.perform, Bool.false_eq_true, if_false, hfull]
        rw [Ledger.perform, Fifo.perform, if_neg hroom, if_neg hroom]
        exact ⟨h, iff_of_true rfl trivial⟩
  | dequeue count =>
      by_cases hcount : count ≤ l.waiting.length
      · obtain ⟨b', hok, hfollows⟩ := h.dequeueEach hcapacity hcount
        simp only [Buffer.perform, Bool.false_eq_true, if_false, hok]
        refine ⟨hfollows, ?_⟩
        rw [Fifo.perform, if_pos hcount, Ledger.Finds]
        simp only [Outcome.map, Outcome.elements.injEq, map_range_eq_iff, h.found_iff]
        exact ⟨fun hall _ => hall, fun hall => hall hcount⟩
      · have hshort :
            b.dequeueEach count = .error (.runtimeError "Not enough elements in _queue") := by
          rw [Buffer.dequeueEach, if_pos (by omega)]
        simp only [Buffer.perform, Bool.false_eq_true, if_false, hshort]
        rw [Ledger.perform, Fifo.perform, if_neg hcount, if_neg hcount]
        exact ⟨h, iff_of_true rfl fun hle => absurd hle hcount⟩
  | clear => exact ⟨h.clear, iff_of_true rfl trivial⟩
  | size =>
      refine ⟨h, iff_of_true ?_ trivial⟩
      rw [Buffer.perform, Fifo.perform, hsize]
  | empty =>
      refine ⟨h, iff_of_true ?_ trivial⟩
      rw [Buffer.perform, Fifo.perform, Buffer.empty, hsize]
      cases l.waiting <;> rfl
  | full =>
      refine ⟨h, iff_of_true ?_ trivial⟩
      rw [Buffer.perform, Fifo.perform, Buffer.full, hsize]
  | atIndex index =>
      by_cases hindex : index < l.waiting.length
      · simp only [Buffer.perform, Fifo.perform, if_neg (by omega : ¬ index ≥ b.size),
          List.getElem?_eq_getElem hindex, h.element_iff f hindex]
        exact ⟨h, fun hfound _ => hfound, fun hfound => hfound hindex⟩
      · simp only [Buffer.perform, Fifo.perform, if_pos (by omega : index ≥ b.size),
          List.getElem?_eq_none (by omega : l.waiting.length ≤ index)]
        exact ⟨h, iff_of_true trivial fun hlt => absurd hlt hindex⟩
  | subscript index =>
      have hindex : index < l.waiting.length := hmay
      simp only [Buffer.perform, Fifo.perform, List.getElem?_eq_getElem hindex,
        h.element_iff f hindex]
      exact ⟨h, fun hfound _ => hfound, fun hfound => hfound hindex⟩

/-- The sizes of the two buffers are the same after any calls. -/
theorem Follows.same_size
    (h : Follows data l b)
    {f : T → U}
    {b' : Buffer U Capacity}
    (h' : b'.Holds (l.waiting.map f)) :
    b.size = b'.size := by
  rw [h.size_eq, h'.size_eq, List.length_map]

/-- **A run.**  From states that follow the same books, both paths give the same outputs
exactly when every element that is read is found. -/
theorem Follows.run
    (hcapacity : 0 < Capacity)
    (f : T → U)
    (ops : List (Operation T))
    (h : Follows data l b)
    {b' : Buffer U Capacity}
    (h' : b'.Holds (l.waiting.map f))
    (hasked : (Fifo.machine Capacity).Asked Fifo.MayCall l.waiting ops) :
    ((machine false).after b ops).size =
        ((machine true).after b' (ops.map (Operation.map f))).size ∧
      (((machine false).outputs b ops).map (Outcome.map f) =
          (machine true).outputs b' (ops.map (Operation.map f)) ↔
        Ledger.FindsAll Capacity data f l ops) := by
  induction ops generalizing l b b' with
  | nil => exact ⟨h.same_size h', iff_of_true rfl trivial⟩
  | cons op ops ih =>
      obtain ⟨hmay, hrest⟩ := hasked
      obtain ⟨hfollows, hanswer⟩ := h.perform hcapacity f op hmay
      obtain ⟨houtcome, hholds⟩ := h'.perform (op.map f) (Fifo.mayCall_map f hmay)
      have hwaiting :
          (Fifo.perform Capacity l.waiting op).2 = (l.perform Capacity op).waiting :=
        Fifo.perform_waiting l h.taken_le op
      rw [Fifo.perform_map] at houtcome hholds
      rw [hwaiting] at hholds
      have hnext :
          (Fifo.machine Capacity).Asked Fifo.MayCall (l.perform Capacity op).waiting ops := by
        rw [← hwaiting]
        exact hrest
      obtain ⟨hsize, hiff⟩ := ih hfollows hholds hnext
      refine ⟨hsize, ?_⟩
      show ((b.perform false op).1.map f ::
          ((machine false).outputs (b.perform false op).2 ops).map (Outcome.map f)) =
        ((b'.perform true (op.map f)).1 ::
          (machine true).outputs (b'.perform true (op.map f)).2 (ops.map (Operation.map f))) ↔ _
      rw [List.cons.injEq, hiff, houtcome, hanswer]
      exact Iff.rfl

end Buffer

end Core
end ZeroRPC
