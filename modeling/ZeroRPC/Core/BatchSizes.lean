import ZeroRPC.Core.CopyLoop

/-!
# Which calls the copying loop answers

Whether the loops of `enqueue` and `dequeue` find an element where they stored it depends on
how many elements the calls are about, not on what the elements are.  `Batches` keeps, for
each element enqueued since the last `clear`, the number of the first element of its batch.

Main facts:
* `Kept.found`: an element that its batch allows to be read is the last one in its cell;
* `Kept.reads`: if the elements differ, no other element is found;
* `copyLoop_agrees_iff`: both paths give corresponding outputs, whatever the elements,
  exactly when every element is read while its batch is the next to be dequeued and before
  its cell is used again.
-/

namespace ZeroRPC
namespace Core
namespace Buffer

open Library

variable {T U : Type} {Capacity : Nat}

/-- Calls without their elements. -/
def sizes (ops : List (Operation T)) : List (Operation Unit) :=
  ops.map (Operation.map fun _ => ())

/-- For each element enqueued since the last `clear`, the number of the first element of its
batch; and how many of them were dequeued. -/
structure Batches where
  start : List Nat
  taken : Nat
deriving DecidableEq

namespace Batches

def init : Batches where
  start := []
  taken := 0

/-- How many elements are still to be dequeued. -/
def waiting (z : Batches) : Nat := z.start.length - z.taken

/-- After a call. -/
def perform (Capacity : Nat) (z : Batches) : Operation Unit → Batches
  | .enqueue range =>
      if z.waiting + range.length ≤ Capacity then
        { z with start := z.start ++ List.replicate range.length z.start.length }
      else z
  | .dequeue count => if count ≤ z.waiting then { z with taken := z.taken + count } else z
  | .clear => init
  | _ => z

/-- Element `k` may be read: its batch begins with the next element to be dequeued, and no
element enqueued since went to the cell of element `k`. -/
def Reads (Capacity : Nat) (z : Batches) (k : Nat) : Prop :=
  z.start[k]? = some z.taken ∧
    ∀ n < z.start.length, k < n → z.start.getD n 0 + n ≠ z.taken + k + Capacity

instance (z : Batches) (k : Nat) : Decidable (z.Reads Capacity k) :=
  inferInstanceAs (Decidable (_ ∧ _))

/-- Every element that the call reads may be read. -/
def Finds (Capacity : Nat) (z : Batches) : Operation Unit → Prop
  | .dequeue count => count ≤ z.waiting → ∀ i < count, z.Reads Capacity (z.taken + i)
  | .atIndex index => index < z.waiting → z.Reads Capacity (z.taken + index)
  | .subscript index => index < z.waiting → z.Reads Capacity (z.taken + index)
  | _ => True

instance Finds.decidable (z : Batches) : ∀ op, Decidable (z.Finds Capacity op)
  | .enqueue _ => isTrue trivial
  | .dequeue count =>
      inferInstanceAs
        (Decidable (count ≤ z.waiting → ∀ i < count, z.Reads Capacity (z.taken + i)))
  | .clear => isTrue trivial
  | .size => isTrue trivial
  | .empty => isTrue trivial
  | .full => isTrue trivial
  | .atIndex index =>
      inferInstanceAs (Decidable (index < z.waiting → z.Reads Capacity (z.taken + index)))
  | .subscript index =>
      inferInstanceAs (Decidable (index < z.waiting → z.Reads Capacity (z.taken + index)))

/-- Every element that is read by a sequence of calls may be read. -/
def FindsAll (Capacity : Nat) : Batches → List (Operation Unit) → Prop
  | _, [] => True
  | z, op :: ops => z.Finds Capacity op ∧ FindsAll Capacity (z.perform Capacity op) ops

instance FindsAll.decidable : ∀ (z : Batches) (ops : List (Operation Unit)),
    Decidable (FindsAll Capacity z ops)
  | _, [] => isTrue trivial
  | z, op :: ops =>
      have := FindsAll.decidable (z.perform Capacity op) ops
      inferInstanceAs
        (Decidable (z.Finds Capacity op ∧ FindsAll Capacity (z.perform Capacity op) ops))

end Batches

/-- The elements of the calls. -/
def enqueued : List (Operation T) → List T
  | [] => []
  | .enqueue range :: ops => range ++ enqueued ops
  | _ :: ops => enqueued ops

/-- The elements and what the cells hold at first can be told apart. -/
structure Distinct (f : T → U) (data : Nat → T) (xs : List T) : Prop where
  nodup : (xs.map f).Nodup
  fresh : ∀ x ∈ xs, ∀ cell, f x ≠ f (data cell)

/-- The paths give corresponding outputs and the same size. -/
def Agrees (Capacity : Nat) (f : T → U) (data : Nat → T) (data' : Nat → U)
    (ops : List (Operation T)) : Prop :=
  ((machine false).outputs (init data : Buffer T Capacity) ops).map (Outcome.map f) =
      (machine true).outputs (init data' : Buffer U Capacity) (ops.map (Operation.map f)) ∧
    ((machine false).after (init data : Buffer T Capacity) ops).size =
      ((machine true).after (init data' : Buffer U Capacity) (ops.map (Operation.map f))).size

/-! ### The last store in a cell -/

section Stores

variable (cellOf : Nat → Nat) (cell : Nat) (older : List (Nat × T))

/-- The stores of numbered elements, the latest first. -/
def stores (xs : List T) : List (Nat × T) :=
  (xs.mapIdx fun n x => (cellOf n, x)).reverse

theorem stores_concat (xs : List T) (x : T) :
    stores cellOf (xs ++ [x]) = (cellOf xs.length, x) :: stores cellOf xs := by
  simp [stores, List.mapIdx_concat]

/-- What is found in a cell is the last element that went there, or an older one. -/
theorem lookup_stores
    (xs : List T) :
    (∃ n y, xs[n]? = some y ∧ cellOf n = cell ∧
        (∀ m, n < m → m < xs.length → cellOf m ≠ cell) ∧
        (stores cellOf xs ++ older).lookup cell = some y) ∨
      ((∀ n < xs.length, cellOf n ≠ cell) ∧
        (stores cellOf xs ++ older).lookup cell = older.lookup cell) := by
  induction xs using List.reverseRecOn with
  | nil => exact .inr ⟨fun n hn => absurd hn (Nat.not_lt_zero n), rfl⟩
  | append_singleton xs x ih =>
      rw [stores_concat, List.cons_append, List.lookup_cons]
      by_cases hlast : cellOf xs.length = cell
      · refine .inl ⟨xs.length, x, List.getElem?_concat_length .., hlast, ?_, ?_⟩
        · intro m hm hlt
          rw [List.length_append, List.length_singleton] at hlt
          omega
        · rw [hlast]
          simp
      · have hne : (cell == cellOf xs.length) = false := beq_eq_false_iff_ne.mpr (Ne.symm hlast)
        rw [hne]
        rcases ih with ⟨n, y, hy, hcell, hlater, hlookup⟩ | ⟨hnone, hlookup⟩
        · have hn : n < xs.length := (List.getElem?_eq_some_iff.mp hy).1
          refine .inl ⟨n, y, by rw [List.getElem?_append_left hn, hy], hcell, ?_, hlookup⟩
          intro m hm hlt
          rw [List.length_append, List.length_singleton] at hlt
          by_cases hml : m = xs.length
          · rw [hml]
            exact hlast
          · exact hlater m hm (by omega)
        · refine .inr ⟨?_, hlookup⟩
          intro n hn
          rw [List.length_append, List.length_singleton] at hn
          by_cases hnl : n = xs.length
          · rw [hnl]
            exact hlast
          · exact hnone n (by omega)

theorem stores_values
    (f : T → U)
    (xs : List T) :
    (stores cellOf xs).map (fun entry => f entry.2) = (xs.map f).reverse := by
  induction xs using List.reverseRecOn with
  | nil => rfl
  | append_singleton xs x ih =>
      rw [stores_concat, List.map_cons, ih, List.map_append, List.reverse_append]
      rfl

end Stores

/-! ### Where a batch is -/

theorem eq_of_mod_eq
    {a b : Nat}
    (hab : a ≤ b)
    (hnear : b < a + Capacity)
    (hmod : a % Capacity = b % Capacity) :
    a = b := by
  have hdvd : Capacity ∣ b - a := (Nat.modEq_iff_dvd' hab).mp hmod
  have hzero := Nat.eq_zero_of_dvd_of_lt hdvd (by omega)
  omega

/-- The books and the batches agree. -/
structure Kept (Capacity : Nat) (l : Ledger T) (z : Batches) (older : List (Nat × T)) : Prop where
  length_eq : z.start.length = l.entered.length
  taken_eq : z.taken = l.taken
  taken_le : l.taken ≤ l.entered.length
  fits : l.entered.length ≤ l.taken + Capacity
  batch : ∀ {n b}, z.start[n]? = some b →
    b ≤ n ∧ n < b + Capacity ∧ ∀ m, b ≤ m → m ≤ n → z.start[m]? = some b
  stored : l.stored = stores (fun n => (z.start.getD n 0 + n) % Capacity) l.entered ++ older

theorem kept_start : Kept Capacity (Ledger.start : Ledger T) Batches.init [] where
  length_eq := rfl
  taken_eq := rfl
  taken_le := Nat.le_refl _
  fits := Nat.zero_le _
  batch := by
    intro n b h
    cases h
  stored := rfl

section Kept

variable {l : Ledger T} {z : Batches} {older : List (Nat × T)} {data : Nat → T} {f : T → U}

theorem Kept.waiting_eq
    (h : Kept Capacity l z older) :
    l.waiting.length = z.waiting := by
  rw [waiting_length, Batches.waiting, h.length_eq, h.taken_eq]

/-- A new batch. -/
theorem Kept.enqueue
    (h : Kept Capacity l z older)
    {range : List T}
    (hroom : l.waiting.length + range.length ≤ Capacity) :
    Kept Capacity
      { l with
        entered := l.entered ++ range
        stored := (Ledger.batch Capacity l.entered.length range).reverse ++ l.stored }
      { z with start := z.start ++ List.replicate range.length z.start.length } older := by
  have hlength := h.length_eq
  have htaken := h.taken_le
  have hfits := h.fits
  rw [waiting_length] at hroom
  constructor
  · simp [hlength]
  · exact h.taken_eq
  · show l.taken ≤ (l.entered ++ range).length
    rw [List.length_append]
    omega
  · show (l.entered ++ range).length ≤ l.taken + Capacity
    rw [List.length_append]
    omega
  · intro n b hn
    have hn : (z.start ++ List.replicate range.length z.start.length)[n]? = some b := hn
    show b ≤ n ∧ n < b + Capacity ∧ ∀ m, b ≤ m → m ≤ n →
      (z.start ++ List.replicate range.length z.start.length)[m]? = some b
    by_cases hold : n < z.start.length
    · rw [List.getElem?_append_left hold] at hn
      obtain ⟨hle, hnear, hsame⟩ := h.batch hn
      refine ⟨hle, hnear, fun m hbm hmn => ?_⟩
      rw [List.getElem?_append_left (by omega)]
      exact hsame m hbm hmn
    · rw [List.getElem?_append_right (by omega), List.getElem?_replicate] at hn
      split at hn
      case isFalse => cases hn
      case isTrue hnew =>
        cases hn
        refine ⟨by omega, by omega, fun m hbm hmn => ?_⟩
        rw [List.getElem?_append_right hbm, List.getElem?_replicate, if_pos (by omega)]
  · show (Ledger.batch Capacity l.entered.length range).reverse ++ l.stored = _
    rw [h.stored, ← List.append_assoc]
    congr 1
    rw [stores, stores, ← List.reverse_append]
    congr 1
    rw [List.mapIdx_append, Ledger.batch]
    refine congrArg₂ (· ++ ·) ?_ ?_
    · refine List.ext_getElem? fun n => ?_
      rw [List.getElem?_mapIdx, List.getElem?_mapIdx]
      cases hentered : l.entered[n]? with
      | none => rfl
      | some x =>
          have hn : n < z.start.length := by
            rw [hlength]
            exact (List.getElem?_eq_some_iff.mp hentered).1
          show some ((z.start.getD n 0 + n) % Capacity, x) =
            some (((z.start ++ List.replicate range.length z.start.length).getD n 0 + n) %
              Capacity, x)
          rw [List.getD_eq_getElem?_getD, List.getD_eq_getElem?_getD,
            List.getElem?_append_left hn]
    · refine List.ext_getElem? fun i => ?_
      rw [List.getElem?_mapIdx, List.getElem?_mapIdx]
      cases hrange : range[i]? with
      | none => rfl
      | some x =>
          have hi : i < range.length := (List.getElem?_eq_some_iff.mp hrange).1
          show some ((l.entered.length + (l.entered.length + i)) % Capacity, x) =
            some (((z.start ++ List.replicate range.length z.start.length).getD
              (i + l.entered.length) 0 + (i + l.entered.length)) % Capacity, x)
          rw [List.getD_eq_getElem?_getD, List.getElem?_append_right (by omega),
            List.getElem?_replicate, if_pos (by omega), hlength, Nat.add_comm i]
          rfl

/-- **One call** keeps the books and the batches. -/
theorem Kept.perform
    (h : Kept Capacity l z older)
    (op : Operation T) :
    ∃ older', Kept Capacity (l.perform Capacity op) (z.perform Capacity (op.map fun _ => ()))
      older' := by
  have hwaiting := h.waiting_eq
  cases op with
  | enqueue range =>
      simp only [Ledger.perform, Batches.perform, Operation.map, List.length_map, hwaiting]
      split
      case isTrue hroom =>
        rw [← hwaiting] at hroom
        exact ⟨older, h.enqueue hroom⟩
      case isFalse => exact ⟨older, h⟩
  | dequeue count =>
      simp only [Ledger.perform, Batches.perform, Operation.map, hwaiting]
      split
      case isTrue hcount =>
        rw [← hwaiting, waiting_length] at hcount
        have htaken := h.taken_le
        have hfits := h.fits
        refine ⟨older, h.length_eq, ?_, ?_, ?_, h.batch, h.stored⟩
        · show z.taken + count = l.taken + count
          rw [h.taken_eq]
        · show l.taken + count ≤ l.entered.length
          omega
        · show l.entered.length ≤ l.taken + count + Capacity
          omega
      case isFalse => exact ⟨older, h⟩
  | clear =>
      refine ⟨l.stored, rfl, rfl, Nat.le_refl _, Nat.zero_le _, ?_, rfl⟩
      intro n b hn
      cases hn
  | _ => exact ⟨older, h⟩

/-- An element that waits and may be read is the last one stored in the cell that is read. -/
theorem Kept.found
    (h : Kept Capacity l z older)
    {k : Nat}
    (hk : l.taken ≤ k)
    (hreads : z.Reads Capacity k) :
    l.Found Capacity data f k := by
  obtain ⟨hstart, hlater⟩ := hreads
  have hlength := h.length_eq
  have htaken := h.taken_eq
  have hfits := h.fits
  have hklt : k < z.start.length := (List.getElem?_eq_some_iff.mp hstart).1
  have hkD : z.start.getD k 0 = z.taken := by
    rw [List.getD_eq_getElem?_getD, hstart]
    rfl
  have hcell : (z.start.getD k 0 + k) % Capacity = (l.taken + k) % Capacity := by
    rw [hkD, htaken]
  have hfree : ∀ n, k < n → n < l.entered.length →
      (z.start.getD n 0 + n) % Capacity ≠ (l.taken + k) % Capacity := by
    intro n hkn hn hmod
    have hnlt : n < z.start.length := by omega
    have hnD : z.start[n]? = some (z.start.getD n 0) := by
      rw [List.getD_eq_getElem?_getD, List.getElem?_eq_getElem hnlt]
      rfl
    obtain ⟨hle, hnear, hsame⟩ := h.batch hnD
    -- its batch begins no earlier than the one that is read
    have hfrom : z.taken ≤ z.start.getD n 0 := by
      by_contra hless
      have hboth := hsame k (by omega) (by omega)
      rw [hstart] at hboth
      have := Option.some.inj hboth
      omega
    have hdvd : Capacity ∣ z.start.getD n 0 + n - (l.taken + k) :=
      (Nat.modEq_iff_dvd' (by omega)).mp hmod.symm
    obtain ⟨q, hq⟩ := hdvd
    have hone : q = 1 := by
      have hpos : 0 < q := by
        rcases Nat.eq_zero_or_pos q with rfl | hpos
        · omega
        · exact hpos
      by_contra hmany
      have htwo : Capacity * 2 ≤ Capacity * q := Nat.mul_le_mul_left _ (by omega)
      omega
    subst hone
    exact hlater n hnlt hkn (by omega)
  rw [Ledger.Found, Ledger.lastStored, h.stored]
  rcases lookup_stores (fun n => (z.start.getD n 0 + n) % Capacity) ((l.taken + k) % Capacity)
    older l.entered with
    ⟨n, y, hy, hnc, hafter, hlookup⟩ | ⟨hnone, -⟩
  · obtain rfl : n = k := by
      rcases Nat.lt_trichotomy n k with hnk | hnk | hkn
      · exact absurd hcell (hafter k hnk (by omega))
      · exact hnk
      · exact absurd hnc (hfree n hkn (List.getElem?_eq_some_iff.mp hy).1)
    rw [hlookup, hy]
    rfl
  · exact absurd hcell (hnone k (by omega))

/-- An element that is the last one stored in the cell that is read may be read. -/
theorem Kept.reads_of_cell
    (h : Kept Capacity l z older)
    {k : Nat}
    (hk : l.taken ≤ k)
    (hklt : k < l.entered.length)
    (hcell : (z.start.getD k 0 + k) % Capacity = (l.taken + k) % Capacity)
    (hafter : ∀ n, k < n → n < l.entered.length →
      (z.start.getD n 0 + n) % Capacity ≠ (l.taken + k) % Capacity) :
    z.Reads Capacity k := by
  have hlength := h.length_eq
  have htaken := h.taken_eq
  have hfits := h.fits
  have hkD : z.start[k]? = some (z.start.getD k 0) := by
    rw [List.getD_eq_getElem?_getD, List.getElem?_eq_getElem (by omega)]
    rfl
  obtain ⟨hle, hnear, -⟩ := h.batch hkD
  have hstart : z.start.getD k 0 = z.taken := by
    rcases Nat.le_total (z.start.getD k 0) l.taken with hbefore | hbehind
    · have := eq_of_mod_eq (Nat.add_le_add_right hbefore k) (by omega) hcell
      omega
    · have := eq_of_mod_eq (Nat.add_le_add_right hbehind k) (by omega) hcell.symm
      omega
  refine ⟨hkD.trans (congrArg some hstart), ?_⟩
  intro n hn hkn hsame
  refine hafter n hkn (by omega) ?_
  rw [hsame, htaken, Nat.add_mod_right]

/-- If all elements differ, one that is found may be read. -/
theorem Kept.reads
    (h : Kept Capacity l z older)
    (hdistinct : Distinct f data (l.stored.map Prod.snd))
    {k : Nat}
    (hk : l.taken ≤ k)
    (hklt : k < l.entered.length)
    (hfound : l.Found Capacity data f k) :
    z.Reads Capacity k := by
  have hlength := h.length_eq
  have htaken := h.taken_eq
  have hfits := h.fits
  have hx : l.entered[k]? = some l.entered[k] := List.getElem?_eq_getElem hklt
  have hvalues : (l.stored.map Prod.snd).map f = (l.entered.map f).reverse ++
      older.map (fun entry => f entry.2) := by
    rw [h.stored, List.map_append, List.map_append, List.map_map, List.map_map]
    exact congrArg (· ++ _) (stores_values _ f l.entered)
  have hnodup := hdistinct.nodup
  rw [hvalues, List.nodup_append] at hnodup
  obtain ⟨hmine, -, hapart⟩ := hnodup
  rw [List.nodup_reverse] at hmine
  have hmem : f l.entered[k] ∈ (l.entered.map f).reverse :=
    List.mem_reverse.mpr (List.mem_map_of_mem (List.getElem_mem hklt))
  rw [Ledger.Found, hx, Ledger.lastStored, h.stored, Option.map_some, Option.some.injEq] at hfound
  rcases lookup_stores (fun n => (z.start.getD n 0 + n) % Capacity) ((l.taken + k) % Capacity)
    older l.entered with ⟨n, y, hy, hcell, hafter, hlookup⟩ | ⟨-, hlookup⟩
  · rw [hlookup] at hfound
    have hfound : f l.entered[k] = f y := hfound
    have hsame : (l.entered.map f)[k]? = (l.entered.map f)[n]? := by
      rw [List.getElem?_map, List.getElem?_map, hx, hy, Option.map_some, Option.map_some, hfound]
    have hdiffer := List.nodup_iff_getElem?_ne_getElem?.mp hmine
    have hnlt : n < l.entered.length := (List.getElem?_eq_some_iff.mp hy).1
    obtain rfl : k = n := by
      rcases Nat.lt_trichotomy k n with hkn | hkn | hnk
      · exact absurd hsame (hdiffer k n hkn (by rwa [List.length_map]))
      · exact hkn
      · exact absurd hsame.symm (hdiffer n k hnk (by rwa [List.length_map]))
    exact h.reads_of_cell hk hklt hcell hafter
  · rw [hlookup] at hfound
    cases holder : older.lookup ((l.taken + k) % Capacity) with
    | none =>
        rw [holder] at hfound
        have hstored : l.entered[k] ∈ l.stored.map Prod.snd := by
          have hvalues : l.entered[k] ∈ (stores (fun n => (z.start.getD n 0 + n) % Capacity)
              l.entered).map (fun entry => id entry.2) := by
            rw [stores_values]
            exact List.mem_reverse.mpr (List.mem_map_of_mem (List.getElem_mem hklt))
          rw [h.stored, List.map_append]
          exact List.mem_append_left _ hvalues
        exact absurd hfound (hdistinct.fresh _ hstored _)
    | some y =>
        rw [holder] at hfound
        obtain ⟨before, after, hold, -⟩ := List.lookup_eq_some_iff.mp holder
        have hy : f y ∈ older.map (fun entry => f entry.2) := by
          rw [hold]
          simp
        exact absurd hfound (hapart _ hmem _ hy)

/-! ### Runs -/

theorem Kept.run_found
    (h : Kept Capacity l z older)
    {ops : List (Operation T)}
    (hreads : Batches.FindsAll Capacity z (sizes ops)) :
    Ledger.FindsAll Capacity data f l ops := by
  induction ops generalizing l z older with
  | nil => trivial
  | cons op ops ih =>
      obtain ⟨hop, hrest⟩ := hreads
      obtain ⟨older', hnext⟩ := h.perform op
      refine ⟨?_, ih hnext hrest⟩
      have hwaiting := h.waiting_eq
      have htaken := h.taken_eq
      cases op with
      | dequeue count =>
          intro hcount i hi
          refine h.found (by omega) ?_
          rw [← htaken]
          exact hop (hwaiting ▸ hcount) i hi
      | atIndex index =>
          intro hindex
          refine h.found (by omega) ?_
          rw [← htaken]
          exact hop (hwaiting ▸ hindex)
      | subscript index =>
          intro hindex
          refine h.found (by omega) ?_
          rw [← htaken]
          exact hop (hwaiting ▸ hindex)
      | _ => trivial

theorem Distinct.of_subperm
    {xs ys : List T}
    (h : Distinct f data ys)
    (hsub : xs.Subperm ys) :
    Distinct f data xs where
  nodup := by
    obtain ⟨zs, hperm, hsublist⟩ := hsub
    exact ((hperm.map f).nodup_iff).mp (h.nodup.sublist (hsublist.map f))
  fresh := fun x hx => h.fresh x (hsub.subset hx)

/-- The elements stay the same, stored or still to be enqueued. -/
theorem Distinct.perform
    {op : Operation T}
    {ops : List (Operation T)}
    (h : Distinct f data (l.stored.map Prod.snd ++ enqueued (op :: ops))) :
    Distinct f data ((l.perform Capacity op).stored.map Prod.snd ++ enqueued ops) := by
  cases op with
  | enqueue range =>
      simp only [enqueued] at h
      simp only [Ledger.perform]
      split
      · have hbatch : (Ledger.batch Capacity l.entered.length range).map Prod.snd = range := by
          refine List.ext_getElem? fun i => ?_
          rw [List.getElem?_map, Ledger.batch, List.getElem?_mapIdx]
          cases range[i]? <;> rfl
        refine h.of_subperm (List.Perm.subperm ?_)
        rw [List.map_append, List.map_reverse, hbatch, ← List.append_assoc]
        refine List.Perm.append_right _ ?_
        exact (List.perm_append_comm).trans ((List.reverse_perm range).append_left _)
      · exact h.of_subperm ((List.sublist_append_right _ _).append_left _).subperm
  | dequeue count =>
      simp only [Ledger.perform]
      split <;> exact h
  | _ => exact h

theorem Kept.run_reads
    (h : Kept Capacity l z older)
    {ops : List (Operation T)}
    (hdistinct : Distinct f data (l.stored.map Prod.snd ++ enqueued ops))
    (hfinds : Ledger.FindsAll Capacity data f l ops) :
    Batches.FindsAll Capacity z (sizes ops) := by
  induction ops generalizing l z older with
  | nil => trivial
  | cons op ops ih =>
      obtain ⟨hop, hrest⟩ := hfinds
      obtain ⟨older', hnext⟩ := h.perform op
      refine ⟨?_, ih hnext hdistinct.perform hrest⟩
      have hstored : Distinct f data (l.stored.map Prod.snd) :=
        hdistinct.of_subperm (List.sublist_append_left _ _).subperm
      have hwaiting := h.waiting_eq
      have htaken := h.taken_eq
      have hlength := waiting_length l
      cases op with
      | dequeue count =>
          intro hcount i hi
          rw [htaken]
          rw [← hwaiting] at hcount
          exact h.reads hstored (by omega) (by omega) (hop hcount i hi)
      | atIndex index =>
          intro hindex
          rw [htaken]
          rw [← hwaiting] at hindex
          exact h.reads hstored (by omega) (by omega) (hop hindex)
      | subscript index =>
          intro hindex
          rw [htaken]
          rw [← hwaiting] at hindex
          exact h.reads hstored (by omega) (by omega) (hop hindex)
      | _ => trivial

end Kept

/-! ### Elements that differ -/

/-- A call with numbers for its elements. -/
def numberedCall (n : Nat) : Operation Unit → Operation Nat
  | .enqueue range => .enqueue (List.range' n range.length)
  | .dequeue count => .dequeue count
  | .clear => .clear
  | .size => .size
  | .empty => .empty
  | .full => .full
  | .atIndex index => .atIndex index
  | .subscript index => .subscript index

/-- How many elements a call enqueues. -/
def count : Operation Unit → Nat
  | .enqueue range => range.length
  | _ => 0

/-- Calls whose elements are numbers, from `n` on. -/
def numbered (n : Nat) : List (Operation Unit) → List (Operation Nat)
  | [] => []
  | op :: ops => numberedCall n op :: numbered (n + count op) ops

theorem sizes_numbered
    (n : Nat)
    (calls : List (Operation Unit)) :
    sizes (numbered n calls) = calls := by
  induction calls generalizing n with
  | nil => rfl
  | cons op ops ih =>
      have hop : (numberedCall n op).map (fun _ => ()) = op := by
        cases op with
        | enqueue range =>
            refine congrArg Operation.enqueue (List.ext_getElem ?_ fun _ _ _ => rfl)
            rw [List.length_map, List.length_range']
        | _ => rfl
      rw [numbered, sizes, List.map_cons, hop]
      exact congrArg (op :: ·) (ih _)

theorem enqueued_numbered
    (n : Nat)
    (calls : List (Operation Unit)) :
    ∃ total, enqueued (numbered n calls) = List.range' n total := by
  induction calls generalizing n with
  | nil => exact ⟨0, rfl⟩
  | cons op ops ih =>
      obtain ⟨total, hrest⟩ := ih (n + count op)
      cases op with
      | enqueue range =>
          refine ⟨range.length + total, ?_⟩
          rw [numbered, numberedCall, enqueued, hrest]
          exact List.range'_append_1
      | _ => exact ⟨total, hrest⟩

theorem numbered_distinct (calls : List (Operation Unit)) :
    Distinct id (fun _ => 0) (enqueued (numbered 1 calls)) := by
  obtain ⟨total, htotal⟩ := enqueued_numbered 1 calls
  rw [htotal]
  refine ⟨?_, ?_⟩
  · rw [List.map_id]
    exact List.nodup_range'
  · intro x hx cell hzero
    obtain ⟨hpos, -⟩ := List.mem_range'_1.mp hx
    have hzero : x = 0 := hzero
    omega

/-- What may be called depends on sizes only. -/
theorem asked_of_sizes
    {ops : List (Operation T)}
    {xs : List T}
    (h : (Fifo.machine Capacity).Asked Fifo.MayCall (xs.map fun _ => ()) (sizes ops)) :
    (Fifo.machine Capacity).Asked Fifo.MayCall xs ops := by
  induction ops generalizing xs with
  | nil => trivial
  | cons op ops ih =>
      obtain ⟨hmay, hrest⟩ := h
      constructor
      · cases op with
        | subscript index =>
            have hindex : index < (xs.map fun _ => ()).length := hmay
            show index < xs.length
            rwa [List.length_map] at hindex
        | _ => trivial
      · refine ih ?_
        have hnext : (Fifo.perform Capacity (xs.map fun _ => ()) (op.map fun _ => ())).2 =
            (Fifo.perform Capacity xs op).2.map fun _ => () := by
          rw [Fifo.perform_map]
        show (Fifo.machine Capacity).Asked Fifo.MayCall
          ((Fifo.perform Capacity xs op).2.map fun _ => ()) (sizes ops)
        rw [← hnext]
        exact hrest

/-- Where the paths agree, in terms of the cells. -/
theorem agrees_iff_findsAll
    (hcapacity : 0 < Capacity)
    (f : T → U)
    (data : Nat → T)
    (data' : Nat → U)
    {ops : List (Operation T)}
    (hasked : (Fifo.machine Capacity).Asked Fifo.MayCall [] (sizes ops)) :
    Agrees Capacity f data data' ops ↔ Ledger.FindsAll Capacity data f Ledger.start ops := by
  have hasked : (Fifo.machine Capacity).Asked Fifo.MayCall ([] : List T) ops :=
    asked_of_sizes hasked
  obtain ⟨hsize, hiff⟩ :=
    Follows.run hcapacity f ops (follows_start data) (init_holds data' hcapacity) hasked
  exact ⟨fun h => hiff.mp h.1, fun h => ⟨hiff.mpr h, hsize⟩⟩

/-- **Where the two paths agree.**  With the loops, calls of given sizes give outputs that
correspond to those of the `memcpy` path, and the same size, whatever the elements, exactly
when every element that `dequeue`, `at` or `operator[]` reads may be read.  If all the
elements differ, the paths agree in no other case. -/
theorem copyLoop_agrees_iff
    (hcapacity : 0 < Capacity)
    (calls : List (Operation Unit))
    (hasked : (Fifo.machine Capacity).Asked Fifo.MayCall [] calls) :
    ((∀ (T U : Type) (f : T → U) (data : Nat → T) (data' : Nat → U) (ops : List (Operation T)),
        sizes ops = calls → Agrees Capacity f data data' ops) ↔
      Batches.FindsAll Capacity .init calls) ∧
    ∀ (T U : Type) (f : T → U) (data : Nat → T) (data' : Nat → U) (ops : List (Operation T)),
      sizes ops = calls → Distinct f data (enqueued ops) →
        (Agrees Capacity f data data' ops ↔ Batches.FindsAll Capacity .init calls) := by
  have henough : Batches.FindsAll Capacity .init calls →
      ∀ (T U : Type) (f : T → U) (data : Nat → T) (data' : Nat → U) (ops : List (Operation T)),
        sizes ops = calls → Agrees Capacity f data data' ops := by
    rintro hreads T U f data data' ops rfl
    exact (agrees_iff_findsAll hcapacity f data data' hasked).mpr (kept_start.run_found hreads)
  have hneeded :
      ∀ (T U : Type) (f : T → U) (data : Nat → T) (data' : Nat → U) (ops : List (Operation T)),
        sizes ops = calls → Distinct f data (enqueued ops) →
          Agrees Capacity f data data' ops → Batches.FindsAll Capacity .init calls := by
    rintro T U f data data' ops rfl hdistinct hagrees
    exact kept_start.run_reads hdistinct
      ((agrees_iff_findsAll hcapacity f data data' hasked).mp hagrees)
  refine ⟨⟨fun h => ?_, henough⟩, fun T U f data data' ops hsizes hdistinct =>
    ⟨hneeded T U f data data' ops hsizes hdistinct, fun hreads =>
      henough hreads T U f data data' ops hsizes⟩⟩
  have hsizes := sizes_numbered 1 calls
  exact hneeded Nat Nat id (fun _ => 0) (fun _ => 0) _ hsizes (numbered_distinct calls)
    (h Nat Nat id (fun _ => 0) (fun _ => 0) _ hsizes)

/-- A batch taken out before the next one comes in is found again. -/
theorem copyLoop_agrees_batchwise :
    Agrees 4 (id : Nat → Nat) (fun _ => 0) (fun _ => 7)
      [.enqueue [1, 2, 3], .atIndex 1, .dequeue 3, .enqueue [4, 5], .dequeue 2] :=
  (copyLoop_agrees_iff (by decide)
      [.enqueue [(), (), ()], .atIndex 1, .dequeue 3, .enqueue [(), ()], .dequeue 2]
      (by decide)).1.mpr (by decide) Nat Nat id (fun _ => 0) (fun _ => 7) _ rfl

/-- Two batches, then one `dequeue` of both: the second element is looked for in a cell
that nothing was stored in. -/
theorem copyLoop_loses_second_batch :
    ¬ ∀ ops : List (Operation Nat),
        (Fifo.machine 4).Asked Fifo.MayCall [] ops →
          (machine false).outputs (init (fun _ => 0) : Buffer Nat 4) ops =
            (machine true).outputs (init (fun _ => 0) : Buffer Nat 4) ops := by
  intro h
  have hrun := h [.enqueue [1], .enqueue [2], .dequeue 2] (by decide)
  exact absurd hrun (by decide)

end Buffer
end Core
end ZeroRPC
