import ZeroRPC.Serial.RoundTrip

/-!
# Reading with the numbers reversed

A stream whose flag differs from the byte order of the host that reads it has each
number, and each length, reversed once too often.  Values whose numbers are their
own reversal do not notice.  For the types without a table and without a class the
converse holds as well: a value that is read back is made of such numbers, since a
reversed length changes how many elements are read.

Main facts:
* `Ty.merge_plain`, `Ty.same_plain`: a plain type replaces its target, and its
  equality is equality;
* `Ty.swapReads`: a plain value that is read back has palindromic numbers.
-/

namespace ZeroRPC
namespace Serial

open Library

/-- Every number in the encodings is its own byte reversal. -/
def Neutral (vs : List Value) : Prop :=
  Value.encodeAll true vs = Value.encodeAll false vs

/-- Scalars and strings, and vectors and lists of these at any depth. -/
def Ty.Plain : Ty → Prop
  | .vector T => T.Plain
  | .list T => T.Plain
  | .set _ => False
  | .map _ _ => False
  | .unorderedSet _ => False
  | .unorderedMap _ _ => False
  | .user _ _ => False
  | _ => True

theorem map_eq_self {α : Type} {f : α → α} (h : ∀ x, f x = x) (xs : List α) : xs.map f = xs := by
  rw [show f = id from funext h, List.map_id]

/-- A plain type replaces what the target held. -/
theorem Ty.merge_plain (P : Program) (T : Ty) :
    T.Plain → ∀ t v : T.Val, T.merge P t v = v := by
  induction T using Ty.induct with
  | vector T ih => exact fun hplain _ xs => map_eq_self (ih hplain (P.init T)) xs
  | list T ih => exact fun hplain _ xs => map_eq_self (ih hplain (P.init T)) xs
  | set T ih => exact fun hplain => hplain.elim
  | map K V ihK ihV => exact fun hplain => hplain.elim
  | unorderedSet T ih => exact fun hplain => hplain.elim
  | unorderedMap K V ihK ihV => exact fun hplain => hplain.elim
  | user cls Ts ih => exact fun hplain => hplain.elim
  | _ => exact fun _ _ _ => rfl

theorem eq_of_forall₂ {α : Type} {R : α → α → Prop} (h : ∀ x y, R x y → x = y) :
    ∀ {xs ys : List α}, List.Forall₂ R xs ys → xs = ys
  | _, _, .nil => rfl
  | _, _, .cons hxy t => by rw [h _ _ hxy, eq_of_forall₂ h t]

/-- The equality of a plain type is equality. -/
theorem Ty.same_plain (T : Ty) : T.Plain → ∀ v w : T.Val, T.Same v w → v = w := by
  induction T using Ty.induct with
  | vector T ih => exact fun hplain _ _ h => eq_of_forall₂ (ih hplain) h
  | list T ih => exact fun hplain _ _ h => eq_of_forall₂ (ih hplain) h
  | set T ih => exact fun hplain => hplain.elim
  | map K V ihK ihV => exact fun hplain => hplain.elim
  | unorderedSet T ih => exact fun hplain => hplain.elim
  | unorderedMap K V ihK ihV => exact fun hplain => hplain.elim
  | user cls Ts ih => exact fun hplain => hplain.elim
  | _ => exact fun _ _ _ h => h

section Swapped

variable {host : Endian}

/-- A number whose bytes are reversed once too often. -/
theorem readNumber_swapped
    {w : Nat}
    {type : DataType}
    {k n : Nat}
    {s : DataStream}
    (value : BitVec w)
    (hflag : (s.isBigEndian != host.isBig) = true)
    (hahead : Ahead s (encodeNumber false type k n)) :
    readNumber host type k s value =
      .ok ⟨true, BitVec.ofNat w (leValue (leBytes k n).reverse), s.skip (k + 1)⟩ := by
  have hbytes : s.buf.range (s.skip 1).pos k = .ok (leBytes k n) := by
    have h : Ahead (s.skip 1) (leBytes k n ++ []) := by
      simpa using hahead.tail
    simpa using h.range
  have hvalue : host.fetch (orderBytes s.isBigEndian (leBytes k n)) =
      leValue (leBytes k n).reverse := by
    rw [fetch_eq_orderBytes, hflag, orderBytes_true]
  have htag : s.cell = .ok type.code := hahead.cell
  simp [readNumber, htag, hbytes, hvalue, Nat.add_comm k 1]

/-- What the reversed bytes of a number of the full width stand for. -/
theorem toNat_ofNat_reverse
    {w k : Nat}
    (hk : 256 ^ k = 2 ^ w)
    (n : Nat) :
    (BitVec.ofNat w (leValue (leBytes k n).reverse)).toNat = leValue (leBytes k n).reverse := by
  have hlt := leValue_lt (leBytes k n).reverse
  rw [List.length_reverse, leBytes_length, hk] at hlt
  rw [BitVec.toNat_ofNat, Nat.mod_eq_of_lt hlt]

theorem encodeNumber_neutral
    {type : DataType}
    {k n : Nat}
    (h : leValue (leBytes k n).reverse = n) :
    encodeNumber true type k n = encodeNumber false type k n := by
  rw [encodeNumber, encodeNumber, orderBytes_true, orderBytes_false, reverse_leBytes_of_leValue h]

theorem readNumber_neutral
    {w : Nat}
    {type : DataType}
    {k : Nat}
    {s : DataStream}
    {v value : BitVec w}
    {r : Read (BitVec w)}
    (hk : 256 ^ k = 2 ^ w)
    (hflag : (s.isBigEndian != host.isBig) = true)
    (hahead : Ahead s (encodeNumber false type k v.toNat))
    (hread : readNumber host type k s value = .ok r)
    (hvalue : r.value = v) :
    encodeNumber true type k v.toNat = encodeNumber false type k v.toNat := by
  rw [readNumber_swapped value hflag hahead] at hread
  cases hread
  refine encodeNumber_neutral ?_
  rw [← toNat_ofNat_reverse hk]
  exact congrArg BitVec.toNat hvalue

/-- A length whose bytes are reversed once too often. -/
def swappedLength (n : Nat) : BitVec 32 :=
  BitVec.ofNat 32 (leValue (leBytes 4 (BitVec.ofNat 32 n).toNat).reverse)

theorem readLength_swapped
    {s : DataStream}
    {n : Nat}
    {bs : List UInt8}
    (hflag : (s.isBigEndian != host.isBig) = true)
    (hahead : Ahead s (encodeLength false n ++ bs)) :
    readLength host s = .ok (swappedLength n, s.skip 5) := by
  have hread : readInt32 host s 0 = .ok ⟨true, swappedLength n, s.skip 5⟩ :=
    readNumber_swapped 0 hflag hahead.left
  simp only [readLength, hread, ok_bind, if_true, pure_eq_ok]

/-- A length that is unchanged by the reversal. -/
theorem encodeLength_neutral
    {n : Nat}
    (hn : n < 2 ^ 31)
    (h : (swappedLength n).toNat = n) :
    encodeLength true n = encodeLength false n := by
  have hmod : (BitVec.ofNat 32 n).toNat = n := by
    rw [BitVec.toNat_ofNat]
    omega
  refine encodeNumber_neutral ?_
  rw [← toNat_ofNat_reverse (by norm_num : 256 ^ 4 = 2 ^ 32)]
  exact h.trans hmod.symm

theorem encodeLength_zero_neutral : encodeLength true 0 = encodeLength false 0 :=
  encodeLength_neutral (by decide) (by decide)

theorem readString_neutral
    {s : DataStream}
    {data : List UInt8}
    {r : Read (List UInt8)}
    (hflag : (s.isBigEndian != host.isBig) = true)
    (hahead : Ahead s (DataType.string.code :: (encodeLength false data.length ++ data)))
    (hlen : data.length < 2 ^ 31)
    (hread : readString host s [] = .ok r)
    (hvalue : r.value = data) :
    encodeLength true data.length = encodeLength false data.length := by
  have htag : s.cell = .ok DataType.string.code := hahead.cell
  have hlength : readLength host (s.skip 1) = .ok (swappedLength data.length, (s.skip 1).skip 5) :=
    readLength_swapped hflag hahead.tail
  simp only [readString, htag, ok_bind, hlength, ne_eq, not_true_eq_false, if_false] at hread
  by_cases hneg : (swappedLength data.length).toInt < 0
  · -- nothing is assigned, so there was nothing to read
    simp only [hneg, if_true, pure_eq_ok] at hread
    cases hread
    rw [← hvalue]
    exact encodeLength_zero_neutral
  · simp only [hneg, if_false] at hread
    cases hrange : CharVector.range ((s.skip 1).skip 5).buf ((s.skip 1).skip 5).pos
        (swappedLength data.length).toNat with
    | error e =>
        rw [hrange, error_bind] at hread
        cases hread
    | ok bytes =>
        rw [hrange, ok_bind] at hread
        cases hread
        have hcount := CharVector.range_length hrange
        rw [show bytes = data from hvalue] at hcount
        exact encodeLength_neutral hlen hcount.symm

/-- A loop that appends keeps what was there and adds one element each round. -/
theorem repeatRead_append
    {α : Type}
    {read : DataStream → α → Except Fault (Read α)}
    {init : α} :
    ∀ {n : Nat} {s s' : DataStream} {acc value : List α},
      repeatRead (readElement read init fun ys x => ys ++ [x]) n s acc = .ok (value, s') →
        ∃ ys, value = acc ++ ys ∧ ys.length = n
  | 0, s, s', acc, value, h => by
      cases h
      exact ⟨[], by simp, rfl⟩
  | n + 1, s, s', acc, value, h => by
      rw [repeatRead, readElement] at h
      cases hr : read s init with
      | error e =>
          simp only [hr, error_bind] at h
          cases h
      | ok r =>
          simp only [hr, ok_bind, pure_eq_ok] at h
          obtain ⟨ys, rfl, hys⟩ := repeatRead_append h
          exact ⟨r.value :: ys, by simp, by rw [List.length_cons, hys]⟩

/-- What is known of an element type: a value that is read back is neutral, and a
neutral value is read to its end. -/
structure SwapReads {α : Type} (host : Endian) (read : DataStream → α → Except Fault (Read α))
    (init : α) (tree : α → Value) : Prop where
  neutral : ∀ {s : DataStream} {x : α} {r : Read α},
    (s.isBigEndian != host.isBig) = true → Ahead s ((tree x).encode false) →
    ((tree x).encode false).length < 2 ^ 31 → read s init = .ok r → r.value = x →
      (tree x).encode true = (tree x).encode false
  advance : ∀ x, ((tree x).encode true).length < 2 ^ 31 →
    ReadsAs host true (fun s => read s init) ((tree x).encode true) x

theorem repeatRead_neutral
    {α : Type}
    {read : DataStream → α → Except Fault (Read α)}
    {init : α}
    {tree : α → Value}
    (helem : SwapReads host read init tree) :
    ∀ {xs : List α} {s s' : DataStream} {acc : List α},
      (s.isBigEndian != host.isBig) = true →
      Ahead s (Value.encodeAll false (xs.map tree)) →
      (Value.encodeAll false (xs.map tree)).length < 2 ^ 31 →
      repeatRead (readElement read init fun ys x => ys ++ [x]) xs.length s acc =
        .ok (acc ++ xs, s') →
        Value.encodeAll true (xs.map tree) = Value.encodeAll false (xs.map tree)
  | [], _, _, _, _, _, _, _ => rfl
  | x :: xs, s, s', acc, hflag, hahead, hlen, hloop => by
      simp only [List.map_cons, Value.encodeAll, List.length_append] at hahead hlen ⊢
      rw [List.length_cons, repeatRead, readElement] at hloop
      cases hr : read s init with
      | error e =>
          simp only [hr, error_bind] at hloop
          cases hloop
      | ok r =>
          simp only [hr, ok_bind, pure_eq_ok] at hloop
          -- the element read first is the one that ends up behind `acc`
          obtain ⟨ys, hys, _⟩ := repeatRead_append hloop
          rw [List.append_assoc, List.append_cancel_left_eq, List.singleton_append] at hys
          obtain ⟨hx, rfl⟩ := List.cons.inj hys
          have hneutral := helem.neutral hflag hahead.left (by omega) hr hx.symm
          have hnext : read s init = .ok ⟨true, x, s.skip ((tree x).encode true).length⟩ :=
            helem.advance x (by rw [hneutral]; omega) s hflag (hneutral ▸ hahead.left)
          rw [hr] at hnext
          cases hnext
          rw [hneutral] at hloop
          have hrest :
              repeatRead (readElement read init fun ys x => ys ++ [x]) xs.length
                (s.skip ((tree x).encode false).length) (acc ++ [x]) =
                  .ok (acc ++ [x] ++ xs, s') := by
            rw [List.append_assoc]
            exact hloop
          rw [hneutral, repeatRead_neutral helem (s := s.skip _) hflag hahead.skip (by omega) hrest]

theorem readContainer_neutral
    {α : Type}
    {type : DataType}
    {read : DataStream → α → Except Fault (Read α)}
    {init : α}
    {tree : α → Value}
    (helem : SwapReads host read init tree)
    {s : DataStream}
    {xs value : List α}
    {r : Read (List α)}
    (hflag : (s.isBigEndian != host.isBig) = true)
    (hahead : Ahead s (type.code ::
      (encodeLength false (xs.map tree).length ++ Value.encodeAll false (xs.map tree))))
    (hlen : (Value.encodeAll false (xs.map tree)).length < 2 ^ 31)
    (hread : readContainer host type (readElement read init fun ys x => ys ++ [x]) s value [] =
      .ok r)
    (hvalue : r.value = xs) :
    encodeLength true (xs.map tree).length ++ Value.encodeAll true (xs.map tree) =
      encodeLength false (xs.map tree).length ++ Value.encodeAll false (xs.map tree) := by
  rw [List.length_map] at hahead ⊢
  have hcount := Value.length_le_encodeAll false (xs.map tree)
  rw [List.length_map] at hcount
  have htag : s.cell = .ok type.code := hahead.cell
  have hlength : readLength host (s.skip 1) = .ok (swappedLength xs.length, (s.skip 1).skip 5) :=
    readLength_swapped hflag hahead.tail
  simp only [readContainer, htag, ok_bind, hlength, ne_eq, not_true_eq_false, if_false] at hread
  cases hloop : repeatRead (readElement read init fun ys x => ys ++ [x])
      (swappedLength xs.length).toInt.toNat ((s.skip 1).skip 5) [] with
  | error e =>
      simp only [hloop, error_bind] at hread
      cases hread
  | ok out =>
      obtain ⟨ys, s'⟩ := out
      simp only [hloop, ok_bind, pure_eq_ok] at hread
      cases hread
      obtain rfl : ys = xs := hvalue
      -- the loop ran once for each element
      obtain ⟨zs, hzs, hrounds⟩ := repeatRead_append hloop
      rw [List.nil_append] at hzs
      subst hzs
      cases ys with
      | nil => rw [List.length_nil, encodeLength_zero_neutral]; rfl
      | cons x xs =>
          have hnat : (swappedLength (x :: xs).length).toNat = (x :: xs).length := by
            have hint := BitVec.toInt_eq_toNat_cond (swappedLength (x :: xs).length)
            rw [List.length_cons] at *
            split_ifs at hint <;> omega
          rw [encodeLength_neutral (by omega) hnat]
          rw [← hrounds] at hloop
          have hbody : Ahead ((s.skip 1).skip 5) (Value.encodeAll false ((x :: xs).map tree)) := by
            have h := hahead.tail.skip
            rwa [encodeLength_length] at h
          rw [repeatRead_neutral helem (s := (s.skip 1).skip 5) hflag hbody hlen hloop]

end Swapped

theorem Ty.swapReads_advance
    (P : Program)
    {T : Ty}
    (hplain : T.Plain)
    (v : T.Val)
    (hlen : ((T.tree v).encode true).length < 2 ^ 31) :
    ReadsAs P.host true (fun s => T.read P s (P.init T)) ((T.tree v).encode true) v := by
  have h : ReadsAs P.host true (fun s => T.read P s (P.init T)) ((T.tree v).encode true) _ :=
    Ty.read_encoded P T (P.init T) v hlen
  rwa [Ty.merge_plain P T hplain] at h

/-- **A plain value that is read back has palindromic numbers.** -/
theorem Ty.swapReads (P : Program) (T : Ty) (hplain : T.Plain) :
    SwapReads P.host (T.read P) (P.init T) T.tree := by
  induction T using Ty.induct with
  | bool => exact ⟨fun _ _ _ _ _ => rfl, fun v => Ty.swapReads_advance P hplain v⟩
  | char => exact ⟨fun _ _ _ _ _ => rfl, fun v => Ty.swapReads_advance P hplain v⟩
  | int32 =>
      exact ⟨fun hflag hahead _ hread hvalue =>
        readNumber_neutral (by norm_num) hflag hahead hread hvalue,
        fun v => Ty.swapReads_advance P hplain v⟩
  | int64 =>
      exact ⟨fun hflag hahead _ hread hvalue =>
        readNumber_neutral (by norm_num) hflag hahead hread hvalue,
        fun v => Ty.swapReads_advance P hplain v⟩
  | float =>
      exact ⟨fun hflag hahead _ hread hvalue =>
        readNumber_neutral (by norm_num) hflag hahead hread hvalue,
        fun v => Ty.swapReads_advance P hplain v⟩
  | double =>
      exact ⟨fun hflag hahead _ hread hvalue =>
        readNumber_neutral (by norm_num) hflag hahead hread hvalue,
        fun v => Ty.swapReads_advance P hplain v⟩
  | string =>
      refine ⟨?_, fun v => Ty.swapReads_advance P hplain v⟩
      intro s data r hflag hahead hlen hread hvalue
      have hread : readString P.host s [] = .ok r := by
        rw [← P.init_string]
        exact hread
      have hlength := readString_neutral hflag hahead (payload_lt hlen) hread hvalue
      simp only [Ty.tree, Value.encode, hlength]
  | vector T ih =>
      refine ⟨?_, fun v => Ty.swapReads_advance P hplain v⟩
      intro s xs r hflag hahead hlen hread hvalue
      exact congrArg (DataType.vector.code :: ·)
        (readContainer_neutral (ih hplain) hflag hahead (payload_lt hlen) hread hvalue)
  | list T ih =>
      refine ⟨?_, fun v => Ty.swapReads_advance P hplain v⟩
      intro s xs r hflag hahead hlen hread hvalue
      exact congrArg (DataType.list.code :: ·)
        (readContainer_neutral (ih hplain) hflag hahead (payload_lt hlen) hread hvalue)
  | set T ih => exact hplain.elim
  | map K V ihK ihV => exact hplain.elim
  | unorderedSet T ih => exact hplain.elim
  | unorderedMap K V ihK ihV => exact hplain.elim
  | user cls Ts ih => exact hplain.elim

end Serial
end ZeroRPC
