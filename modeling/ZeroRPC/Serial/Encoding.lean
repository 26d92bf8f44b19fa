import ZeroRPC.Serial.Codec

/-!
# write appends the wire format and read consumes it

`WritesBytes` and `ReadsAs` say what a writer appends and what a reader makes of
the bytes ahead of it; both compose along the statements of the source, so that
the two main results are one induction over the types each:

* `Ty.write_encodes`: `write` of a value appends the encoding of its tree;
* `Ty.read_encoded`: `read` at an encoding returns true, moves to its end and
  leaves `Ty.merge` in the target.

`Ty.merge P t v` is `t` after `v` was read into it: sets and maps are united with
what was there, everything else is replaced.
-/

namespace ZeroRPC
namespace Serial

open Library

/-! ### Lengths of encodings -/

@[simp] theorem encodeNumber_length (swap : Bool) (type : DataType) (k n : Nat) :
    (encodeNumber swap type k n).length = k + 1 := by
  simp [encodeNumber]

@[simp] theorem encodeLength_length (swap : Bool) (n : Nat) :
    (encodeLength swap n).length = 5 := by
  simp [encodeLength]

theorem Value.encode_ne_nil (swap : Bool) : ∀ v : Value, v.encode swap ≠ []
  | .bool _ => by simp [Value.encode]
  | .char _ => by simp [Value.encode]
  | .int32 _ => by simp [Value.encode, encodeNumber]
  | .int64 _ => by simp [Value.encode, encodeNumber]
  | .float _ => by simp [Value.encode, encodeNumber]
  | .double _ => by simp [Value.encode, encodeNumber]
  | .string _ => by simp [Value.encode]
  | .vector _ => by simp [Value.encode]
  | .list _ => by simp [Value.encode]
  | .set _ => by simp [Value.encode]
  | .map _ => by simp [Value.encode]
  | .entry k _ => by simp [Value.encode, Value.encode_ne_nil swap k]
  | .user _ => by simp [Value.encode]

theorem Value.encodeAll_eq_flatMap (swap : Bool) (vs : List Value) :
    Value.encodeAll swap vs = vs.flatMap (Value.encode swap) := by
  induction vs with
  | nil => simp [Value.encodeAll]
  | cons v vs ih => simp [Value.encodeAll, ih]

/-- Every element takes at least one byte. -/
theorem Value.length_le_encodeAll (swap : Bool) (vs : List Value) :
    vs.length ≤ (Value.encodeAll swap vs).length := by
  induction vs with
  | nil => simp
  | cons v vs ih =>
      have hv : 0 < (v.encode swap).length :=
        List.length_pos_iff.mpr (Value.encode_ne_nil swap v)
      simp only [List.length_cons, Value.encodeAll, List.length_append]
      omega

theorem Value.encode_length_le_of_mem
    (swap : Bool)
    {v : Value} :
    ∀ {vs : List Value}, v ∈ vs → (v.encode swap).length ≤ (Value.encodeAll swap vs).length
  | w :: vs, h => by
      simp only [Value.encodeAll, List.length_append]
      rcases List.mem_cons.mp h with rfl | h
      · omega
      · have ih := Value.encode_length_le_of_mem swap h
        omega

/-! ### Writers -/

/-- On a stream whose flag and host differ as `swap` says, `f` appends `bs` while
the buffer stays below `2 ^ 31` bytes. -/
def WritesBytes (host : Endian) (swap : Bool)
    (f : DataStream → Except Fault DataStream) (bs : List UInt8) : Prop :=
  ∀ s : DataStream, (s.isBigEndian != host.isBig) = swap →
    s.buf.size + bs.length < 2 ^ 31 → ∃ s', f s = .ok s' ∧ Appends s s' bs

section Writers

variable {host : Endian} {swap : Bool}

theorem WritesBytes.bind
    {f g : DataStream → Except Fault DataStream}
    {as bs : List UInt8}
    (hf : WritesBytes host swap f as)
    (hg : WritesBytes host swap g bs) :
    WritesBytes host swap (fun s => f s >>= g) (as ++ bs) := by
  intro s hflag hsize
  rw [List.length_append] at hsize
  obtain ⟨t, ht, hst⟩ := hf s hflag (by omega)
  obtain ⟨u, hu, htu⟩ := hg t (by rw [hst.flag]; exact hflag) (by rw [hst.size_eq]; omega)
  refine ⟨u, ?_, hst.trans htu⟩
  show (f s >>= g) = _
  rw [ht, ok_bind, hu]

theorem WritesBytes.memory
    {bytes : List UInt8}
    {len : BitVec 32}
    (hlen : len = BitVec.ofNat 32 bytes.length) :
    WritesBytes host swap (fun s => s.writeMemory bytes len) bytes := by
  subst hlen
  exact fun s _ hsize => writeMemory_appends s hsize

theorem writeTag_writes (type : DataType) :
    WritesBytes host swap (fun s => writeTag s type) [type.code] :=
  WritesBytes.memory rfl

theorem writeNumber_writes (type : DataType) (k n : Nat) :
    WritesBytes host swap (fun s => writeNumber host type k s n)
      (encodeNumber swap type k n) := by
  intro s hflag hsize
  simp only [encodeNumber_length] at hsize
  have htag : WritesBytes host swap (fun s => writeTag s type) [type.code] :=
    writeTag_writes type
  obtain ⟨t, ht, hst⟩ := htag s hflag (by simp; omega)
  have hbytes : orderBytes t.isBigEndian (host.store k n) = orderBytes swap (leBytes k n) := by
    rw [store_eq_orderBytes, hst.flag, hflag]
  have hroom : t.buf.size + (orderBytes swap (leBytes k n)).length < 2 ^ 31 := by
    rw [hst.size_eq, orderBytes_length, leBytes_length, List.length_singleton]
    omega
  obtain ⟨u, hu, htu⟩ := writeMemory_appends t hroom
  refine ⟨u, ?_, hst.trans htu⟩
  simp only [orderBytes_length, leBytes_length] at hu
  simp only [writeNumber, ht, ok_bind, hbytes, hu]

theorem writeInt32_length_writes (n : Nat) :
    WritesBytes host swap (fun s => writeInt32 host s (BitVec.ofNat 32 n))
      (encodeLength swap n) :=
  writeNumber_writes .int32 4 _

theorem foldlM_writes
    {α : Type}
    {write : DataStream → α → Except Fault DataStream}
    {tree : α → Value} :
    ∀ {xs : List α},
      (∀ x ∈ xs, WritesBytes host swap (fun s => write s x) ((tree x).encode swap)) →
      WritesBytes host swap (fun s => xs.foldlM write s) (Value.encodeAll swap (xs.map tree))
  | [], _ => fun s _ _ => ⟨s, rfl, by simpa [Value.encodeAll] using Appends.refl s⟩
  | x :: xs, h => by
      have htail :
          WritesBytes host swap (fun s => xs.foldlM write s)
            (Value.encodeAll swap (xs.map tree)) :=
        foldlM_writes fun y hy => h y (by simp [hy])
      simpa [Value.encodeAll] using (h x (by simp)).bind htail

theorem writeContainer_writes
    {α : Type}
    {type : DataType}
    {write : DataStream → α → Except Fault DataStream}
    {tree : α → Value}
    {xs : List α}
    (h : ∀ x ∈ xs, WritesBytes host swap (fun s => write s x) ((tree x).encode swap)) :
    WritesBytes host swap (fun s => writeContainer host type write s xs)
      (type.code ::
        (encodeLength swap (xs.map tree).length ++ Value.encodeAll swap (xs.map tree))) := by
  rw [List.length_map]
  exact (writeTag_writes type).bind ((writeInt32_length_writes xs.length).bind (foldlM_writes h))

theorem Ty.writeArgs_encodes :
    ∀ {Ts : List Ty},
      (∀ T ∈ Ts, ∀ v : T.Val,
        WritesBytes host swap (fun s => T.write host s v) ((T.tree v).encode swap)) →
      ∀ vs : Ty.Tuple Ts,
        WritesBytes host swap (fun s => Ty.writeArgs host Ts s vs)
          (Value.encodeAll swap (Ty.trees Ts vs))
  | [], _, _ => fun s _ _ => ⟨s, rfl, by simpa [Ty.trees, Value.encodeAll] using Appends.refl s⟩
  | T :: Ts, h, (v, vs) => by
      have htail := Ty.writeArgs_encodes (fun U hU => h U (by simp [hU])) vs
      exact (h T (by simp) v).bind htail

/-- **`write` appends the encoding of the value's tree.** -/
theorem Ty.write_encodes (T : Ty) :
    ∀ v : T.Val,
      WritesBytes host swap (fun s => T.write host s v) ((T.tree v).encode swap) := by
  induction T using Ty.induct with
  | bool => exact fun b => (writeTag_writes .bool).bind (WritesBytes.memory rfl)
  | char => exact fun c => (writeTag_writes .char).bind (WritesBytes.memory rfl)
  | int32 => exact fun n => writeNumber_writes .int32 4 _
  | int64 => exact fun n => writeNumber_writes .int64 8 _
  | float => exact fun n => writeNumber_writes .float 4 _
  | double => exact fun n => writeNumber_writes .double 8 _
  | string =>
      exact fun data => (writeTag_writes .string).bind
        ((writeInt32_length_writes data.length).bind (WritesBytes.memory rfl))
  | vector T ih => exact fun xs => writeContainer_writes fun x _ => ih x
  | list T ih => exact fun xs => writeContainer_writes fun x _ => ih x
  | set T ih => exact fun xs => writeContainer_writes fun x _ => ih x
  | map K V ihK ihV => exact fun es => writeContainer_writes fun e _ => (ihK e.1).bind (ihV e.2)
  | unorderedSet T ih => exact fun xs => writeContainer_writes fun x _ => ih x
  | unorderedMap K V ihK ihV =>
      exact fun es => writeContainer_writes fun e _ => (ihK e.1).bind (ihV e.2)
  | user cls Ts ih =>
      exact fun vs => (writeTag_writes .custom).bind (Ty.writeArgs_encodes ih vs)

end Writers

/-! ### Readers -/

mutual
/-- The target `t` after the value `v` was read into it. -/
def Ty.merge (P : Program) : (T : Ty) → T.Val → T.Val → T.Val
  | .bool, _, v => v
  | .char, _, v => v
  | .int32, _, v => v
  | .int64, _, v => v
  | .float, _, v => v
  | .double, _, v => v
  | .string, _, v => v
  | .vector T, _, xs => List.map (T.merge P (P.init T)) xs
  | .list T, _, xs => List.map (T.merge P (P.init T)) xs
  | .set T, t, xs => List.foldl (P.insert .ordered T) t (List.map (T.merge P (P.init T)) xs)
  | .map K V, t, es =>
      List.foldl (P.assign .ordered K V) t
        (List.map (fun e => (K.merge P (P.init K) e.1, V.merge P (P.init V) e.2)) es)
  | .unorderedSet T, t, xs =>
      List.foldl (P.insert .unordered T) t (List.map (T.merge P (P.init T)) xs)
  | .unorderedMap K V, t, es =>
      List.foldl (P.assign .unordered K V) t
        (List.map (fun e => (K.merge P (P.init K) e.1, V.merge P (P.init V) e.2)) es)
  | .user _ Ts, t, v => Ty.mergeAll P Ts t v

/-- The members after the given ones were read into them. -/
def Ty.mergeAll (P : Program) : (Ts : List Ty) → Ty.Tuple Ts → Ty.Tuple Ts → Ty.Tuple Ts
  | [], _, _ => ()
  | T :: Ts, (t, ts), (v, vs) => (T.merge P t v, Ty.mergeAll P Ts ts vs)
end

theorem merge_vector_char (P : Program) (t xs : (Ty.vector .char).Val) :
    (Ty.vector .char).merge P t xs = xs :=
  List.map_id xs

/-- Every member of a stream is replaced by a read. -/
theorem merge_dataStream (P : Program) :
    ∀ t v : Ty.dataStream.Val, Ty.dataStream.merge P t v = v
  | (_, _, _, ()), (flag, buf, pos, ()) => by
      show (flag, (Ty.vector .char).merge P _ buf, pos, ()) = (flag, buf, pos, ())
      rw [merge_vector_char]

/-- On a stream whose flag and host differ as `swap` says, `f` at `bs` returns true,
moves to the end of `bs` and leaves `v`. -/
def ReadsAs {α : Type} (host : Endian) (swap : Bool)
    (f : DataStream → Except Fault (Read α)) (bs : List UInt8) (v : α) : Prop :=
  ∀ s : DataStream, (s.isBigEndian != host.isBig) = swap → Ahead s bs →
    f s = .ok ⟨true, v, s.skip bs.length⟩

/-- The same for a step of a loop, which takes `b` to `b'`. -/
def StepsAs {β : Type} (host : Endian) (swap : Bool)
    (f : DataStream → Except Fault (β × DataStream)) (bs : List UInt8) (b' : β) : Prop :=
  ∀ s : DataStream, (s.isBigEndian != host.isBig) = swap → Ahead s bs →
    f s = .ok (b', s.skip bs.length)

section Readers

variable {host : Endian} {swap : Bool}

theorem readBool_reads (b value : Bool) :
    ReadsAs host swap (fun s => readBool s value) [DataType.bool.code, b.toUInt8] b := by
  intro s _ hahead
  have htag : s.cell = .ok DataType.bool.code := hahead.cell
  have hbyte : (s.skip 1).cell = .ok b.toUInt8 := hahead.tail.cell
  have hback : decide (b.toUInt8 ≠ 0) = b := by cases b <;> decide
  simp only [readBool, htag, ok_bind, hbyte, hback, ne_eq, not_true_eq_false, if_false,
    pure_eq_ok, List.length_cons, List.length_nil]

theorem readChar_reads (c value : UInt8) :
    ReadsAs host swap (fun s => readChar s value) [DataType.char.code, c] c := by
  intro s _ hahead
  have htag : s.cell = .ok DataType.char.code := hahead.cell
  have hbyte : (s.skip 1).cell = .ok c := hahead.tail.cell
  simp only [readChar, htag, ok_bind, hbyte, ne_eq, not_true_eq_false, if_false,
    pure_eq_ok, List.length_cons, List.length_nil]

theorem readNumber_reads
    {w : Nat}
    (type : DataType)
    {k : Nat}
    (hk : 256 ^ k = 2 ^ w)
    (v value : BitVec w) :
    ReadsAs host swap (fun s => readNumber host type k s value)
      (encodeNumber swap type k v.toNat) v := by
  intro s hflag hahead
  have hbytes : s.buf.range (s.skip 1).pos k = .ok (orderBytes swap (leBytes k v.toNat)) := by
    have h : Ahead (s.skip 1) (orderBytes swap (leBytes k v.toNat) ++ []) := by
      simpa using hahead.tail
    simpa using h.range
  have hvalue : host.fetch (orderBytes s.isBigEndian (orderBytes swap (leBytes k v.toNat))) =
      v.toNat := by
    rw [fetch_eq_orderBytes, hflag, orderBytes_orderBytes, leValue_leBytes, hk]
    exact Nat.mod_eq_of_lt v.isLt
  have htag : s.cell = .ok type.code := hahead.cell
  simp [readNumber, htag, hbytes, hvalue, Nat.add_comm k 1]

theorem readLength_encoded
    {s : DataStream}
    {n : Nat}
    {bs : List UInt8}
    (hflag : (s.isBigEndian != host.isBig) = swap)
    (hahead : Ahead s (encodeLength swap n ++ bs)) :
    readLength host s = .ok (BitVec.ofNat 32 n, s.skip 5) := by
  have hread : readInt32 host s 0 = .ok ⟨true, BitVec.ofNat 32 n, s.skip 5⟩ := by
    have hk : 256 ^ 4 = 2 ^ 32 := by norm_num
    have h := readNumber_reads .int32 hk (BitVec.ofNat 32 n) 0 s hflag hahead.left
    rwa [encodeNumber_length] at h
  simp only [readLength, hread, ok_bind, if_true, pure_eq_ok]

/-- A length below `2 ^ 31` is not negative as an `int`. -/
theorem toInt_ofNat_of_lt {n : Nat} (h : n < 2 ^ 31) :
    (BitVec.ofNat 32 n).toInt = n := by
  have hn : (BitVec.ofNat 32 n).toNat = n := by
    rw [BitVec.toNat_ofNat]
    omega
  rw [BitVec.toInt_eq_toNat_of_lt (by omega), hn]

theorem readString_reads
    {data : List UInt8}
    (hlen : data.length < 2 ^ 31)
    (value : List UInt8) :
    ReadsAs host swap (fun s => readString host s value)
      (DataType.string.code :: (encodeLength swap data.length ++ data)) data := by
  intro s hflag hahead
  have htag : s.cell = .ok DataType.string.code := hahead.cell
  have hlength := readLength_encoded (s := s.skip 1) hflag hahead.tail
  have hdata : Ahead (s.skip 6) (data ++ []) := by
    have h := hahead.tail.skip
    rw [encodeLength_length, skip_skip] at h
    simpa using h
  have hnonneg : ¬ (BitVec.ofNat 32 data.length).toInt < 0 := by
    rw [toInt_ofNat_of_lt hlen]
    omega
  have htoNat : (BitVec.ofNat 32 data.length).toNat = data.length := by
    rw [BitVec.toNat_ofNat]
    omega
  have hrange : s.buf.range (s.skip 6).pos data.length = .ok data := hdata.range
  simp only [readString, htag, ok_bind, hlength, skip_skip, hnonneg, htoNat]
  simp [hrange, Nat.add_comm, Nat.add_left_comm]

theorem repeatRead_steps
    {α β : Type}
    {body : DataStream → β → Except Fault (β × DataStream)}
    {tree : α → Value}
    {step : β → α → β} :
    ∀ {xs : List α} (b : β),
      (∀ x ∈ xs, ∀ b,
        StepsAs host swap (fun s => body s b) ((tree x).encode swap) (step b x)) →
      StepsAs host swap (fun s => repeatRead body xs.length s b)
        (Value.encodeAll swap (xs.map tree)) (xs.foldl step b)
  | [], b, _ => fun s _ _ => by simp [repeatRead, Value.encodeAll]
  | x :: xs, b, h => by
      intro s hflag hahead
      simp only [List.map_cons, Value.encodeAll] at hahead ⊢
      have hfirst : body s b = .ok (step b x, s.skip ((tree x).encode swap).length) :=
        h x (by simp) b s hflag hahead.left
      have hrest :
          repeatRead body xs.length (s.skip ((tree x).encode swap).length) (step b x) = _ :=
        repeatRead_steps (step b x) (fun y hy => h y (by simp [hy])) _ hflag hahead.skip
      simp only [List.length_cons, repeatRead, List.foldl_cons, List.length_append]
      rw [hfirst, ok_bind, hrest, skip_skip]

theorem readContainer_reads
    {α β : Type}
    {type : DataType}
    {body : DataStream → β → Except Fault (β × DataStream)}
    {tree : α → Value}
    {step : β → α → β}
    {xs : List α}
    (hlen : xs.length < 2 ^ 31)
    (hbody : ∀ x ∈ xs, ∀ b,
      StepsAs host swap (fun s => body s b) ((tree x).encode swap) (step b x))
    (value start : β) :
    ReadsAs host swap (fun s => readContainer host type body s value start)
      (type.code ::
        (encodeLength swap (xs.map tree).length ++ Value.encodeAll swap (xs.map tree)))
      (xs.foldl step start) := by
  rw [List.length_map]
  intro s hflag hahead
  have htag : s.cell = .ok type.code := hahead.cell
  have hlength := readLength_encoded (s := s.skip 1) hflag hahead.tail
  have hrest : Ahead (s.skip 6) (Value.encodeAll swap (xs.map tree)) := by
    have h := hahead.tail.skip
    rwa [encodeLength_length, skip_skip] at h
  have hloop : repeatRead body xs.length (s.skip 6) start = _ :=
    repeatRead_steps start hbody (s.skip 6) hflag hrest
  have hcount : (BitVec.ofNat 32 xs.length).toInt.toNat = xs.length := by
    rw [toInt_ofNat_of_lt hlen]
    exact Int.toNat_natCast _
  simp only [readContainer, htag, ok_bind, hlength, skip_skip, hcount]
  simp only [hloop, ne_eq, not_true_eq_false, if_false, ok_bind, pure_eq_ok, skip_skip,
    List.length_cons, List.length_append, encodeLength_length]
  congr 3
  omega

theorem readElement_steps
    {α β : Type}
    {read : DataStream → α → Except Fault (Read α)}
    {init v : α}
    {bs : List UInt8}
    (h : ReadsAs host swap (fun s => read s init) bs v)
    (add : β → α → β)
    (b : β) :
    StepsAs host swap (fun s => readElement read init add s b) bs (add b v) := by
  intro s hflag hahead
  have hread : read s init = _ := h s hflag hahead
  simp only [readElement, hread, ok_bind, pure_eq_ok]

theorem readEntry_steps
    {κ ν β : Type}
    {readKey : DataStream → κ → Except Fault (Read κ)}
    {readVal : DataStream → ν → Except Fault (Read ν)}
    {initKey k : κ}
    {initVal v : ν}
    {as bs : List UInt8}
    (hk : ReadsAs host swap (fun s => readKey s initKey) as k)
    (hv : ReadsAs host swap (fun s => readVal s initVal) bs v)
    (add : β → κ × ν → β)
    (b : β) :
    StepsAs host swap (fun s => readEntry readKey initKey readVal initVal add s b)
      (as ++ bs) (add b (k, v)) := by
  intro s hflag hahead
  have hkey : readKey s initKey = _ := hk s hflag hahead.left
  have hval : readVal (s.skip as.length) initVal = _ := hv _ hflag hahead.skip
  simp only [readEntry, hkey, hval, ok_bind, pure_eq_ok, skip_skip, List.length_append]

/-- A container of elements that are read one by one. -/
theorem readContainer_elements
    {α β : Type}
    {type : DataType}
    {read : DataStream → α → Except Fault (Read α)}
    {init : α}
    {tree : α → Value}
    {merge : α → α}
    (ih : ∀ x, ((tree x).encode swap).length < 2 ^ 31 →
      ReadsAs host swap (fun s => read s init) ((tree x).encode swap) (merge x))
    (add : β → α → β)
    {xs : List α}
    (hlen : (Value.encodeAll swap (xs.map tree)).length < 2 ^ 31)
    (value start : β) :
    ReadsAs host swap
      (fun s => readContainer host type (readElement read init add) s value start)
      (type.code ::
        (encodeLength swap (xs.map tree).length ++ Value.encodeAll swap (xs.map tree)))
      ((xs.map merge).foldl add start) := by
  have hcount := Value.length_le_encodeAll swap (xs.map tree)
  rw [List.length_map] at hcount
  rw [List.foldl_map]
  refine readContainer_reads (by omega) (fun x hx b => ?_) value start
  have hmem : ((tree x).encode swap).length ≤ (Value.encodeAll swap (xs.map tree)).length :=
    Value.encode_length_le_of_mem swap (List.mem_map_of_mem hx)
  exact readElement_steps (ih x (by omega)) add b

/-- A `vector` or a `list`, which are cleared first. -/
theorem readContainer_appends
    {α : Type}
    {type : DataType}
    {read : DataStream → α → Except Fault (Read α)}
    {init : α}
    {tree : α → Value}
    {merge : α → α}
    (ih : ∀ x, ((tree x).encode swap).length < 2 ^ 31 →
      ReadsAs host swap (fun s => read s init) ((tree x).encode swap) (merge x))
    {xs : List α}
    (hlen : (Value.encodeAll swap (xs.map tree)).length < 2 ^ 31)
    (value : List α) :
    ReadsAs host swap
      (fun s => readContainer host type
        (readElement read init fun ys x => ys ++ [x]) s value [])
      (type.code ::
        (encodeLength swap (xs.map tree).length ++ Value.encodeAll swap (xs.map tree)))
      (xs.map merge) := by
  have hall : (xs.map merge).foldl (fun ys x => ys ++ [x]) [] = xs.map merge := by
    rw [List.foldl_append_eq_append, ← List.flatMap_def, List.flatMap_singleton',
      List.nil_append]
  rw [← hall]
  exact readContainer_elements ih (fun ys x => ys ++ [x]) hlen value []

/-- A container of entries that are read one by one. -/
theorem readContainer_entries
    {κ ν β : Type}
    {type : DataType}
    {readKey : DataStream → κ → Except Fault (Read κ)}
    {readVal : DataStream → ν → Except Fault (Read ν)}
    {initKey : κ}
    {initVal : ν}
    {keyTree : κ → Value}
    {valTree : ν → Value}
    {mergeKey : κ → κ}
    {mergeVal : ν → ν}
    (ihK : ∀ k, ((keyTree k).encode swap).length < 2 ^ 31 →
      ReadsAs host swap (fun s => readKey s initKey) ((keyTree k).encode swap) (mergeKey k))
    (ihV : ∀ v, ((valTree v).encode swap).length < 2 ^ 31 →
      ReadsAs host swap (fun s => readVal s initVal) ((valTree v).encode swap) (mergeVal v))
    (add : β → κ × ν → β)
    {es : List (κ × ν)}
    (hlen : (Value.encodeAll swap
      (es.map fun e => .entry (keyTree e.1) (valTree e.2))).length < 2 ^ 31)
    (value start : β) :
    ReadsAs host swap
      (fun s => readContainer host type
        (readEntry readKey initKey readVal initVal add) s value start)
      (type.code ::
        (encodeLength swap (es.map fun e => Value.entry (keyTree e.1) (valTree e.2)).length ++
          Value.encodeAll swap (es.map fun e => .entry (keyTree e.1) (valTree e.2))))
      ((es.map fun e => (mergeKey e.1, mergeVal e.2)).foldl add start) := by
  have hcount := Value.length_le_encodeAll swap
    (es.map fun e => .entry (keyTree e.1) (valTree e.2))
  rw [List.length_map] at hcount
  rw [List.foldl_map]
  refine readContainer_reads (by omega) (fun e he b => ?_) value start
  have hmem := Value.encode_length_le_of_mem swap
    (List.mem_map_of_mem (f := fun e => Value.entry (keyTree e.1) (valTree e.2)) he)
  simp only [Value.encode, List.length_append] at hmem ⊢
  exact readEntry_steps (ihK e.1 (by omega)) (ihV e.2 (by omega)) add b

/-- What follows a tag and a length is shorter than the whole. -/
theorem payload_lt
    {tag : UInt8}
    {n : Nat}
    {bs : List UInt8}
    (h : (tag :: (encodeLength swap n ++ bs)).length < 2 ^ 31) :
    bs.length < 2 ^ 31 := by
  simp only [List.length_cons, List.length_append] at h
  omega

theorem Ty.readArgs_encoded
    {P : Program} :
    ∀ {Ts : List Ty},
      (∀ T ∈ Ts, ∀ t v : T.Val, ((T.tree v).encode swap).length < 2 ^ 31 →
        ReadsAs P.host swap (fun s => T.read P s t) ((T.tree v).encode swap) (T.merge P t v)) →
      ∀ ts vs : Ty.Tuple Ts, (Value.encodeAll swap (Ty.trees Ts vs)).length < 2 ^ 31 →
        ReadsAs P.host swap (fun s => Ty.readArgs P Ts s ts)
          (Value.encodeAll swap (Ty.trees Ts vs)) (Ty.mergeAll P Ts ts vs)
  | [], _, (), (), _ => fun s _ _ => by
      simp only [Ty.trees, Value.encodeAll, List.length_nil, skip_zero]
      rfl
  | T :: Ts, h, (t, ts), (v, vs), hlen => by
      intro s hflag hahead
      simp only [Ty.trees, Value.encodeAll, List.length_append] at hlen hahead ⊢
      have hfirst : T.read P s t = _ := h T (by simp) t v (by omega) s hflag hahead.left
      have hrest : Ty.readArgs P Ts (s.skip ((T.tree v).encode swap).length) ts = _ :=
        Ty.readArgs_encoded (fun U hU => h U (by simp [hU])) ts vs (by omega) _ hflag
          hahead.skip
      simp only [Ty.readArgs, hfirst, hrest, ok_bind, pure_eq_ok, if_true, skip_skip,
        Ty.mergeAll]

/-- **`read` at the encoding of a value returns true, moves to the end of the
encoding and leaves the target united with the value.** -/
theorem Ty.read_encoded (P : Program) (T : Ty) :
    ∀ t v : T.Val, ((T.tree v).encode swap).length < 2 ^ 31 →
      ReadsAs P.host swap (fun s => T.read P s t) ((T.tree v).encode swap) (T.merge P t v) := by
  induction T using Ty.induct with
  | bool => exact fun t v _ => readBool_reads v t
  | char => exact fun t v _ => readChar_reads v t
  | int32 => exact fun t v _ => readNumber_reads .int32 (by norm_num) v t
  | int64 => exact fun t v _ => readNumber_reads .int64 (by norm_num) v t
  | float => exact fun t v _ => readNumber_reads .float (by norm_num) v t
  | double => exact fun t v _ => readNumber_reads .double (by norm_num) v t
  | string => exact fun t data hlen => readString_reads (payload_lt hlen) t
  | vector T ih =>
      exact fun t xs hlen => readContainer_appends (ih (P.init T)) (payload_lt hlen) t
  | list T ih =>
      exact fun t xs hlen => readContainer_appends (ih (P.init T)) (payload_lt hlen) t
  | set T ih =>
      exact fun t xs hlen =>
        readContainer_elements (ih (P.init T)) (P.insert .ordered T) (payload_lt hlen) t t
  | map K V ihK ihV =>
      exact fun t es hlen =>
        readContainer_entries (ihK (P.init K)) (ihV (P.init V)) (P.assign .ordered K V)
          (payload_lt hlen) t t
  | unorderedSet T ih =>
      exact fun t xs hlen =>
        readContainer_elements (ih (P.init T)) (P.insert .unordered T) (payload_lt hlen) t t
  | unorderedMap K V ihK ihV =>
      exact fun t es hlen =>
        readContainer_entries (ihK (P.init K)) (ihV (P.init V)) (P.assign .unordered K V)
          (payload_lt hlen) t t
  | user cls Ts ih =>
      intro ts vs hlen s hflag hahead
      simp only [Ty.tree, Value.encode, List.length_cons] at hlen hahead ⊢
      have htag : s.cell = .ok DataType.custom.code := hahead.cell
      have hargs : Ty.readArgs P Ts (s.skip 1) ts = _ :=
        Ty.readArgs_encoded ih ts vs (by omega) _ hflag hahead.tail
      simp [Ty.read, htag, hargs, Ty.merge, Nat.add_comm]

end Readers

end Serial
end ZeroRPC
