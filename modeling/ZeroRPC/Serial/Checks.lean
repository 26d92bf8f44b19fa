import ZeroRPC.Serial.Scan
import ZeroRPC.Serial.Target

/-!
# What a read checks

The bytes at the position of a stream begin with a well-formed encoding of a type when
they have its tag, where the format has one a length that is tagged INT32 and is not
negative, and behind it every element and every member in the same way.  A `bool` may
have any byte behind its tag.

Main facts:
* `Ty.tree_wellFormed`: what is written is well formed;
* `Ty.read_wellFormed`: a read of well-formed bytes returns true;
* `Ty.read_other_tag`: a read that finds another tag returns false;
* `read_checked_iff`: when true is returned at well-formed bytes only.
-/

namespace ZeroRPC
namespace Serial

open Library

/-! ### Well-formed encodings -/

/-- A tag and `k` bytes. -/
def NumberBytes (type : DataType) (k : Nat) (bs : List UInt8) : Prop :=
  ∃ v : List UInt8, v.length = k ∧ bs = type.code :: v

/-- A tag, the number of the characters and the characters. -/
def TextBytes (swap : Bool) (bs : List UInt8) : Prop :=
  ∃ text : List UInt8, text.length < 2 ^ 31 ∧
    bs = DataType.string.code :: (encodeLength swap text.length ++ text)

/-- A tag, the number of the elements and the elements. -/
def ContainerBytes (swap : Bool) (type : DataType) (element : List UInt8 → Prop)
    (bs : List UInt8) : Prop :=
  ∃ es : List (List UInt8), es.length < 2 ^ 31 ∧ (∀ e ∈ es, element e) ∧
    bs = type.code :: (encodeLength swap es.length ++ es.flatten)

/-- One encoding behind another. -/
def PairBytes (first second : List UInt8 → Prop) (bs : List UInt8) : Prop :=
  ∃ as cs : List UInt8, first as ∧ second cs ∧ bs = as ++ cs

mutual
/-- The well-formed encodings of a type.  `swap` is set when the numbers have their bytes
reversed. -/
def Ty.WellFormed (swap : Bool) : Ty → List UInt8 → Prop
  | .bool => NumberBytes .bool 1
  | .char => NumberBytes .char 1
  | .int32 => NumberBytes .int32 4
  | .int64 => NumberBytes .int64 8
  | .float => NumberBytes .float 4
  | .double => NumberBytes .double 8
  | .string => TextBytes swap
  | .vector T => ContainerBytes swap .vector (T.WellFormed swap)
  | .list T => ContainerBytes swap .list (T.WellFormed swap)
  | .set T => ContainerBytes swap .set (T.WellFormed swap)
  | .map K V => ContainerBytes swap .map (PairBytes (K.WellFormed swap) (V.WellFormed swap))
  | .unorderedSet T => ContainerBytes swap .set (T.WellFormed swap)
  | .unorderedMap K V =>
      ContainerBytes swap .map (PairBytes (K.WellFormed swap) (V.WellFormed swap))
  | .user _ Ts => PairBytes (· = [DataType.custom.code]) (Ty.WellFormedAll swap Ts)

/-- The members of a class, one behind the other. -/
def Ty.WellFormedAll (swap : Bool) : List Ty → List UInt8 → Prop
  | [] => (· = [])
  | T :: Ts => PairBytes (T.WellFormed swap) (Ty.WellFormedAll swap Ts)
end

/-- At the position stands a well-formed encoding of the type. -/
def Ty.StandsAt (P : Program) (T : Ty) (s : DataStream) : Prop :=
  ∃ bs, T.WellFormed (s.isBigEndian != P.host.isBig) bs ∧ Ahead s bs

/-! ### What is written is well formed -/

section Written

variable {swap : Bool}

theorem containerBytes_encodeAll
    {type : DataType}
    {element : List UInt8 → Prop}
    {vs : List Value}
    (hvs : ∀ v ∈ vs, (v.encode swap).length < 2 ^ 31 → element (v.encode swap))
    (hlen : (Value.encodeAll swap vs).length < 2 ^ 31) :
    ContainerBytes swap type element
      (type.code :: (encodeLength swap vs.length ++ Value.encodeAll swap vs)) := by
  have hcount := Value.length_le_encodeAll swap vs
  refine ⟨vs.map (Value.encode swap), ?_, ?_, ?_⟩
  · rw [List.length_map]
    omega
  · intro e he
    obtain ⟨v, hv, rfl⟩ := List.mem_map.mp he
    exact hvs v hv ((Value.encode_length_le_of_mem swap hv).trans_lt hlen)
  · rw [List.length_map, Value.encodeAll_eq_flatMap, List.flatMap_def]

theorem Ty.trees_wellFormed :
    ∀ {Ts : List Ty},
      (∀ T ∈ Ts, ∀ v : T.Val, ((T.tree v).encode swap).length < 2 ^ 31 →
        T.WellFormed swap ((T.tree v).encode swap)) →
      ∀ vs : Ty.Tuple Ts, (Value.encodeAll swap (Ty.trees Ts vs)).length < 2 ^ 31 →
        Ty.WellFormedAll swap Ts (Value.encodeAll swap (Ty.trees Ts vs))
  | [], _, _, _ => by
      simp [Ty.WellFormedAll, Ty.trees, Value.encodeAll]
  | T :: Ts, h, (v, vs), hlen => by
      simp only [Ty.trees, Value.encodeAll, List.length_append] at hlen
      exact ⟨_, _, h T (by simp) v (by omega),
        Ty.trees_wellFormed (fun U hU => h U (by simp [hU])) vs (by omega), rfl⟩

/-- **The encoding of a value is well formed.** -/
theorem Ty.tree_wellFormed (T : Ty) :
    ∀ v : T.Val, ((T.tree v).encode swap).length < 2 ^ 31 →
      T.WellFormed swap ((T.tree v).encode swap) := by
  have hmap : ∀ {U : Ty} {xs : List U.Val},
      (∀ x : U.Val, ((U.tree x).encode swap).length < 2 ^ 31 →
        U.WellFormed swap ((U.tree x).encode swap)) →
      ∀ v ∈ xs.map U.tree, (v.encode swap).length < 2 ^ 31 →
        U.WellFormed swap (v.encode swap) := by
    intro U xs ih v hv hlen
    obtain ⟨x, -, rfl⟩ := List.mem_map.mp hv
    exact ih x hlen
  have hentry : ∀ {K V : Ty} {es : List (K.Val × V.Val)},
      (∀ k : K.Val, ((K.tree k).encode swap).length < 2 ^ 31 →
        K.WellFormed swap ((K.tree k).encode swap)) →
      (∀ v : V.Val, ((V.tree v).encode swap).length < 2 ^ 31 →
        V.WellFormed swap ((V.tree v).encode swap)) →
      ∀ v ∈ es.map (fun e => Value.entry (K.tree e.1) (V.tree e.2)),
        (v.encode swap).length < 2 ^ 31 →
          PairBytes (K.WellFormed swap) (V.WellFormed swap) (v.encode swap) := by
    intro K V es ihK ihV v hv hlen
    obtain ⟨e, -, rfl⟩ := List.mem_map.mp hv
    simp only [Value.encode, List.length_append] at hlen
    exact ⟨_, _, ihK e.1 (by omega), ihV e.2 (by omega), rfl⟩
  induction T using Ty.induct with
  | bool => exact fun b _ => ⟨[b.toUInt8], rfl, rfl⟩
  | char => exact fun c _ => ⟨[c], rfl, rfl⟩
  | int32 => exact fun n _ => ⟨_, by simp, rfl⟩
  | int64 => exact fun n _ => ⟨_, by simp, rfl⟩
  | float => exact fun n _ => ⟨_, by simp, rfl⟩
  | double => exact fun n _ => ⟨_, by simp, rfl⟩
  | string => exact fun text hlen => ⟨text, payload_lt hlen, rfl⟩
  | vector T ih => exact fun xs hlen => containerBytes_encodeAll (hmap ih) (payload_lt hlen)
  | list T ih => exact fun xs hlen => containerBytes_encodeAll (hmap ih) (payload_lt hlen)
  | set T ih => exact fun xs hlen => containerBytes_encodeAll (hmap ih) (payload_lt hlen)
  | map K V ihK ihV =>
      exact fun es hlen => containerBytes_encodeAll (hentry ihK ihV) (payload_lt hlen)
  | unorderedSet T ih =>
      exact fun xs hlen => containerBytes_encodeAll (hmap ih) (payload_lt hlen)
  | unorderedMap K V ihK ihV =>
      exact fun es hlen => containerBytes_encodeAll (hentry ihK ihV) (payload_lt hlen)
  | user cls Ts ih =>
      intro vs hlen
      simp only [Ty.tree, Value.encode, List.length_cons] at hlen
      exact ⟨_, _, rfl, Ty.trees_wellFormed ih vs (by omega), rfl⟩

end Written

/-! ### Well-formed bytes are read -/

section Accepted

variable {host : Endian} {swap : Bool}

/-- Any `k` bytes are those of some number. -/
theorem encodeNumber_leValue
    {type : DataType}
    {v : List UInt8} :
    encodeNumber swap type v.length (leValue (orderBytes swap v)) = type.code :: v := by
  have hback := leBytes_leValue (orderBytes swap v)
  rw [orderBytes_length] at hback
  rw [encodeNumber, hback, orderBytes_orderBytes]

theorem readNumber_accepts
    {w k : Nat}
    {type : DataType}
    {bs : List UInt8}
    (hk : 256 ^ k = 2 ^ w)
    (h : NumberBytes type k bs)
    (t : BitVec w) :
    ∃ n, ReadsAs host swap (fun s => readNumber host type k s t) bs n := by
  obtain ⟨v, rfl, rfl⟩ := h
  have hlt := leValue_lt (orderBytes swap v)
  rw [orderBytes_length, hk] at hlt
  refine ⟨BitVec.ofNat w (leValue (orderBytes swap v)), ?_⟩
  have hreads : ReadsAs host swap (fun s => readNumber host type v.length s t)
      (encodeNumber swap type v.length
        (BitVec.ofNat w (leValue (orderBytes swap v))).toNat)
      (BitVec.ofNat w (leValue (orderBytes swap v))) :=
    readNumber_reads type hk _ t
  rwa [BitVec.toNat_ofNat, Nat.mod_eq_of_lt hlt, encodeNumber_leValue] at hreads

/-- A `bool` is true unless its byte is zero. -/
theorem readBool_accepts
    {bs : List UInt8}
    (h : NumberBytes .bool 1 bs)
    (t : Bool) :
    ∃ b, ReadsAs host swap (fun s => readBool s t) bs b := by
  obtain ⟨v, hv, rfl⟩ := h
  obtain ⟨c, rfl⟩ := List.length_eq_one_iff.mp hv
  refine ⟨decide (c ≠ 0), fun s _ hahead => ?_⟩
  have htag : s.cell = .ok DataType.bool.code := hahead.cell
  have hbyte : (s.skip 1).cell = .ok c := hahead.tail.cell
  simp only [readBool, htag, ok_bind, hbyte, ne_eq, not_true_eq_false, if_false,
    pure_eq_ok, List.length_cons, List.length_nil]

theorem readChar_accepts
    {bs : List UInt8}
    (h : NumberBytes .char 1 bs)
    (t : UInt8) :
    ∃ c, ReadsAs host swap (fun s => readChar s t) bs c := by
  obtain ⟨v, hv, rfl⟩ := h
  obtain ⟨c, rfl⟩ := List.length_eq_one_iff.mp hv
  exact ⟨c, readChar_reads c t⟩

theorem repeatRead_accepts
    {β : Type}
    {body : DataStream → β → Except Fault (β × DataStream)} :
    ∀ {es : List (List UInt8)} (b : β),
      (∀ e ∈ es, ∀ b, ∃ b', StepsAs host swap (fun s => body s b) e b') →
      ∃ b', StepsAs host swap (fun s => repeatRead body es.length s b) es.flatten b'
  | [], b, _ => ⟨b, fun s _ _ => by simp [repeatRead]⟩
  | e :: es, b, h => by
      obtain ⟨b₁, hfirst⟩ := h e (by simp) b
      have htail : ∃ b', StepsAs host swap (fun s => repeatRead body es.length s b₁)
          es.flatten b' :=
        repeatRead_accepts b₁ fun d hd => h d (List.mem_cons_of_mem e hd)
      obtain ⟨b', hrest⟩ := htail
      refine ⟨b', fun s hflag hahead => ?_⟩
      rw [List.flatten_cons] at hahead ⊢
      have hone : body s b = _ := hfirst s hflag hahead.left
      have hothers : repeatRead body es.length (s.skip e.length) b₁ = _ :=
        hrest _ hflag hahead.skip
      simp only [List.length_cons, repeatRead, hone, ok_bind, hothers, skip_skip,
        List.length_append]

theorem readContainer_accepts
    {β : Type}
    {type : DataType}
    {element : List UInt8 → Prop}
    {body : DataStream → β → Except Fault (β × DataStream)}
    {bs : List UInt8}
    (h : ContainerBytes swap type element bs)
    (hbody : ∀ e, element e → ∀ b, ∃ b', StepsAs host swap (fun s => body s b) e b')
    (t start : β) :
    ∃ v, ReadsAs host swap (fun s => readContainer host type body s t start) bs v := by
  obtain ⟨es, hlen, hes, rfl⟩ := h
  obtain ⟨v, hloop⟩ := repeatRead_accepts start fun e he => hbody e (hes e he)
  refine ⟨v, fun s hflag hahead => ?_⟩
  have htag : s.cell = .ok type.code := hahead.cell
  have hlength := readLength_encoded (s := s.skip 1) hflag hahead.tail
  have hrest : Ahead (s.skip 6) es.flatten := by
    have h := hahead.tail.skip
    rwa [encodeLength_length, skip_skip] at h
  have hread : repeatRead body es.length (s.skip 6) start = _ := hloop (s.skip 6) hflag hrest
  have hcount : (BitVec.ofNat 32 es.length).toInt.toNat = es.length := by
    rw [toInt_ofNat_of_lt hlen]
    exact Int.toNat_natCast _
  simp only [readContainer, htag, ok_bind, hlength, skip_skip, hcount]
  simp only [hread, ne_eq, not_true_eq_false, if_false, ok_bind, pure_eq_ok, skip_skip,
    List.length_cons, List.length_append, encodeLength_length]
  congr 3
  omega

theorem readElement_accepts
    {α β : Type}
    {read : DataStream → α → Except Fault (Read α)}
    {init : α}
    {e : List UInt8}
    (h : ∃ v, ReadsAs host swap (fun s => read s init) e v)
    (add : β → α → β)
    (b : β) :
    ∃ b', StepsAs host swap (fun s => readElement read init add s b) e b' := by
  obtain ⟨v, hv⟩ := h
  exact ⟨_, readElement_steps hv add b⟩

theorem readEntry_accepts
    {κ ν β : Type}
    {readKey : DataStream → κ → Except Fault (Read κ)}
    {readVal : DataStream → ν → Except Fault (Read ν)}
    {initKey : κ}
    {initVal : ν}
    {key value : List UInt8 → Prop}
    {e : List UInt8}
    (h : PairBytes key value e)
    (hkey : ∀ bs, key bs → ∃ k, ReadsAs host swap (fun s => readKey s initKey) bs k)
    (hval : ∀ bs, value bs → ∃ v, ReadsAs host swap (fun s => readVal s initVal) bs v)
    (add : β → κ × ν → β)
    (b : β) :
    ∃ b', StepsAs host swap (fun s => readEntry readKey initKey readVal initVal add s b) e b' := by
  obtain ⟨as, cs, has, hcs, rfl⟩ := h
  obtain ⟨k, hk⟩ := hkey as has
  obtain ⟨v, hv⟩ := hval cs hcs
  exact ⟨_, readEntry_steps hk hv add b⟩

theorem Ty.readArgs_wellFormed
    {P : Program} :
    ∀ {Ts : List Ty},
      (∀ T ∈ Ts, ∀ bs, T.WellFormed swap bs → ∀ t : T.Val,
        ∃ v, ReadsAs P.host swap (fun s => T.read P s t) bs v) →
      ∀ {bs : List UInt8}, Ty.WellFormedAll swap Ts bs → ∀ ts : Ty.Tuple Ts,
        ∃ vs, ReadsAs P.host swap (fun s => Ty.readArgs P Ts s ts) bs vs
  | [], _, bs, hbs, () => by
      obtain rfl : bs = [] := hbs
      exact ⟨(), fun s _ _ => by simp [Ty.readArgs]⟩
  | T :: Ts, h, bs, hbs, (t, ts) => by
      obtain ⟨as, cs, has, hcs, rfl⟩ := hbs
      obtain ⟨v, hv⟩ := h T (by simp) as has t
      obtain ⟨vs, hvs⟩ := Ty.readArgs_wellFormed (fun U hU => h U (by simp [hU])) hcs ts
      refine ⟨(v, vs), fun s hflag hahead => ?_⟩
      have hfirst : T.read P s t = _ := hv s hflag hahead.left
      have hrest : Ty.readArgs P Ts (s.skip as.length) ts = _ := hvs _ hflag hahead.skip
      simp only [Ty.readArgs, hfirst, hrest, ok_bind, pure_eq_ok, if_true, skip_skip,
        List.length_append]

/-- **A read of well-formed bytes returns true and moves to their end.** -/
theorem Ty.read_wellFormed (P : Program) (T : Ty) :
    ∀ bs, T.WellFormed swap bs → ∀ t : T.Val,
      ∃ v, ReadsAs P.host swap (fun s => T.read P s t) bs v := by
  induction T using Ty.induct with
  | bool => exact fun bs h t => readBool_accepts h t
  | char => exact fun bs h t => readChar_accepts h t
  | int32 => exact fun bs h t => readNumber_accepts (by norm_num) h t
  | int64 => exact fun bs h t => readNumber_accepts (by norm_num) h t
  | float => exact fun bs h t => readNumber_accepts (by norm_num) h t
  | double => exact fun bs h t => readNumber_accepts (by norm_num) h t
  | string =>
      rintro bs ⟨text, hlen, rfl⟩ t
      exact ⟨text, readString_reads hlen t⟩
  | vector T ih =>
      exact fun bs h t => readContainer_accepts h
        (fun e he => readElement_accepts (ih e he (P.init T)) _) t []
  | list T ih =>
      exact fun bs h t => readContainer_accepts h
        (fun e he => readElement_accepts (ih e he (P.init T)) _) t []
  | set T ih =>
      exact fun bs h t => readContainer_accepts h
        (fun e he => readElement_accepts (ih e he (P.init T)) _) t t
  | map K V ihK ihV =>
      exact fun bs h t => readContainer_accepts h
        (fun e he => readEntry_accepts he (fun k hk => ihK k hk (P.init K))
          (fun v hv => ihV v hv (P.init V)) _) t t
  | unorderedSet T ih =>
      exact fun bs h t => readContainer_accepts h
        (fun e he => readElement_accepts (ih e he (P.init T)) _) t t
  | unorderedMap K V ihK ihV =>
      exact fun bs h t => readContainer_accepts h
        (fun e he => readEntry_accepts he (fun k hk => ihK k hk (P.init K))
          (fun v hv => ihV v hv (P.init V)) _) t t
  | user cls Ts ih =>
      rintro bs ⟨as, cs, rfl, hcs, rfl⟩ ts
      obtain ⟨vs, hvs⟩ := Ty.readArgs_wellFormed ih hcs ts
      refine ⟨vs, fun s hflag hahead => ?_⟩
      have htag : s.cell = .ok DataType.custom.code := hahead.cell
      have hargs : Ty.readArgs P Ts (s.skip 1) ts = _ := hvs _ hflag hahead.tail
      simp [Ty.read, htag, hargs, Nat.add_comm]

end Accepted

/-! ### Inside the buffer -/

/-- A byte was asked for that is not there, or was never written. -/
def Fault.OutOfBounds : Fault → Prop
  | .outOfRange _ => True
  | .indeterminate _ => True
  | _ => False

/-- The operation asks only for bytes that are there. -/
def InBounds {α : Type} (o : Except Fault α) : Prop :=
  ∀ e, o = .error e → ¬ e.OutOfBounds

theorem cell_error
    {b : CharVector}
    {i : Int}
    {e : Fault}
    (h : b.cell i = .error e) :
    e.OutOfBounds := by
  unfold CharVector.cell at h
  split at h
  · cases h
    trivial
  · split at h
    · cases h
      trivial
    · cases h
      trivial
    · cases h

theorem range_error
    {b : CharVector}
    {e : Fault} :
    ∀ {n : Nat} {i : Int}, b.range i n = .error e → e.OutOfBounds
  | 0, _, h => by cases h
  | n + 1, i, h => by
      rw [CharVector.range] at h
      cases hc : b.cell i with
      | error d =>
          rw [hc, error_bind] at h
          cases h
          exact cell_error hc
      | ok c =>
          cases hcs : b.range (i + 1) n with
          | error d =>
              simp only [hc, hcs, ok_bind, error_bind] at h
              cases h
              exact range_error hcs
          | ok cs =>
              simp only [hc, hcs, ok_bind, pure_eq_ok] at h
              cases h

theorem ahead_of_cell
    {s : DataStream}
    {c : UInt8}
    (h : s.cell = .ok c) :
    Ahead s [c] := by
  unfold DataStream.cell CharVector.cell at h
  split at h
  · cases h
  case isFalse hneg =>
    refine ⟨not_lt.mp hneg, s.buf.storage.drop (s.pos.toNat + 1), ?_⟩
    split at h
    · cases h
    · cases h
    case h_3 d hget =>
      cases h
      obtain ⟨hlt, hd⟩ := List.getElem?_eq_some_iff.mp hget
      rw [List.drop_eq_getElem_cons hlt, hd]
      rfl

theorem Ahead.append
    {s : DataStream}
    {as bs : List UInt8}
    (has : Ahead s as)
    (hbs : Ahead (s.skip as.length) bs) :
    Ahead s (as ++ bs) := by
  obtain ⟨hpos, rest, hrest⟩ := has
  obtain ⟨-, last, hlast⟩ := hbs
  have htoNat : (s.skip as.length).pos.toNat = s.pos.toNat + as.length := by
    simp only [DataStream.skip]
    omega
  rw [skip_buf, htoNat, ← List.drop_drop, hrest] at hlast
  refine ⟨hpos, last, ?_⟩
  rw [hrest, List.map_append, List.append_assoc, ← hlast]
  simp

theorem ahead_of_range :
    ∀ {n : Nat} {s : DataStream} {bs : List UInt8},
      0 ≤ s.pos → s.buf.range s.pos n = .ok bs → Ahead s bs
  | 0, s, bs, hpos, h => by
      cases h
      exact ⟨hpos, s.buf.storage.drop s.pos.toNat, rfl⟩
  | n + 1, s, bs, hpos, h => by
      rw [CharVector.range] at h
      cases hc : s.buf.cell s.pos with
      | error d =>
          rw [hc, error_bind] at h
          cases h
      | ok c =>
          cases hcs : s.buf.range (s.pos + 1) n with
          | error d =>
              simp only [hc, hcs, ok_bind, error_bind] at h
              cases h
          | ok cs =>
              simp only [hc, hcs, ok_bind, pure_eq_ok] at h
              cases h
              have hnext : 0 ≤ (s.skip 1).pos := by
                simp only [DataStream.skip]
                omega
              have hone : Ahead s [c] := ahead_of_cell hc
              exact hone.append (ahead_of_range (s := s.skip 1) hnext hcs)

/-- A tag and the bytes behind it. -/
theorem ahead_of_cell_range
    {s : DataStream}
    {type : DataType}
    {n : Nat}
    {v : List UInt8}
    (hc : s.cell = .ok type.code)
    (hv : s.buf.range (s.skip 1).pos n = .ok v) :
    Ahead s (type.code :: v) := by
  have hone : Ahead s [type.code] := ahead_of_cell hc
  have hnext : 0 ≤ (s.skip 1).pos := by
    have hpos := hone.1
    simp only [DataStream.skip]
    omega
  exact hone.append (ahead_of_range (s := s.skip 1) hnext hv)

/-! ### Numbers -/

section Numbers

variable {s : DataStream}

/-- What the read of a number can be. -/
inductive NumberOutcome {α : Type} (type : DataType) (k : Nat) (s : DataStream) (t : α) :
    Except Fault (Read α) → Prop
  | left {e : Fault} (h : e.OutOfBounds) : NumberOutcome type k s t (.error e)
  | otherTag {c : UInt8} (hc : s.cell = .ok c) (hne : c ≠ type.code) :
      NumberOutcome type k s t (.ok ⟨false, t, s⟩)
  | number {bs : List UInt8} {r : Read α} (hbs : NumberBytes type k bs) (h : Ahead s bs)
      (hr : r.ok = true) : NumberOutcome type k s t (.ok r)

theorem numberOutcome_of_range
    {α : Type}
    {type : DataType}
    {k : Nat}
    (t : α)
    {use : List UInt8 → Read α}
    (huse : ∀ bytes, (use bytes).ok = true) :
    NumberOutcome type k s t (do
      let tag ← s.cell
      if tag ≠ type.code then
        return ⟨false, t, s⟩
      else
        let bytes ← s.buf.range (s.skip 1).pos k
        return use bytes) := by
  cases hc : s.cell with
  | error e => exact .left (cell_error hc)
  | ok c =>
      rw [ok_bind]
      by_cases htag : c ≠ type.code
      · rw [if_pos htag]
        exact .otherTag hc htag
      · rw [if_neg htag]
        cases hv : s.buf.range (s.skip 1).pos k with
        | error e => exact .left (range_error hv)
        | ok v =>
            rw [not_not.mp htag] at hc
            exact .number ⟨v, CharVector.range_length hv, rfl⟩ (ahead_of_cell_range hc hv)
              (huse v)

theorem readBool_outcome (t : Bool) : NumberOutcome .bool 1 s t (readBool s t) := by
  simp only [readBool, cell_eq_range (s.skip 1), bind_assoc, pure_bind]
  exact numberOutcome_of_range t fun _ => rfl

theorem readChar_outcome (t : UInt8) : NumberOutcome .char 1 s t (readChar s t) := by
  simp only [readChar, cell_eq_range (s.skip 1), bind_assoc, pure_bind]
  exact numberOutcome_of_range t fun _ => rfl

theorem readNumber_outcome
    {host : Endian}
    {w : Nat}
    (type : DataType)
    (k : Nat)
    (t : BitVec w) :
    NumberOutcome type k s t (readNumber host type k s t) :=
  numberOutcome_of_range t fun _ => rfl

theorem NumberOutcome.true_of_tag
    {α : Type}
    {type : DataType}
    {k : Nat}
    {t : α}
    {r : Read α}
    {o : Except Fault (Read α)}
    (h : NumberOutcome type k s t o)
    (hc : s.cell = .ok type.code)
    (hread : o = .ok r) :
    r.ok = true := by
  cases h with
  | left => cases hread
  | otherTag hc' hne =>
      rw [hc] at hc'
      cases hc'
      exact absurd rfl hne
  | number _ _ hr =>
      cases hread
      exact hr

end Numbers

/-! ### Strings -/

section Strings

variable {host : Endian} {s : DataStream} {t : List UInt8}

/-- Any four bytes behind the tag INT32 are those of some length. -/
theorem encodeLength_leValue
    {swap : Bool}
    {v : List UInt8}
    (hv : v.length = 4) :
    encodeLength swap (leValue (orderBytes swap v)) = DataType.int32.code :: v := by
  have hlt := leValue_lt (orderBytes swap v)
  rw [orderBytes_length, hv] at hlt
  rw [encodeLength, BitVec.toNat_ofNat, Nat.mod_eq_of_lt (by omega)]
  exact hv ▸ encodeNumber_leValue

/-- A length is negative as an `int` from `2 ^ 31` on. -/
theorem toInt_ofNat_neg_iff {n : Nat} (h : n < 2 ^ 32) :
    (BitVec.ofNat 32 n).toInt < 0 ↔ 2 ^ 31 ≤ n := by
  rw [BitVec.toInt_eq_toNat_cond, BitVec.toNat_ofNat, Nat.mod_eq_of_lt h]
  split <;> omega

/-- What the read of a length can be. -/
inductive LengthOutcome (host : Endian) (s : DataStream) :
    Except Fault (BitVec 32 × DataStream) → Prop
  | left {e : Fault} (h : e.OutOfBounds) : LengthOutcome host s (.error e)
  | untagged {c : UInt8} (hc : s.cell = .ok c) (hne : c ≠ DataType.int32.code) :
      LengthOutcome host s (.error .uninitialisedLength)
  | length {n : Nat} (hn : n < 2 ^ 32)
      (h : Ahead s (encodeLength (s.isBigEndian != host.isBig) n)) :
      LengthOutcome host s (.ok (BitVec.ofNat 32 n, s.skip 5))

theorem readLength_outcome : LengthOutcome host s (readLength host s) := by
  cases hc : s.cell with
  | error e =>
      have hread : readLength host s = .error e := by
        simp only [readLength, readInt32, readNumber, hc, error_bind]
      rw [hread]
      exact .left (cell_error hc)
  | ok c =>
      by_cases htag : c ≠ DataType.int32.code
      · have hread : readLength host s = .error .uninitialisedLength := by
          simp only [readLength, readInt32, readNumber, hc, ok_bind, if_pos htag, pure_eq_ok,
            Bool.false_eq_true, if_false, throw_eq_error]
        rw [hread]
        exact .untagged hc htag
      · obtain rfl := not_not.mp htag
        cases hv : s.buf.range (s.skip 1).pos 4 with
        | error e =>
            have hread : readLength host s = .error e := by
              simp only [readLength, readInt32, readNumber, hc, ok_bind, if_neg htag, hv,
                error_bind]
            rw [hread]
            exact .left (range_error hv)
        | ok v =>
            have hlen := CharVector.range_length hv
            have hahead : Ahead s (DataType.int32.code :: v) := ahead_of_cell_range hc hv
            have hlt := leValue_lt (orderBytes (s.isBigEndian != host.isBig) v)
            rw [orderBytes_length, hlen] at hlt
            have hcode : encodeLength (s.isBigEndian != host.isBig)
                (leValue (orderBytes (s.isBigEndian != host.isBig) v)) =
                DataType.int32.code :: v :=
              encodeLength_leValue hlen
            rw [← hcode] at hahead
            have hbytes : Ahead s (encodeLength (s.isBigEndian != host.isBig)
                (leValue (orderBytes (s.isBigEndian != host.isBig) v)) ++ []) := by
              simpa using hahead
            rw [readLength_encoded rfl hbytes]
            exact .length (by omega) hahead

/-- What the read of a string can be. -/
inductive TextOutcome (host : Endian) (s : DataStream) (t : List UInt8) :
    Except Fault (Read (List UInt8)) → Prop
  | left {e : Fault} (h : e.OutOfBounds) : TextOutcome host s t (.error e)
  | otherTag {c : UInt8} (hc : s.cell = .ok c) (hne : c ≠ DataType.string.code) :
      TextOutcome host s t (.ok ⟨false, t, s⟩)
  | untagged {c : UInt8} (hc : s.cell = .ok DataType.string.code)
      (hnext : (s.skip 1).cell = .ok c) (hne : c ≠ DataType.int32.code) :
      TextOutcome host s t (.error .uninitialisedLength)
  | negative {n : Nat} (hn : n < 2 ^ 32) (hneg : 2 ^ 31 ≤ n)
      (h : Ahead s (DataType.string.code :: encodeLength (s.isBigEndian != host.isBig) n)) :
      TextOutcome host s t (.ok ⟨false, t, s.skip 6⟩)
  | text {bs : List UInt8} {r : Read (List UInt8)}
      (hbs : TextBytes (s.isBigEndian != host.isBig) bs) (h : Ahead s bs) (hr : r.ok = true) :
      TextOutcome host s t (.ok r)

theorem readString_outcome : TextOutcome host s t (readString host s t) := by
  cases hc : s.cell with
  | error e =>
      simp only [readString, hc, error_bind]
      exact .left (cell_error hc)
  | ok c =>
      simp only [readString, hc, ok_bind]
      by_cases htag : c ≠ DataType.string.code
      · rw [if_pos htag]
        exact .otherTag hc htag
      · rw [if_neg htag]
        obtain rfl := not_not.mp htag
        have hone : Ahead s [DataType.string.code] := ahead_of_cell hc
        have hlength : LengthOutcome host (s.skip 1) (readLength host (s.skip 1)) :=
          readLength_outcome
        generalize readLength host (s.skip 1) = o at hlength
        cases hlength with
        | left he => exact .left he
        | untagged hnext hne => exact .untagged hc hnext hne
        | @length n hn hnext =>
            have hahead : Ahead s (DataType.string.code ::
                encodeLength (s.isBigEndian != host.isBig) n) :=
              hone.append hnext
            simp only [ok_bind, skip_skip]
            by_cases hneg : (BitVec.ofNat 32 n).toInt < 0
            · rw [if_pos hneg]
              exact .negative hn ((toInt_ofNat_neg_iff hn).mp hneg) hahead
            · rw [if_neg hneg]
              have hsmall : n < 2 ^ 31 := not_le.mp fun hle =>
                hneg ((toInt_ofNat_neg_iff hn).mpr hle)
              have hcount : (BitVec.ofNat 32 n).toNat = n := by
                rw [BitVec.toNat_ofNat, Nat.mod_eq_of_lt hn]
              rw [hcount]
              cases htext : (s.skip (1 + 5)).buf.range (s.skip (1 + 5)).pos n with
              | error e => exact .left (range_error htext)
              | ok text =>
                  obtain rfl := CharVector.range_length htext
                  have hsix : 0 ≤ (s.skip 6).pos := by
                    have hpos := hone.1
                    simp only [DataStream.skip]
                    omega
                  have hlast : Ahead (s.skip 6) text := ahead_of_range hsix htext
                  refine .text ⟨text, hsmall, rfl⟩ ?_ rfl
                  have hall : Ahead s (DataType.string.code ::
                      encodeLength (s.isBigEndian != host.isBig) text.length ++ text) :=
                    hahead.append (by simpa using hlast)
                  exact hall

end Strings

/-! ### The tag and what is behind it -/

/-- The tag in front of the values of a type. -/
def Ty.tag : Ty → DataType
  | .bool => .bool
  | .char => .char
  | .int32 => .int32
  | .int64 => .int64
  | .float => .float
  | .double => .double
  | .string => .string
  | .vector _ => .vector
  | .list _ => .list
  | .set _ => .set
  | .map _ _ => .map
  | .unorderedSet _ => .set
  | .unorderedMap _ _ => .map
  | .user _ _ => .custom

/-- Where a read that finds another tag leaves the stream: the tag of a class is consumed
before it is tested. -/
def Ty.afterOtherTag : Ty → DataStream → DataStream
  | .user _ _, s => s.skip 1
  | _, s => s

/-- The kinds whose readers return true once they have found their tag. -/
def Ty.TagOnly : Ty → Prop
  | .vector _ => True
  | .list _ => True
  | .set _ => True
  | .map _ _ => True
  | .unorderedSet _ => True
  | .unorderedMap _ _ => True
  | .user _ _ => True
  | _ => False

section Tag

variable {P : Program} {s : DataStream}

/-- **Another tag is refused**, and the target is left alone. -/
theorem Ty.read_other_tag
    {T : Ty}
    {c : UInt8}
    (hc : s.cell = .ok c)
    (hne : c ≠ T.tag.code)
    (t : T.Val) :
    T.read P s t = .ok ⟨false, t, T.afterOtherTag s⟩ := by
  cases T with
  | bool =>
      simp only [Ty.read, readBool, hc, ok_bind]
      exact if_pos hne
  | char =>
      simp only [Ty.read, readChar, hc, ok_bind]
      exact if_pos hne
  | string =>
      simp only [Ty.read, readString, hc, ok_bind]
      exact if_pos hne
  | user cls Ts =>
      simp only [Ty.read, hc, ok_bind]
      exact if_pos hne
  | _ =>
      simp only [Ty.read, readInt32, readInt64, readFloat, readDouble, readNumber,
        readContainer, hc, ok_bind]
      exact if_pos hne

/-- Without a byte at the position there is no result. -/
theorem Ty.read_no_tag
    {T : Ty}
    {e : Fault}
    (hc : s.cell = .error e)
    (t : T.Val) :
    T.read P s t = .error e := by
  cases T with
  | user cls Ts => simp only [Ty.read, hc, error_bind]
  | _ =>
      simp only [Ty.read, readBool, readChar, readString, readInt32, readInt64, readFloat,
        readDouble, readNumber, readContainer, hc, error_bind] <;> rfl

theorem readContainer_true_of_tag
    {β : Type}
    {type : DataType}
    {body : DataStream → β → Except Fault (β × DataStream)}
    {t start : β}
    {r : Read β}
    (hc : s.cell = .ok type.code)
    (hread : readContainer P.host type body s t start = .ok r) :
    r.ok = true := by
  simp only [readContainer, hc, ok_bind, ne_eq, not_true_eq_false, if_false] at hread
  cases hl : readLength P.host (s.skip 1) with
  | error e =>
      rw [hl, error_bind] at hread
      cases hread
  | ok out =>
      rw [hl, ok_bind] at hread
      cases hloop : repeatRead body out.1.toInt.toNat out.2 start with
      | error e =>
          rw [hloop, error_bind] at hread
          cases hread
      | ok last =>
          rw [hloop, ok_bind] at hread
          cases hread
          rfl

/-- But for a negative length of a string, nothing behind the tag makes the result false. -/
theorem Ty.read_true_of_tag
    {T : Ty}
    {t : T.Val}
    {r : Read T.Val}
    (hkind : T ≠ .string)
    (hc : s.cell = .ok T.tag.code)
    (hread : T.read P s t = .ok r) :
    r.ok = true := by
  cases T with
  | bool => exact (readBool_outcome t).true_of_tag hc hread
  | char => exact (readChar_outcome t).true_of_tag hc hread
  | int32 => exact (readNumber_outcome .int32 4 t).true_of_tag hc hread
  | int64 => exact (readNumber_outcome .int64 8 t).true_of_tag hc hread
  | float => exact (readNumber_outcome .float 4 t).true_of_tag hc hread
  | double => exact (readNumber_outcome .double 8 t).true_of_tag hc hread
  | string => exact absurd rfl hkind
  | vector T => exact readContainer_true_of_tag hc hread
  | list T => exact readContainer_true_of_tag hc hread
  | set T => exact readContainer_true_of_tag hc hread
  | map K V => exact readContainer_true_of_tag hc hread
  | unorderedSet T => exact readContainer_true_of_tag hc hread
  | unorderedMap K V => exact readContainer_true_of_tag hc hread
  | user cls Ts =>
      have htag : s.cell = .ok DataType.custom.code := hc
      simp only [Ty.read, htag, ok_bind, ne_eq, not_true_eq_false, if_false] at hread
      cases hargs : Ty.readArgs P Ts (s.skip 1) t with
      | error e =>
          rw [hargs, error_bind] at hread
          cases hread
      | ok last =>
          rw [hargs, ok_bind] at hread
          cases hread
          rfl

end Tag

/-! ### True at well-formed bytes only -/

/-- The read returns, and true only where a well-formed encoding stands. -/
def Ty.Checked (P : Program) (T : Ty) (s : DataStream) (t : T.Val) : Prop :=
  ∃ r, T.read P s t = .ok r ∧ (r.ok = true → T.StandsAt P s)

/-- If the tag of a container or a class stands at the position, then so does a
well-formed encoding; if that of a string does, then its length is tagged INT32. -/
def Ty.Intact (P : Program) (T : Ty) (s : DataStream) : Prop :=
  (T.TagOnly → s.cell = .ok T.tag.code → T.StandsAt P s) ∧
    (T = .string → s.cell = .ok DataType.string.code →
      (s.skip 1).cell = .ok DataType.int32.code)

section Checked

variable {P : Program} {T : Ty} {s : DataStream} {t : T.Val}

theorem Ty.checked_of_number
    {type : DataType}
    {k : Nat}
    (houtcome : NumberOutcome type k s t (T.read P s t))
    (hwell : T.WellFormed (s.isBigEndian != P.host.isBig) = NumberBytes type k)
    (hin : InBounds (T.read P s t)) :
    T.Checked P s t := by
  unfold Ty.Checked
  generalize T.read P s t = o at houtcome hin
  cases houtcome with
  | left he => exact absurd he (hin _ rfl)
  | otherTag => exact ⟨_, rfl, fun hfalse => by cases hfalse⟩
  | number hbs hahead => exact ⟨_, rfl, fun _ => ⟨_, hwell ▸ hbs, hahead⟩⟩

/-- Whatever is not a string: behind the tag nothing more is checked. -/
theorem Ty.checked_iff_of_ne_string
    (hkind : T ≠ .string)
    (hin : InBounds (T.read P s t)) :
    T.Checked P s t ↔ (s.cell = .ok T.tag.code → T.StandsAt P s) := by
  constructor
  · rintro ⟨r, hread, htrue⟩ hc
    exact htrue (T.read_true_of_tag hkind hc hread)
  · intro h
    cases hc : s.cell with
    | error e => exact absurd (cell_error hc) (hin e (T.read_no_tag hc t))
    | ok c =>
        by_cases htag : c = T.tag.code
        · obtain ⟨bs, hbs, hahead⟩ := h (htag ▸ hc)
          obtain ⟨v, hv⟩ := T.read_wellFormed P bs hbs t
          exact ⟨_, hv s rfl hahead, fun _ => ⟨bs, hbs, hahead⟩⟩
        · exact ⟨_, T.read_other_tag hc htag t, fun hfalse => by cases hfalse⟩

theorem Ty.checked_iff_string
    {t : List UInt8}
    (hin : InBounds (readString P.host s t)) :
    Ty.string.Checked P s t ↔
      (s.cell = .ok DataType.string.code → (s.skip 1).cell = .ok DataType.int32.code) := by
  have houtcome : TextOutcome P.host s t (Ty.string.read P s t) := readString_outcome
  have hin : InBounds (Ty.string.read P s t) := hin
  unfold Ty.Checked
  generalize Ty.string.read P s t = o at houtcome hin
  cases houtcome with
  | left he => exact absurd he (hin _ rfl)
  | otherTag hc hne =>
      refine iff_of_true ⟨_, rfl, fun hfalse => by cases hfalse⟩ fun htag => ?_
      rw [hc] at htag
      cases htag
      exact absurd rfl hne
  | untagged hc hnext hne =>
      refine iff_of_false (fun ⟨r, hr, _⟩ => by cases hr) fun h => ?_
      have hsame := (hnext.symm.trans (h hc))
      cases hsame
      exact hne rfl
  | negative hn hneg hahead =>
      exact iff_of_true ⟨_, rfl, fun hfalse => by cases hfalse⟩ fun _ => hahead.tail.cell
  | text hbs hahead hr =>
      refine iff_of_true ⟨_, rfl, fun _ => ⟨_, hbs, hahead⟩⟩ fun _ => ?_
      obtain ⟨text, -, rfl⟩ := hbs
      exact hahead.tail.cell

end Checked

/-- **When true means well formed.**  A read that asks only for bytes that are there returns,
and true only at a well-formed encoding, exactly when the bytes are intact behind the tag. -/
theorem read_checked_iff
    (P : Program)
    (T : Ty)
    (s : DataStream)
    (t : T.Val)
    (hin : InBounds (T.read P s t)) :
    T.Checked P s t ↔ T.Intact P s := by
  have hnumber : T.Checked P s t → ¬ T.TagOnly → T ≠ .string →
      (T.Checked P s t ↔ T.Intact P s) := by
    intro hchecked hkind hstring
    exact iff_of_true hchecked
      ⟨fun htag => absurd htag hkind, fun heq => absurd heq hstring⟩
  have htagOnly : T.TagOnly → T ≠ .string → (T.Checked P s t ↔ T.Intact P s) := by
    intro hkind hstring
    rw [Ty.checked_iff_of_ne_string hstring hin]
    exact ⟨fun h => ⟨fun _ => h, fun heq => absurd heq hstring⟩, fun h => h.1 hkind⟩
  cases T with
  | bool => exact hnumber (Ty.checked_of_number (readBool_outcome t) rfl hin) id (by simp)
  | char => exact hnumber (Ty.checked_of_number (readChar_outcome t) rfl hin) id (by simp)
  | int32 =>
      exact hnumber (Ty.checked_of_number (readNumber_outcome .int32 4 t) rfl hin) id (by simp)
  | int64 =>
      exact hnumber (Ty.checked_of_number (readNumber_outcome .int64 8 t) rfl hin) id (by simp)
  | float =>
      exact hnumber (Ty.checked_of_number (readNumber_outcome .float 4 t) rfl hin) id (by simp)
  | double =>
      exact hnumber (Ty.checked_of_number (readNumber_outcome .double 8 t) rfl hin) id (by simp)
  | string =>
      rw [Ty.checked_iff_string hin]
      exact ⟨fun h => ⟨False.elim, fun _ => h⟩, fun h => h.2 rfl⟩
  | _ => exact htagOnly trivial (by simp)

/-! ### A class with one number -/

/-- `struct Point` with the member `int32_t x`. -/
def Ty.point : Ty := .user "Point" [.int32]

/-- The object with a given `x`. -/
def pointOf (x : BitVec 32) : Ty.point.Val := (x, ())

/-- A stream that holds the given bytes. -/
def streamHolding (bytes : List UInt8) : DataStream := ⟨false, ⟨bytes, []⟩, 0⟩

/-- The object with `x` = 5. -/
theorem point_checked :
    Ty.point.Checked (Program.plain .little) (streamHolding [11, 2, 5, 0, 0, 0]) (pointOf 0) := by
  let s := streamHolding [11, 2, 5, 0, 0, 0]
  have hread : Ty.point.read (Program.plain .little) s (pointOf 0) =
      .ok ⟨true, pointOf 5, s.skip 6⟩ :=
    rfl
  have hin : InBounds (Ty.point.read (Program.plain .little) s (pointOf 0)) := by
    rw [hread]
    exact fun e he => by cases he
  refine (read_checked_iff _ _ _ _ hin).mpr ⟨fun _ _ => ?_, fun heq => by cases heq⟩
  have hnumber : Ty.int32.WellFormed false [2, 5, 0, 0, 0] := ⟨[5, 0, 0, 0], rfl, rfl⟩
  exact ⟨_, ⟨[11], [2, 5, 0, 0, 0], rfl, ⟨_, [], hnumber, rfl, rfl⟩, rfl⟩, le_rfl, [], rfl⟩

/-- The tag of an object, and behind it a `bool` where `x` should be: the read returns true. -/
theorem point_of_bool_not_checked :
    ¬ ∀ (P : Program) (T : Ty) (s : DataStream) (t : T.Val),
      InBounds (T.read P s t) → T.Checked P s t := by
  intro h
  let s := streamHolding [11, 0, 1]
  have hread : Ty.point.read (Program.plain .little) s (pointOf 0) =
      .ok ⟨true, pointOf 0, s.skip 1⟩ :=
    rfl
  have hin : InBounds (Ty.point.read (Program.plain .little) s (pointOf 0)) := by
    rw [hread]
    exact fun e he => by cases he
  obtain ⟨r, hr, htrue⟩ := h _ _ _ _ hin
  rw [hread] at hr
  cases hr
  obtain ⟨bs, ⟨as, cs, rfl, ⟨first, rest, ⟨v, hv, rfl⟩, -, rfl⟩, rfl⟩, hahead⟩ := htrue rfl
  have hcell : s.buf.cell 1 = .ok DataType.int32.code := hahead.tail.cell
  exact absurd hcell (by decide)

end Serial
end ZeroRPC
