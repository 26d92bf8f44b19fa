import ZeroRPC.Serial.Codec

/-!
# What a read inspects

On arbitrary bytes a read either ends, or inspects a byte that is not there or a
length that was not read.  `Ty.Scans` is the layout of the bytes on which it ends:
which tags and numbers stand where, how many elements are looked at, and which
bytes are left, in terms of the bytes alone.

Main facts:
* `Rest`: the bytes that are left, and that none behind them was ever written;
* `Ty.read_scans`: a read of any type ends exactly on the bytes of its layout, with
  the result and the remaining bytes the layout says.
-/

namespace ZeroRPC
namespace Serial

open Library

/-! ### Layouts -/

/-- A tag and what stands behind it; a read that finds another tag consumes nothing. -/
inductive TaggedAt (type : DataType) (body : List UInt8 → Bool → List UInt8 → Prop) :
    List UInt8 → Bool → List UInt8 → Prop
  | other {c : UInt8} {bs : List UInt8} (h : c ≠ type.code) :
      TaggedAt type body (c :: bs) false (c :: bs)
  | tagged {ok : Bool} {bs bs' : List UInt8} (h : body bs ok bs') :
      TaggedAt type body (type.code :: bs) ok bs'

/-- `k` bytes. -/
inductive BytesAt (k : Nat) : List UInt8 → Bool → List UInt8 → Prop
  | mk {v bs : List UInt8} (h : v.length = k) : BytesAt k (v ++ bs) true bs

/-- A tagged length. -/
inductive LengthAt : List UInt8 → BitVec 32 → List UInt8 → Prop
  | mk {v bs : List UInt8} (h : v.length = 4) :
      LengthAt (DataType.int32.code :: (v ++ bs)) (BitVec.ofNat 32 (leValue v)) bs

/-- A length and, unless it is negative, that many bytes. -/
inductive TextAt : List UInt8 → Bool → List UInt8 → Prop
  | negative {len : BitVec 32} {bs bs' : List UInt8} (hlen : LengthAt bs len bs')
      (h : len.toInt < 0) :
      TextAt bs false bs'
  | text {len : BitVec 32} {bs v bs' : List UInt8} (hlen : LengthAt bs len (v ++ bs'))
      (h : ¬ len.toInt < 0) (hv : v.length = len.toNat) :
      TextAt bs true bs'

/-- `n` steps, one behind the other. -/
inductive Times (step : List UInt8 → List UInt8 → Prop) : Nat → List UInt8 → List UInt8 → Prop
  | zero {bs : List UInt8} : Times step 0 bs bs
  | succ {n : Nat} {bs bs' bs'' : List UInt8} (h : step bs bs') (t : Times step n bs' bs'') :
      Times step (n + 1) bs bs''

/-- A length and that many steps, none when it is negative. -/
inductive ElementsAt (step : List UInt8 → List UInt8 → Prop) :
    List UInt8 → Bool → List UInt8 → Prop
  | mk {len : BitVec 32} {bs bs' bs'' : List UInt8} (hlen : LengthAt bs len bs')
      (h : Times step len.toInt.toNat bs' bs'') :
      ElementsAt step bs true bs''

/-- The result of an element's read is not looked at. -/
def Step (scans : List UInt8 → Bool → List UInt8 → Prop) (bs bs' : List UInt8) : Prop :=
  ∃ ok, scans bs ok bs'

/-- An entry is a key and a value. -/
def EntryStep (key value : List UInt8 → Bool → List UInt8 → Prop) (bs bs' : List UInt8) : Prop :=
  ∃ mid, Step key bs mid ∧ Step value mid bs'

/-- An object of a class: the tag is consumed whatever it is, and the result of the
members is not looked at. -/
inductive ObjectAt (members : List UInt8 → Bool → List UInt8 → Prop) :
    List UInt8 → Bool → List UInt8 → Prop
  | other {c : UInt8} {bs : List UInt8} (h : c ≠ DataType.custom.code) :
      ObjectAt members (c :: bs) false bs
  | members {ok : Bool} {bs bs' : List UInt8} (h : members bs ok bs') :
      ObjectAt members (DataType.custom.code :: bs) true bs'

/-- Members are read up to the first that fails. -/
inductive MembersAt (first rest : List UInt8 → Bool → List UInt8 → Prop) :
    List UInt8 → Bool → List UInt8 → Prop
  | fails {bs bs' : List UInt8} (h : first bs false bs') :
      MembersAt first rest bs false bs'
  | next {ok : Bool} {bs bs' bs'' : List UInt8} (h : first bs true bs') (t : rest bs' ok bs'') :
      MembersAt first rest bs ok bs''

/-- No member is left. -/
inductive NoMembersAt : List UInt8 → Bool → List UInt8 → Prop
  | mk {bs : List UInt8} : NoMembersAt bs true bs

mutual
/-- The layout of the bytes on which a read of the type ends, with its result and
the bytes it leaves. -/
def Ty.Scans : Ty → List UInt8 → Bool → List UInt8 → Prop
  | .bool => TaggedAt .bool (BytesAt 1)
  | .char => TaggedAt .char (BytesAt 1)
  | .int32 => TaggedAt .int32 (BytesAt 4)
  | .int64 => TaggedAt .int64 (BytesAt 8)
  | .float => TaggedAt .float (BytesAt 4)
  | .double => TaggedAt .double (BytesAt 8)
  | .string => TaggedAt .string TextAt
  | .vector T => TaggedAt .vector (ElementsAt (Step T.Scans))
  | .list T => TaggedAt .list (ElementsAt (Step T.Scans))
  | .set T => TaggedAt .set (ElementsAt (Step T.Scans))
  | .map K V => TaggedAt .map (ElementsAt (EntryStep K.Scans V.Scans))
  | .unorderedSet T => TaggedAt .set (ElementsAt (Step T.Scans))
  | .unorderedMap K V => TaggedAt .map (ElementsAt (EntryStep K.Scans V.Scans))
  | .user _ Ts => ObjectAt (Ty.ScansAll Ts)

/-- The same for the members of a class. -/
def Ty.ScansAll : List Ty → List UInt8 → Bool → List UInt8 → Prop
  | [] => NoMembersAt
  | T :: Ts => MembersAt T.Scans (Ty.ScansAll Ts)
end

/-! ### The bytes that are left -/

/-- From `_pos` on the stream has the bytes `bs` and nothing else that was written. -/
structure Rest (host : Endian) (s : DataStream) (bs : List UInt8) : Prop where
  flag : s.isBigEndian = host.isBig
  nonneg : 0 ≤ s.pos
  storage : ∃ k, s.buf.storage.drop s.pos.toNat = bs.map some ++ List.replicate k none

section Rest

variable {host : Endian}

theorem Rest.ahead
    {s : DataStream}
    {bs : List UInt8}
    (h : Rest host s bs) :
    Ahead s bs := by
  obtain ⟨k, hk⟩ := h.storage
  exact ⟨h.nonneg, List.replicate k none, hk⟩

theorem Rest.skip
    {s : DataStream}
    {as bs : List UInt8}
    (h : Rest host s (as ++ bs)) :
    Rest host (s.skip as.length) bs := by
  obtain ⟨k, hk⟩ := h.storage
  have hnonneg := h.nonneg
  have htoNat : (s.skip as.length).pos.toNat = s.pos.toNat + as.length := by
    simp only [DataStream.skip]
    omega
  refine ⟨h.flag, by simp only [DataStream.skip]; omega, k, ?_⟩
  rw [skip_buf, htoNat, ← List.drop_drop, hk]
  simp

theorem Rest.tail
    {s : DataStream}
    {c : UInt8}
    {bs : List UInt8}
    (h : Rest host s (c :: bs)) :
    Rest host (s.skip 1) bs := by
  have h' : Rest host s ([c] ++ bs) := h
  exact h'.skip

/-- Past the end there is no byte to inspect. -/
theorem Rest.cell_nil
    {s : DataStream}
    (h : Rest host s []) :
    ∃ e, s.buf.cell s.pos = .error e := by
  obtain ⟨k, hk⟩ := h.storage
  have hget : s.buf.storage[s.pos.toNat]? = (List.replicate k (none : Option UInt8))[0]? := by
    have := congrArg (·[0]?) hk
    simpa using this
  rw [CharVector.cell, if_neg (Int.not_lt.mpr h.nonneg), hget]
  cases k with
  | zero => exact ⟨_, rfl⟩
  | succ k => exact ⟨_, rfl⟩

/-- A byte that was inspected is the first of those left. -/
theorem Rest.cell_inv
    {s : DataStream}
    {bs : List UInt8}
    {c : UInt8}
    (h : Rest host s bs)
    (hc : s.buf.cell s.pos = .ok c) :
    ∃ bs', bs = c :: bs' := by
  cases bs with
  | nil =>
      obtain ⟨e, he⟩ := h.cell_nil
      rw [he] at hc
      cases hc
  | cons d bs' =>
      rw [h.ahead.cell] at hc
      cases hc
      exact ⟨bs', rfl⟩

/-- So are bytes that were copied. -/
theorem Rest.range_inv :
    ∀ {n : Nat} {s : DataStream} {bs cs : List UInt8},
      Rest host s bs → s.buf.range s.pos n = .ok cs →
        cs.length = n ∧ ∃ bs', bs = cs ++ bs'
  | 0, s, bs, cs, _, h => by
      cases h
      exact ⟨rfl, bs, rfl⟩
  | n + 1, s, bs, cs, hrest, h => by
      rw [CharVector.range] at h
      cases hc : s.buf.cell s.pos with
      | error e =>
          rw [hc, error_bind] at h
          cases h
      | ok c =>
          obtain ⟨bs', rfl⟩ := hrest.cell_inv hc
          cases hcs : s.buf.range (s.pos + 1) n with
          | error e =>
              simp only [hc, hcs, ok_bind, error_bind] at h
              cases h
          | ok ds =>
              simp only [hc, hcs, ok_bind, pure_eq_ok] at h
              cases h
              obtain ⟨hlen, bs'', hbs⟩ := Rest.range_inv (s := s.skip 1) hrest.tail hcs
              exact ⟨by rw [List.length_cons, hlen], bs'', by rw [hbs, List.cons_append]⟩

theorem Rest.range
    {s : DataStream}
    {as bs : List UInt8}
    (h : Rest host s (as ++ bs)) :
    s.buf.range s.pos as.length = .ok as :=
  h.ahead.range

end Rest

/-! ### Readers -/

/-- `f` ends exactly on the bytes of the layout, with its result and remaining bytes. -/
structure ReaderScans {α : Type} (host : Endian) (f : DataStream → Except Fault (Read α))
    (scans : List UInt8 → Bool → List UInt8 → Prop) : Prop where
  sound : ∀ {s : DataStream} {bs : List UInt8} {r : Read α},
    Rest host s bs → f s = .ok r → ∃ bs', scans bs r.ok bs' ∧ Rest host r.stream bs'
  complete : ∀ {s : DataStream} {bs bs' : List UInt8} {ok : Bool},
    Rest host s bs → scans bs ok bs' →
      ∃ r, f s = .ok r ∧ r.ok = ok ∧ Rest host r.stream bs'

/-- The same for a step of a loop. -/
structure StepScans {β : Type} (host : Endian) (f : DataStream → β → Except Fault (β × DataStream))
    (step : List UInt8 → List UInt8 → Prop) : Prop where
  sound : ∀ {s s' : DataStream} {b b' : β} {bs : List UInt8},
    Rest host s bs → f s b = .ok (b', s') → ∃ bs', step bs bs' ∧ Rest host s' bs'
  complete : ∀ {s : DataStream} {bs bs' : List UInt8} (b : β),
    Rest host s bs → step bs bs' → ∃ b' s', f s b = .ok (b', s') ∧ Rest host s' bs'

section Readers

variable {host : Endian}

/-- The test of the tag, in front of any reader. -/
theorem tagged_scans
    {α : Type}
    {type : DataType}
    {body : List UInt8 → Bool → List UInt8 → Prop}
    {f g : DataStream → Except Fault (Read α)}
    (value : α)
    (hf : ∀ s, f s = (do
      let tag ← s.cell
      if tag ≠ type.code then
        return ⟨false, value, s⟩
      else
        g (s.skip 1)))
    (hg : ReaderScans host g body) :
    ReaderScans host f (TaggedAt type body) where
  sound := by
    intro s bs r hrest hread
    rw [hf] at hread
    cases hc : s.cell with
    | error e =>
        rw [hc, error_bind] at hread
        cases hread
    | ok c =>
        obtain ⟨bs, rfl⟩ := hrest.cell_inv hc
        rw [hc, ok_bind] at hread
        by_cases htag : c ≠ type.code
        · rw [if_pos htag] at hread
          cases hread
          exact ⟨_, .other htag, hrest⟩
        · rw [if_neg htag] at hread
          obtain ⟨bs', hbody, hrest'⟩ := hg.sound hrest.tail hread
          rw [not_not.mp htag]
          exact ⟨bs', .tagged hbody, hrest'⟩
  complete := by
    intro s bs bs' ok hrest hscan
    rw [hf]
    cases hscan with
    | other h =>
        have hc : s.cell = .ok _ := hrest.ahead.cell
        rw [hc, ok_bind, if_pos h]
        exact ⟨_, rfl, rfl, hrest⟩
    | tagged h =>
        have hc : s.cell = .ok type.code := hrest.ahead.cell
        rw [hc, ok_bind, if_neg (not_not.mpr rfl)]
        exact hg.complete hrest.tail h

/-- A reader of `k` bytes that makes any use of them. -/
theorem bytes_scans
    {α : Type}
    {k : Nat}
    (use : DataStream → List UInt8 → α) :
    ReaderScans host
      (fun s => do
        let bytes ← s.buf.range s.pos k
        return ⟨true, use s bytes, s.skip k⟩)
      (BytesAt k) where
  sound := by
    intro s bs r hrest hread
    cases hbytes : s.buf.range s.pos k with
    | error e =>
        simp only [hbytes, error_bind] at hread
        cases hread
    | ok v =>
        simp only [hbytes, ok_bind, pure_eq_ok] at hread
        cases hread
        obtain ⟨hlen, bs', rfl⟩ := hrest.range_inv hbytes
        exact ⟨bs', .mk hlen, hlen ▸ hrest.skip⟩
  complete := by
    intro s bs bs' ok hrest hscan
    cases hscan with
    | mk h =>
        subst h
        simp only [hrest.range, ok_bind, pure_eq_ok]
        exact ⟨_, rfl, rfl, hrest.skip⟩

/-- A single byte, read as `k = 1` bytes. -/
theorem cell_eq_range (s : DataStream) :
    s.cell = (do
      let bytes ← s.buf.range s.pos 1
      return bytes.headD 0) := by
  simp only [CharVector.range, DataStream.cell]
  cases s.buf.cell s.pos <;> rfl

theorem readBool_scans (value : Bool) :
    ReaderScans host (fun s => readBool s value) (TaggedAt .bool (BytesAt 1)) := by
  refine tagged_scans value (fun s => ?_) (bytes_scans fun _ bytes => decide (bytes.headD 0 ≠ 0))
  simp only [readBool, cell_eq_range (s.skip 1), bind_assoc, pure_bind, skip_skip]

theorem readChar_scans (value : UInt8) :
    ReaderScans host (fun s => readChar s value) (TaggedAt .char (BytesAt 1)) := by
  refine tagged_scans value (fun s => ?_) (bytes_scans fun _ bytes => bytes.headD 0)
  simp only [readChar, cell_eq_range (s.skip 1), bind_assoc, pure_bind, skip_skip]

theorem readNumber_scans
    {w : Nat}
    (type : DataType)
    (k : Nat)
    (value : BitVec w) :
    ReaderScans host (fun s => readNumber host type k s value) (TaggedAt type (BytesAt k)) := by
  refine tagged_scans value (fun s => ?_) (bytes_scans fun s bytes =>
    BitVec.ofNat w (host.fetch (orderBytes s.isBigEndian bytes)))
  simp only [readNumber, skip_skip]
  rfl

/-- The bytes of a number, in the order of the host. -/
theorem readInt32_length
    {s : DataStream}
    {v bs : List UInt8}
    (hrest : Rest host s (DataType.int32.code :: (v ++ bs)))
    (hv : v.length = 4) :
    readLength host s = .ok (BitVec.ofNat 32 (leValue v), s.skip 5) := by
  have hc : s.cell = .ok DataType.int32.code := hrest.ahead.cell
  have hbytes : s.buf.range (s.skip 1).pos 4 = .ok v := hv ▸ hrest.tail.range
  have hvalue : host.fetch (orderBytes s.isBigEndian v) = leValue v := by
    rw [fetch_eq_orderBytes, hrest.flag, bne_self_eq_false, orderBytes_false]
  simp [readLength, readInt32, readNumber, hc, hbytes, hvalue]

theorem readLength_sound
    {s s' : DataStream}
    {len : BitVec 32}
    {bs : List UInt8}
    (hrest : Rest host s bs)
    (hread : readLength host s = .ok (len, s')) :
    ∃ bs', LengthAt bs len bs' ∧ Rest host s' bs' := by
  cases hr : readInt32 host s 0 with
  | error e =>
      rw [readLength, hr, error_bind] at hread
      cases hread
  | ok r =>
      obtain ⟨bs', hscan, _⟩ := (readNumber_scans .int32 4 0).sound hrest hr
      generalize r.ok = ok at hscan
      cases hscan with
      | other h =>
          -- another tag: the length stays unset
          have hc : s.cell = .ok _ := hrest.ahead.cell
          simp only [readLength, readInt32, readNumber, hc, ok_bind, if_pos h, pure_eq_ok,
            Bool.false_eq_true, if_false, throw_eq_error] at hread
          cases hread
      | tagged h =>
          obtain ⟨hv⟩ := h
          rw [readInt32_length hrest hv] at hread
          cases hread
          refine ⟨bs', .mk hv, ?_⟩
          have hskip := hrest.tail.skip
          rwa [hv, skip_skip] at hskip

theorem readLength_complete
    {s : DataStream}
    {len : BitVec 32}
    {bs bs' : List UInt8}
    (hrest : Rest host s bs)
    (hlen : LengthAt bs len bs') :
    readLength host s = .ok (len, s.skip 5) ∧ Rest host (s.skip 5) bs' := by
  obtain ⟨hv⟩ := hlen
  refine ⟨readInt32_length hrest hv, ?_⟩
  have hskip := hrest.tail.skip
  rwa [hv, skip_skip] at hskip

/-- `read(std::string&)` behind its tag. -/
def readText (host : Endian) (value : List UInt8) (s : DataStream) :
    Except Fault (Read (List UInt8)) := do
  let (len, s) ← readLength host s
  if len.toInt < 0 then
    return ⟨false, value, s⟩
  else
    let bytes ← s.buf.range s.pos len.toNat
    return ⟨true, bytes, s.skip len.toNat⟩

theorem readString_scans (value : List UInt8) :
    ReaderScans host (fun s => readString host s value) (TaggedAt .string TextAt) := by
  refine tagged_scans (g := readText host value) value (fun s => rfl) ⟨?_, ?_⟩
  · intro s bs r hrest hread
    cases hl : readLength host s with
    | error e =>
        simp only [readText, hl, error_bind] at hread
        cases hread
    | ok out =>
        obtain ⟨len, s'⟩ := out
        obtain ⟨bs', hlen, hrest'⟩ := readLength_sound hrest hl
        simp only [readText, hl, ok_bind] at hread
        by_cases hneg : len.toInt < 0
        · rw [if_pos hneg] at hread
          cases hread
          exact ⟨bs', .negative hlen hneg, hrest'⟩
        · rw [if_neg hneg] at hread
          cases hbytes : s'.buf.range s'.pos len.toNat with
          | error e =>
              rw [hbytes, error_bind] at hread
              cases hread
          | ok v =>
              rw [hbytes, ok_bind] at hread
              cases hread
              obtain ⟨hv, bs'', rfl⟩ := hrest'.range_inv hbytes
              exact ⟨bs'', .text hlen hneg hv, hv ▸ hrest'.skip⟩
  · intro s bs bs' ok hrest hscan
    cases hscan with
    | negative hlen hneg =>
        obtain ⟨hl, hrest'⟩ := readLength_complete hrest hlen
        simp only [readText, hl, ok_bind, if_pos hneg, pure_eq_ok]
        exact ⟨_, rfl, rfl, hrest'⟩
    | text hlen hneg hv =>
        obtain ⟨hl, hrest'⟩ := readLength_complete hrest hlen
        have hbytes := hrest'.range
        rw [hv] at hbytes
        simp only [readText, hl, ok_bind, if_neg hneg, hbytes, pure_eq_ok]
        exact ⟨_, rfl, rfl, hv ▸ hrest'.skip⟩

theorem repeatRead_sound
    {β : Type}
    {body : DataStream → β → Except Fault (β × DataStream)}
    {step : List UInt8 → List UInt8 → Prop}
    (hbody : StepScans host body step) :
    ∀ {n : Nat} {s s' : DataStream} {b b' : β} {bs : List UInt8},
      Rest host s bs → repeatRead body n s b = .ok (b', s') →
        ∃ bs', Times step n bs bs' ∧ Rest host s' bs'
  | 0, s, s', b, b', bs, hrest, h => by
      cases h
      exact ⟨bs, .zero, hrest⟩
  | n + 1, s, s', b, b', bs, hrest, h => by
      rw [repeatRead] at h
      cases hb : body s b with
      | error e =>
          rw [hb, error_bind] at h
          cases h
      | ok out =>
          simp only [hb, ok_bind] at h
          obtain ⟨mid, hstep, hrest'⟩ := hbody.sound hrest hb
          obtain ⟨bs', htimes, hend⟩ := repeatRead_sound hbody hrest' h
          exact ⟨bs', .succ hstep htimes, hend⟩

theorem repeatRead_complete
    {β : Type}
    {body : DataStream → β → Except Fault (β × DataStream)}
    {step : List UInt8 → List UInt8 → Prop}
    (hbody : StepScans host body step)
    {n : Nat}
    {bs bs' : List UInt8}
    (htimes : Times step n bs bs') :
    ∀ {s : DataStream} (b : β), Rest host s bs →
      ∃ b' s', repeatRead body n s b = .ok (b', s') ∧ Rest host s' bs' := by
  induction htimes with
  | zero => exact fun {s} b hrest => ⟨b, s, rfl, hrest⟩
  | succ hstep _ ih =>
      intro s b hrest
      obtain ⟨b₁, s₁, hb, hrest₁⟩ := hbody.complete b hrest hstep
      obtain ⟨b', s', hloop, hend⟩ := ih b₁ hrest₁
      refine ⟨b', s', ?_, hend⟩
      rw [repeatRead, hb, ok_bind]
      exact hloop

/-- A container overload behind its tag. -/
def readElements {β : Type} (host : Endian)
    (body : DataStream → β → Except Fault (β × DataStream)) (start : β) (s : DataStream) :
    Except Fault (Read β) := do
  let (len, s) ← readLength host s
  let (value, s) ← repeatRead body len.toInt.toNat s start
  return ⟨true, value, s⟩

theorem readContainer_scans
    {β : Type}
    {type : DataType}
    {body : DataStream → β → Except Fault (β × DataStream)}
    {step : List UInt8 → List UInt8 → Prop}
    (hbody : StepScans host body step)
    (value start : β) :
    ReaderScans host (fun s => readContainer host type body s value start)
      (TaggedAt type (ElementsAt step)) := by
  refine tagged_scans (g := readElements host body start) value (fun s => rfl) ⟨?_, ?_⟩
  · intro s bs r hrest hread
    cases hl : readLength host s with
    | error e =>
        simp only [readElements, hl, error_bind] at hread
        cases hread
    | ok out =>
        obtain ⟨len, s₁⟩ := out
        obtain ⟨bs₁, hlen, hrest₁⟩ := readLength_sound hrest hl
        simp only [readElements, hl, ok_bind] at hread
        cases hloop : repeatRead body len.toInt.toNat s₁ start with
        | error e =>
            rw [hloop, error_bind] at hread
            cases hread
        | ok out =>
            rw [hloop, ok_bind] at hread
            cases hread
            obtain ⟨bs', htimes, hend⟩ := repeatRead_sound hbody hrest₁ hloop
            exact ⟨bs', .mk hlen htimes, hend⟩
  · intro s bs bs' ok hrest hscan
    obtain ⟨hlen, htimes⟩ := hscan
    obtain ⟨hl, hrest₁⟩ := readLength_complete hrest hlen
    obtain ⟨b', s', hloop, hend⟩ := repeatRead_complete hbody htimes start hrest₁
    simp only [readElements, hl, ok_bind, hloop, pure_eq_ok]
    exact ⟨_, rfl, rfl, hend⟩

theorem readElement_scans
    {α β : Type}
    {read : DataStream → α → Except Fault (Read α)}
    {init : α}
    {scans : List UInt8 → Bool → List UInt8 → Prop}
    (hread : ReaderScans host (fun s => read s init) scans)
    (add : β → α → β) :
    StepScans host (readElement read init add) (Step scans) where
  sound := by
    intro s s' b b' bs hrest h
    cases hr : read s init with
    | error e =>
        rw [readElement, hr, error_bind] at h
        cases h
    | ok r =>
        rw [readElement, hr, ok_bind] at h
        cases h
        obtain ⟨bs', hscan, hend⟩ := hread.sound hrest hr
        exact ⟨bs', ⟨r.ok, hscan⟩, hend⟩
  complete := by
    rintro s bs bs' b hrest ⟨ok, hscan⟩
    obtain ⟨r, hr, _, hend⟩ := hread.complete hrest hscan
    refine ⟨add b r.value, r.stream, ?_, hend⟩
    rw [readElement, show read s init = .ok r from hr, ok_bind, pure_eq_ok]

theorem readEntry_scans
    {κ ν β : Type}
    {readKey : DataStream → κ → Except Fault (Read κ)}
    {readVal : DataStream → ν → Except Fault (Read ν)}
    {initKey : κ}
    {initVal : ν}
    {key value : List UInt8 → Bool → List UInt8 → Prop}
    (hkey : ReaderScans host (fun s => readKey s initKey) key)
    (hval : ReaderScans host (fun s => readVal s initVal) value)
    (add : β → κ × ν → β) :
    StepScans host (readEntry readKey initKey readVal initVal add) (EntryStep key value) where
  sound := by
    intro s s' b b' bs hrest h
    cases hk : readKey s initKey with
    | error e =>
        rw [readEntry, hk, error_bind] at h
        cases h
    | ok k =>
        rw [readEntry, hk, ok_bind] at h
        obtain ⟨mid, hscanK, hrest₁⟩ := hkey.sound hrest hk
        cases hv : readVal k.stream initVal with
        | error e =>
            rw [hv, error_bind] at h
            cases h
        | ok v =>
            rw [hv, ok_bind] at h
            cases h
            obtain ⟨bs', hscanV, hend⟩ := hval.sound hrest₁ hv
            exact ⟨bs', ⟨mid, ⟨k.ok, hscanK⟩, ⟨v.ok, hscanV⟩⟩, hend⟩
  complete := by
    rintro s bs bs' b hrest ⟨mid, ⟨okK, hscanK⟩, ⟨okV, hscanV⟩⟩
    obtain ⟨k, hk, _, hrest₁⟩ := hkey.complete hrest hscanK
    obtain ⟨v, hv, _, hend⟩ := hval.complete hrest₁ hscanV
    refine ⟨add b (k.value, v.value), v.stream, ?_, hend⟩
    rw [readEntry, show readKey s initKey = .ok k from hk, ok_bind,
      show readVal k.stream initVal = .ok v from hv, ok_bind, pure_eq_ok]

end Readers

theorem Ty.readArgs_scans
    {P : Program} :
    ∀ {Ts : List Ty},
      (∀ T ∈ Ts, ∀ t : T.Val, ReaderScans P.host (fun s => T.read P s t) T.Scans) →
      ∀ ts : Ty.Tuple Ts,
        ReaderScans P.host (fun s => Ty.readArgs P Ts s ts) (Ty.ScansAll Ts)
  | [], _, ts =>
      { sound := by
          intro s bs r hrest h
          cases h
          exact ⟨bs, .mk, hrest⟩
        complete := by
          intro s bs bs' ok hrest hscan
          cases hscan
          exact ⟨_, rfl, rfl, hrest⟩ }
  | T :: Ts, ih, (t, ts) => by
      have hfirst := ih T (by simp) t
      have hothers := Ty.readArgs_scans (fun U hU => ih U (by simp [hU])) ts
      constructor
      · intro s bs r hrest h
        cases hr : T.read P s t with
        | error e =>
            simp only [Ty.readArgs, hr, error_bind] at h
            cases h
        | ok x =>
            obtain ⟨bs₁, hscan, hrest₁⟩ := hfirst.sound hrest hr
            simp only [Ty.readArgs, hr, ok_bind] at h
            cases hok : x.ok with
            | false =>
                simp only [hok, Bool.false_eq_true, if_false] at h
                cases h
                exact ⟨bs₁, .fails (hok ▸ hscan), hrest₁⟩
            | true =>
                simp only [hok, if_true] at h
                cases hrs : Ty.readArgs P Ts x.stream ts with
                | error e =>
                    simp only [hrs, error_bind] at h
                    cases h
                | ok y =>
                    simp only [hrs, ok_bind] at h
                    cases h
                    obtain ⟨bs₂, hscan₂, hend⟩ := hothers.sound hrest₁ hrs
                    exact ⟨bs₂, .next (hok ▸ hscan) hscan₂, hend⟩
      · intro s bs bs' ok hrest hscan
        cases hscan with
        | fails h =>
            obtain ⟨x, hx, hok, hend⟩ := hfirst.complete hrest h
            simp only [Ty.readArgs, show T.read P s t = .ok x from hx, ok_bind, hok,
              Bool.false_eq_true, if_false, pure_eq_ok]
            exact ⟨_, rfl, rfl, hend⟩
        | next h hrest' =>
            obtain ⟨x, hx, hok, hmid⟩ := hfirst.complete hrest h
            obtain ⟨y, hy, hok', hend⟩ := hothers.complete hmid hrest'
            simp only [Ty.readArgs, show T.read P s t = .ok x from hx, ok_bind, hok, if_true,
              show Ty.readArgs P Ts x.stream ts = .ok y from hy, pure_eq_ok]
            exact ⟨_, rfl, hok', hend⟩

/-- The tag of an object is consumed before it is tested. -/
theorem readObject_scans
    {P : Program}
    {cls : String}
    {Ts : List Ty}
    {ts : Ty.Tuple Ts}
    (hmembers : ReaderScans P.host (fun s => Ty.readArgs P Ts s ts) (Ty.ScansAll Ts)) :
    ReaderScans P.host (fun s => (Ty.user cls Ts).read P s ts) (ObjectAt (Ty.ScansAll Ts)) := by
  constructor
  · intro s bs r hrest h
    cases hc : s.cell with
    | error e =>
        simp only [Ty.read, hc, error_bind] at h
        cases h
    | ok c =>
        obtain ⟨bs, rfl⟩ := hrest.cell_inv hc
        simp only [Ty.read, hc, ok_bind] at h
        by_cases htag : c ≠ DataType.custom.code
        · rw [if_pos htag] at h
          cases h
          exact ⟨bs, .other htag, hrest.tail⟩
        · rw [if_neg htag] at h
          cases hrs : Ty.readArgs P Ts (s.skip 1) ts with
          | error e =>
              rw [hrs, error_bind] at h
              cases h
          | ok y =>
              rw [hrs, ok_bind] at h
              cases h
              obtain ⟨bs', hscan, hend⟩ := hmembers.sound hrest.tail hrs
              rw [not_not.mp htag]
              exact ⟨bs', .members hscan, hend⟩
  · intro s bs bs' ok hrest hscan
    have hc : ∀ {c rest}, bs = c :: rest → s.cell = .ok c := by
      rintro c rest rfl
      exact hrest.ahead.cell
    cases hscan with
    | other htag =>
        simp only [Ty.read, hc rfl, ok_bind, if_pos htag, pure_eq_ok]
        exact ⟨_, rfl, rfl, hrest.tail⟩
    | members h =>
        obtain ⟨y, hy, _, hend⟩ := hmembers.complete hrest.tail h
        simp only [Ty.read, hc rfl, ok_bind, ne_eq, not_true_eq_false, if_false,
          show Ty.readArgs P Ts (s.skip 1) ts = .ok y from hy, pure_eq_ok]
        exact ⟨_, rfl, rfl, hend⟩

/-- **A read ends exactly on the bytes of its layout**, whatever the target holds. -/
theorem Ty.read_scans (P : Program) (T : Ty) :
    ∀ t : T.Val, ReaderScans P.host (fun s => T.read P s t) T.Scans := by
  induction T using Ty.induct with
  | bool => exact fun t => readBool_scans t
  | char => exact fun t => readChar_scans t
  | int32 => exact fun t => readNumber_scans .int32 4 t
  | int64 => exact fun t => readNumber_scans .int64 8 t
  | float => exact fun t => readNumber_scans .float 4 t
  | double => exact fun t => readNumber_scans .double 8 t
  | string => exact fun t => readString_scans t
  | vector T ih => exact fun t => readContainer_scans (readElement_scans (ih _) _) t []
  | list T ih => exact fun t => readContainer_scans (readElement_scans (ih _) _) t []
  | set T ih => exact fun t => readContainer_scans (readElement_scans (ih _) _) t t
  | map K V ihK ihV =>
      exact fun t => readContainer_scans (readEntry_scans (ihK _) (ihV _) _) t t
  | unorderedSet T ih => exact fun t => readContainer_scans (readElement_scans (ih _) _) t t
  | unorderedMap K V ihK ihV =>
      exact fun t => readContainer_scans (readEntry_scans (ihK _) (ihV _) _) t t
  | user cls Ts ih => exact fun ts => readObject_scans (Ty.readArgs_scans ih ts)

end Serial
end ZeroRPC
