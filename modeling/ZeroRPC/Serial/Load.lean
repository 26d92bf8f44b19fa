import ZeroRPC.Library.Machine
import ZeroRPC.Serial.Encoding
import ZeroRPC.Serial.Scan
import ZeroRPC.Serial.Swapped
import ZeroRPC.Serial.Target

/-!
# What load installs

`load` copies its bytes over the storage of the vector and moves the position to the
front; neither the size of the vector nor the flag is changed.  A stream is used by
looking at `data()`, by reads and writes and as a member of something that is
serialised; two streams are alike when every such use has the same answer.

Main facts:
* `Ty.read_extends`: a read that stays inside the vector does not see the storage
  behind it;
* `alike_of_members`: streams with the same members are alike;
* `load_installs_iff`: when a load leaves the stream alike to a fresh one that was
  filled with the bytes.
-/

namespace ZeroRPC
namespace Serial

open Library

/-! ### Reads inside the vector -/

/-- The second stream has every byte of the first, and the same flag and position. -/
structure Extends (s u : DataStream) : Prop where
  flag : u.isBigEndian = s.isBigEndian
  pos : u.pos = s.pos
  cell : ∀ i c, s.buf.cell i = .ok c → u.buf.cell i = .ok c

/-- A reader that returns goes the same way on a stream with more storage, and leaves
both buffers as they are. -/
def ReadsFurther {α : Type} (f : DataStream → Except Fault (Read α)) : Prop :=
  ∀ s u r, Extends s u → f s = .ok r →
    r.stream.buf = s.buf ∧ ∃ u', f u = .ok ⟨r.ok, r.value, u'⟩ ∧ u'.buf = u.buf ∧
      Extends r.stream u'

/-- The same for a step of a loop. -/
def StepsFurther {β : Type} (f : DataStream → β → Except Fault (β × DataStream)) : Prop :=
  ∀ s u b b' s', Extends s u → f s b = .ok (b', s') →
    s'.buf = s.buf ∧ ∃ u', f u b = .ok (b', u') ∧ u'.buf = u.buf ∧ Extends s' u'

theorem Extends.skip
    {s u : DataStream}
    (h : Extends s u)
    (n : Nat) :
    Extends (s.skip n) (u.skip n) :=
  ⟨h.flag, by rw [DataStream.skip, DataStream.skip, h.pos], h.cell⟩

theorem Extends.range
    {s u : DataStream}
    (h : Extends s u) :
    ∀ {n : Nat} {i : Int} {bs : List UInt8}, s.buf.range i n = .ok bs → u.buf.range i n = .ok bs
  | 0, _, _, hrange => hrange
  | n + 1, i, bs, hrange => by
      rw [CharVector.range] at hrange ⊢
      cases hc : s.buf.cell i with
      | error e =>
          rw [hc, error_bind] at hrange
          cases hrange
      | ok c =>
          cases hcs : s.buf.range (i + 1) n with
          | error e =>
              simp only [hc, hcs, ok_bind, error_bind] at hrange
              cases hrange
          | ok cs =>
              simp only [hc, hcs, ok_bind, pure_eq_ok] at hrange
              simp only [h.cell i c hc, Extends.range h hcs, ok_bind, pure_eq_ok]
              exact hrange

section Further

variable {host : Endian}

/-- The test of the tag, in front of any reader. -/
theorem tagged_further
    {α : Type}
    (type : DataType)
    {f g : DataStream → Except Fault (Read α)}
    (value : α)
    (hf : ∀ s, f s = (do
      let tag ← s.cell
      if tag ≠ type.code then
        return ⟨false, value, s⟩
      else
        g (s.skip 1)))
    (hg : ReadsFurther g) :
    ReadsFurther f := by
  intro s u r hext hread
  rw [hf] at hread ⊢
  cases hc : s.cell with
  | error e =>
      rw [hc, error_bind] at hread
      cases hread
  | ok c =>
      have hcell : u.cell = .ok c := by
        rw [DataStream.cell, hext.pos]
        exact hext.cell _ _ hc
      rw [hc, ok_bind] at hread
      rw [hcell, ok_bind]
      by_cases htag : c ≠ type.code
      · rw [if_pos htag] at hread ⊢
        cases hread
        exact ⟨rfl, u, rfl, rfl, hext⟩
      · rw [if_neg htag] at hread ⊢
        exact hg (s.skip 1) (u.skip 1) r (hext.skip 1) hread

/-- A reader of `k` bytes that makes any use of them and of the flag. -/
theorem bytes_further
    {α : Type}
    (k : Nat)
    (use : Bool → List UInt8 → α) :
    ReadsFurther fun s => do
      let bytes ← s.buf.range s.pos k
      return ⟨true, use s.isBigEndian bytes, s.skip k⟩ := by
  intro s u r hext hread
  cases hbytes : s.buf.range s.pos k with
  | error e =>
      simp only [hbytes, error_bind] at hread
      cases hread
  | ok v =>
      simp only [hbytes, ok_bind, pure_eq_ok] at hread
      cases hread
      have hrange : u.buf.range u.pos k = .ok v := hext.pos ▸ hext.range hbytes
      refine ⟨rfl, u.skip k, ?_, rfl, hext.skip k⟩
      simp only [hrange, ok_bind, pure_eq_ok, hext.flag]

theorem readBool_further (value : Bool) : ReadsFurther fun s => readBool s value := by
  refine tagged_further .bool value (fun s => ?_)
    (bytes_further 1 fun _ bytes => decide (bytes.headD 0 ≠ 0))
  simp only [readBool, cell_eq_range (s.skip 1), bind_assoc, pure_bind, skip_skip]

theorem readChar_further (value : UInt8) : ReadsFurther fun s => readChar s value := by
  refine tagged_further .char value (fun s => ?_) (bytes_further 1 fun _ bytes => bytes.headD 0)
  simp only [readChar, cell_eq_range (s.skip 1), bind_assoc, pure_bind, skip_skip]

theorem readNumber_further
    {w : Nat}
    (type : DataType)
    (k : Nat)
    (value : BitVec w) :
    ReadsFurther fun s => readNumber host type k s value := by
  refine tagged_further type value (fun s => ?_) (bytes_further k fun flag bytes =>
    BitVec.ofNat w (host.fetch (orderBytes flag bytes)))
  simp only [readNumber, skip_skip]
  rfl

theorem readLength_further
    {s u s' : DataStream}
    {len : BitVec 32}
    (hext : Extends s u)
    (hread : readLength host s = .ok (len, s')) :
    s'.buf = s.buf ∧ ∃ u', readLength host u = .ok (len, u') ∧ u'.buf = u.buf ∧
      Extends s' u' := by
  cases hr : readInt32 host s 0 with
  | error e =>
      rw [readLength, hr, error_bind] at hread
      cases hread
  | ok r =>
      obtain ⟨hbuf, u', hu, hubuf, hext'⟩ := readNumber_further .int32 4 0 s u r hext hr
      have hu : readInt32 host u 0 = _ := hu
      rw [readLength, hr, ok_bind] at hread
      rw [readLength, hu, ok_bind]
      cases hok : r.ok with
      | false =>
          simp only [hok, Bool.false_eq_true, if_false, throw_eq_error] at hread
          cases hread
      | true =>
          simp only [hok, if_true, pure_eq_ok] at hread ⊢
          cases hread
          exact ⟨hbuf, u', rfl, hubuf, hext'⟩

theorem readString_further (value : List UInt8) :
    ReadsFurther fun s => readString host s value := by
  refine tagged_further .string (g := readText host value) value (fun s => rfl) ?_
  intro s u r hext hread
  cases hl : readLength host s with
  | error e =>
      simp only [readText, hl, error_bind] at hread
      cases hread
  | ok out =>
      obtain ⟨len, s'⟩ := out
      obtain ⟨hbuf, u', hu, hubuf, hext'⟩ := readLength_further hext hl
      simp only [readText, hl, hu, ok_bind] at hread ⊢
      by_cases hneg : len.toInt < 0
      · rw [if_pos hneg] at hread ⊢
        cases hread
        exact ⟨hbuf, u', rfl, hubuf, hext'⟩
      · rw [if_neg hneg] at hread ⊢
        cases hbytes : s'.buf.range s'.pos len.toNat with
        | error e =>
            rw [hbytes, error_bind] at hread
            cases hread
        | ok v =>
            rw [hbytes, ok_bind] at hread
            cases hread
            have hrange : u'.buf.range u'.pos len.toNat = .ok v :=
              hext'.pos ▸ hext'.range hbytes
            rw [hrange, ok_bind]
            exact ⟨hbuf, u'.skip len.toNat, rfl, hubuf, hext'.skip _⟩

theorem repeatRead_further
    {β : Type}
    {body : DataStream → β → Except Fault (β × DataStream)}
    (hbody : StepsFurther body)
    (n : Nat) :
    StepsFurther (repeatRead body n) := by
  induction n with
  | zero =>
      intro s u b b' s' hext hread
      cases hread
      exact ⟨rfl, u, rfl, rfl, hext⟩
  | succ n ih =>
      intro s u b b' s' hext hread
      rw [repeatRead] at hread ⊢
      cases hb : body s b with
      | error e =>
          rw [hb, error_bind] at hread
          cases hread
      | ok out =>
          obtain ⟨hbuf, u₁, hu, hubuf, hext₁⟩ := hbody s u b out.1 out.2 hext hb
          simp only [hb, ok_bind] at hread
          obtain ⟨hbuf', u', hu', hubuf', hext'⟩ := ih _ _ _ _ _ hext₁ hread
          refine ⟨hbuf'.trans hbuf, u', ?_, hubuf'.trans hubuf, hext'⟩
          rw [hu, ok_bind]
          exact hu'

theorem readContainer_further
    {β : Type}
    {type : DataType}
    {body : DataStream → β → Except Fault (β × DataStream)}
    (hbody : StepsFurther body)
    (value start : β) :
    ReadsFurther fun s => readContainer host type body s value start := by
  refine tagged_further type (g := readElements host body start) value (fun s => rfl) ?_
  intro s u r hext hread
  cases hl : readLength host s with
  | error e =>
      simp only [readElements, hl, error_bind] at hread
      cases hread
  | ok out =>
      obtain ⟨len, s₁⟩ := out
      obtain ⟨hbuf, u₁, hu, hubuf, hext₁⟩ := readLength_further hext hl
      simp only [readElements, hl, hu, ok_bind] at hread ⊢
      cases hloop : repeatRead body len.toInt.toNat s₁ start with
      | error e =>
          rw [hloop, error_bind] at hread
          cases hread
      | ok out =>
          obtain ⟨hbuf', u', hu', hubuf', hext'⟩ :=
            repeatRead_further hbody _ _ _ _ _ _ hext₁ hloop
          rw [hloop, ok_bind] at hread
          rw [hu', ok_bind]
          cases hread
          exact ⟨hbuf'.trans hbuf, u', rfl, hubuf'.trans hubuf, hext'⟩

theorem readElement_further
    {α β : Type}
    {read : DataStream → α → Except Fault (Read α)}
    {init : α}
    (hread : ReadsFurther fun s => read s init)
    (add : β → α → β) :
    StepsFurther (readElement read init add) := by
  intro s u b b' s' hext h
  cases hr : read s init with
  | error e =>
      rw [readElement, hr, error_bind] at h
      cases h
  | ok r =>
      obtain ⟨hbuf, u', hu, hubuf, hext'⟩ := hread s u r hext hr
      have hu : read u init = _ := hu
      rw [readElement, hr, ok_bind] at h
      cases h
      refine ⟨hbuf, u', ?_, hubuf, hext'⟩
      rw [readElement, hu, ok_bind, pure_eq_ok]

theorem readEntry_further
    {κ ν β : Type}
    {readKey : DataStream → κ → Except Fault (Read κ)}
    {readVal : DataStream → ν → Except Fault (Read ν)}
    {initKey : κ}
    {initVal : ν}
    (hkey : ReadsFurther fun s => readKey s initKey)
    (hval : ReadsFurther fun s => readVal s initVal)
    (add : β → κ × ν → β) :
    StepsFurther (readEntry readKey initKey readVal initVal add) := by
  intro s u b b' s' hext h
  cases hk : readKey s initKey with
  | error e =>
      rw [readEntry, hk, error_bind] at h
      cases h
  | ok k =>
      obtain ⟨hbuf, u₁, hu, hubuf, hext₁⟩ := hkey s u k hext hk
      have hu : readKey u initKey = _ := hu
      rw [readEntry, hk, ok_bind] at h
      cases hv : readVal k.stream initVal with
      | error e =>
          rw [hv, error_bind] at h
          cases h
      | ok v =>
          obtain ⟨hbuf', u', hu', hubuf', hext'⟩ := hval k.stream u₁ v hext₁ hv
          have hu' : readVal u₁ initVal = _ := hu'
          rw [hv, ok_bind] at h
          cases h
          refine ⟨hbuf'.trans hbuf, u', ?_, hubuf'.trans hubuf, hext'⟩
          rw [readEntry, hu, ok_bind, hu', ok_bind, pure_eq_ok]

theorem Ty.readArgs_further
    {P : Program} :
    ∀ {Ts : List Ty},
      (∀ T ∈ Ts, ∀ t : T.Val, ReadsFurther fun s => T.read P s t) →
      ∀ ts : Ty.Tuple Ts, ReadsFurther fun s => Ty.readArgs P Ts s ts
  | [], _, _ => by
      intro s u r hext hread
      cases hread
      exact ⟨rfl, u, rfl, rfl, hext⟩
  | T :: Ts, ih, (t, ts) => by
      intro s u r hext hread
      cases hr : T.read P s t with
      | error e =>
          simp only [Ty.readArgs, hr, error_bind] at hread
          cases hread
      | ok x =>
          obtain ⟨hbuf, u₁, hu, hubuf, hext₁⟩ := ih T (by simp) t s u x hext hr
          have hu : T.read P u t = _ := hu
          simp only [Ty.readArgs, hr, hu, ok_bind] at hread ⊢
          cases hok : x.ok with
          | false =>
              simp only [hok, Bool.false_eq_true, if_false] at hread ⊢
              cases hread
              exact ⟨hbuf, u₁, rfl, hubuf, hext₁⟩
          | true =>
              simp only [hok, if_true] at hread ⊢
              cases hrs : Ty.readArgs P Ts x.stream ts with
              | error e =>
                  simp only [hrs, error_bind] at hread
                  cases hread
              | ok y =>
                  obtain ⟨hbuf', u', hu', hubuf', hext'⟩ :=
                    Ty.readArgs_further (fun U hU => ih U (by simp [hU])) ts _ u₁ y hext₁ hrs
                  have hu' : Ty.readArgs P Ts u₁ ts = _ := hu'
                  simp only [hrs, ok_bind] at hread
                  cases hread
                  simp only [hu', ok_bind, pure_eq_ok]
                  exact ⟨hbuf'.trans hbuf, u', rfl, hubuf'.trans hubuf, hext'⟩

theorem readObject_further
    {P : Program}
    {cls : String}
    {Ts : List Ty}
    {ts : Ty.Tuple Ts}
    (hmembers : ReadsFurther fun s => Ty.readArgs P Ts s ts) :
    ReadsFurther fun s => (Ty.user cls Ts).read P s ts := by
  intro s u r hext hread
  cases hc : s.cell with
  | error e =>
      simp only [Ty.read, hc, error_bind] at hread
      cases hread
  | ok c =>
      have hcell : u.cell = .ok c := by
        rw [DataStream.cell, hext.pos]
        exact hext.cell _ _ hc
      simp only [Ty.read, hc, hcell, ok_bind] at hread ⊢
      by_cases htag : c ≠ DataType.custom.code
      · rw [if_pos htag] at hread ⊢
        cases hread
        exact ⟨rfl, u.skip 1, rfl, rfl, hext.skip 1⟩
      · rw [if_neg htag] at hread ⊢
        cases hrs : Ty.readArgs P Ts (s.skip 1) ts with
        | error e =>
            rw [hrs, error_bind] at hread
            cases hread
        | ok y =>
            obtain ⟨hbuf, u', hu, hubuf, hext'⟩ := hmembers _ _ y (hext.skip 1) hrs
            have hu : Ty.readArgs P Ts (u.skip 1) ts = _ := hu
            rw [hrs, ok_bind] at hread
            cases hread
            rw [hu, ok_bind]
            exact ⟨hbuf, u', rfl, hubuf, hext'⟩

/-- **Storage behind the vector is not seen** by a read that stays inside it. -/
theorem Ty.read_extends (P : Program) (T : Ty) :
    ∀ t : T.Val, ReadsFurther fun s => T.read P s t := by
  induction T using Ty.induct with
  | bool => exact fun t => readBool_further t
  | char => exact fun t => readChar_further t
  | int32 => exact fun t => readNumber_further .int32 4 t
  | int64 => exact fun t => readNumber_further .int64 8 t
  | float => exact fun t => readNumber_further .float 4 t
  | double => exact fun t => readNumber_further .double 8 t
  | string => exact fun t => readString_further t
  | vector T ih => exact fun t => readContainer_further (readElement_further (ih _) _) t []
  | list T ih => exact fun t => readContainer_further (readElement_further (ih _) _) t []
  | set T ih => exact fun t => readContainer_further (readElement_further (ih _) _) t t
  | map K V ihK ihV =>
      exact fun t => readContainer_further (readEntry_further (ihK _) (ihV _) _) t t
  | unorderedSet T ih => exact fun t => readContainer_further (readElement_further (ih _) _) t t
  | unorderedMap K V ihK ihV =>
      exact fun t => readContainer_further (readEntry_further (ihK _) (ihV _) _) t t
  | user cls Ts ih => exact fun ts => readObject_further (Ty.readArgs_further ih ts)

end Further

/-! ### Uses of a stream -/

namespace DataStream

/-- The object after it was written to another stream and read back from there. -/
def copied (P : Program) (s : DataStream) : Except Fault Ty.dataStream.Val := do
  let outer ← Ty.dataStream.write P.host (DataStream.empty P.host) s.members
  let r ← Ty.dataStream.read P outer (P.init Ty.dataStream)
  return r.value

end DataStream

/-- What can be done with a stream: look at `data()`, read or write a value, serialise the
stream itself. -/
inductive StreamUse
  | data
  | read (T : Ty) (t : T.Val)
  | write (T : Ty) (v : T.Val)
  | serialize

inductive StreamAnswer
  | data (bytes : List UInt8)
  | read (T : Ty) (ok : Bool) (v : T.Val)
  | written
  | members (v : Ty.dataStream.Val)

/-- A stream in use. -/
def streamMachine (P : Program) : Machine DataStream StreamUse (Except Fault StreamAnswer) where
  step s use :=
    match use with
    | .data => (.ok (.data s.data), s)
    | .read T t =>
        match T.read P s t with
        | .ok r => (.ok (.read T r.ok r.value), r.stream)
        | .error e => (.error e, s)
    | .write T v =>
        match T.write P.host s v with
        | .ok s' => (.ok .written, s')
        | .error e => (.error e, s)
    | .serialize => (.ok (.members s.members), s)

/-- A read stays inside the vector, a write leaves fewer than `2 ^ 31` bytes in it. -/
def MayUse (P : Program) (s : DataStream) : StreamUse → Prop
  | .read T t => ∃ r, T.read P s.trimmed t = .ok r
  | .write T v =>
      s.buf.size + ((T.tree v).encode (s.isBigEndian != P.host.isBig)).length < 2 ^ 31
  | _ => True

/-- Every sequence of uses that may be made of the second stream has the same answers on
the first. -/
def Alike (P : Program) (s u : DataStream) : Prop :=
  ∀ uses, (streamMachine P).Asked (MayUse P) u uses →
    (streamMachine P).outputs s uses = (streamMachine P).outputs u uses

/-- After the load the stream is alike to a fresh one that was filled with the bytes by
`write_memory`; both show them, and a copy of the stream holds them. -/
def Installs (P : Program) (s : DataStream) (d : List UInt8) : Prop :=
  ∃ s' u, s.load d = .ok s' ∧
    (DataStream.empty P.host).writeMemory d (BitVec.ofNat 32 d.length) = .ok u ∧
    u.data = d ∧ s'.data = d ∧ Alike P s' u ∧
    (((Ty.dataStream.tree s'.members).encode false).length < 2 ^ 31 →
      s'.copied P = .ok (P.host.isBig, d, (0 : BitVec 32), ()))

section Uses

variable {P : Program} {s u : DataStream}

theorem trimmed_extends (s : DataStream) : Extends s.trimmed s := by
  refine ⟨rfl, rfl, fun i c hc => ?_⟩
  unfold CharVector.cell at hc ⊢
  split at hc
  · cases hc
  case isFalse hneg =>
    rw [if_neg hneg]
    split at hc
    · cases hc
    · cases hc
    case h_3 d hget =>
      have hmem : s.buf.storage[i.toNat]? = some (some d) := by
        have helems : (s.buf.elems.map some)[i.toNat]? = some (some d) := by
          simpa [CharVector.storage, DataStream.trimmed] using hget
        obtain ⟨hlt, -⟩ := List.getElem?_eq_some_iff.mp helems
        rw [CharVector.storage, List.getElem?_append_left hlt]
        exact helems
      rw [hmem]
      exact hc

theorem trimmed_eq_iff :
    s.trimmed = u.trimmed ↔
      s.isBigEndian = u.isBigEndian ∧ s.buf.elems = u.buf.elems ∧ s.pos = u.pos := by
  simp [DataStream.trimmed]

/-- Streams with the same members answer a use alike and keep the same members. -/
theorem use_of_members
    {use : StreamUse}
    (h : s.trimmed = u.trimmed)
    (hmay : MayUse P u use) :
    ((streamMachine P).step s use).1 = ((streamMachine P).step u use).1 ∧
      ((streamMachine P).step s use).2.trimmed = ((streamMachine P).step u use).2.trimmed := by
  obtain ⟨hflag, helems, hpos⟩ := trimmed_eq_iff.mp h
  cases use with
  | data =>
      refine ⟨?_, h⟩
      simp only [streamMachine, DataStream.data, helems]
  | serialize =>
      refine ⟨?_, h⟩
      simp only [streamMachine, DataStream.members, hflag, helems, hpos]
  | read T t =>
      obtain ⟨r, hr⟩ := hmay
      -- both reads follow the one on the elements alone
      obtain ⟨-, u', hu, hubuf, huext⟩ := T.read_extends P t _ u r (trimmed_extends u) hr
      rw [← h] at hr
      obtain ⟨-, s', hs, hsbuf, hsext⟩ := T.read_extends P t _ s r (trimmed_extends s) hr
      have hu : T.read P u t = _ := hu
      have hs : T.read P s t = _ := hs
      simp only [streamMachine, hu, hs]
      refine ⟨trivial, trimmed_eq_iff.mpr ⟨?_, ?_, ?_⟩⟩
      · rw [huext.flag, hsext.flag]
      · rw [hsbuf, hubuf, helems]
      · rw [huext.pos, hsext.pos]
  | write T v =>
      have hroom : s.buf.size + ((T.tree v).encode (u.isBigEndian != P.host.isBig)).length <
          2 ^ 31 := by
        have hsize : s.buf.size = u.buf.size := congrArg List.length helems
        rw [hsize]
        exact hmay
      obtain ⟨u', hu, hua⟩ := T.write_encodes v u rfl hmay
      obtain ⟨s', hs, hsa⟩ := T.write_encodes v s (by rw [hflag]) hroom
      simp only [streamMachine, hu, hs]
      refine ⟨trivial, trimmed_eq_iff.mpr ⟨?_, ?_, ?_⟩⟩
      · rw [hsa.flag, hua.flag, hflag]
      · rw [hsa.elems, hua.elems, helems]
      · rw [hsa.pos, hua.pos, hpos]

/-- **Streams with the same members are alike.** -/
theorem alike_of_members (h : s.trimmed = u.trimmed) : Alike P s u := by
  intro uses hasked
  have hstep : ∀ s u use, s.trimmed = u.trimmed → MayUse P u use →
      ((streamMachine P).step s use).1 = ((streamMachine P).step u use).1 ∧
        ((streamMachine P).step s use).2.trimmed = ((streamMachine P).step u use).2.trimmed :=
    fun _ _ _ => use_of_members
  exact (Machine.simulation (R := fun s u => s.trimmed = u.trimmed) hstep h hasked).1

end Uses

/-! ### What load leaves -/

section Loaded

variable {P : Program} {s s' u : DataStream} {d : List UInt8}

theorem reserve_elems
    {b b' : CharVector}
    {len : BitVec 32}
    (h : b.reserve len = .ok b') :
    b'.elems = b.elems := by
  simp only [CharVector.reserve] at h
  split at h
  · split at h
    · cases h
    · cases h
      rfl
  · cases h
    rfl

/-- The vector keeps its size. -/
theorem load_frame
    (h : s.load d = .ok s') :
    s'.buf.size = s.buf.size ∧ s'.isBigEndian = s.isBigEndian ∧ s'.pos = 0 := by
  cases hb : s.buf.reserve (BitVec.ofNat 32 d.length) with
  | error e =>
      rw [DataStream.load, hb, error_bind] at h
      cases h
  | ok b =>
      have helems := reserve_elems hb
      simp only [DataStream.load, hb, ok_bind] at h
      split at h
      · cases h
      · cases h
        refine ⟨?_, rfl, rfl⟩
        simp only [CharVector.overwrite, CharVector.size, helems, List.length_take,
          List.length_append, List.length_drop]
        omega

/-- Bytes that are as many as the elements replace them. -/
theorem load_of_size
    (hsize : s.buf.size = d.length)
    (hlen : d.length < 2 ^ 31) :
    ∃ s', s.load d = .ok s' ∧ s'.buf.elems = d ∧ s'.isBigEndian = s.isBigEndian ∧
      s'.pos = 0 := by
  obtain ⟨b, hb, helems, hroom, -⟩ := s.buf.reserve_ok hlen (by omega)
  have hcap : ¬ b.capacity < d.length := by omega
  refine ⟨{ s with buf := b.overwrite d, pos := 0 }, ?_, ?_, rfl, rfl⟩
  · simp [DataStream.load, hb, hcap]
  · have hcount : b.size = d.length := by
      rw [CharVector.size, helems]
      exact hsize
    simp only [CharVector.overwrite, hcount]
    exact List.take_left

/-- A fresh stream is filled with fewer than `2 ^ 31` bytes at once. -/
theorem fresh_length
    (h : (DataStream.empty P.host).writeMemory d (BitVec.ofNat 32 d.length) = .ok u)
    (hdata : u.data = d) :
    d.length < 2 ^ 31 := by
  by_contra hlarge
  cases hb : (DataStream.empty P.host).buf.reserve (BitVec.ofNat 32 d.length) with
  | error e =>
      rw [DataStream.writeMemory, hb, error_bind] at h
      cases h
  | ok b =>
      have hnil : b.elems = [] := reserve_elems hb
      rw [DataStream.writeMemory, hb, ok_bind] at h
      cases h
      have htake : d.take (d.length % 2 ^ 32) = d := by
        simpa [DataStream.data, CharVector.append, hnil] using hdata
      have hshort : d.length < 2 ^ 32 := by
        have hcount := congrArg List.length htake
        rw [List.length_take] at hcount
        omega
      -- the length is negative as the `int32_t` of `reserve`
      have hmsb : (BitVec.ofNat 32 d.length).msb = true := by
        rw [BitVec.msb_eq_decide]
        simp only [BitVec.toNat_ofNat, decide_eq_true_eq]
        omega
      have hneed : 2 ^ 63 < needed 0 (BitVec.ofNat 32 d.length) := by
        rw [needed, BitVec.toNat_signExtend, hmsb]
        simp only [BitVec.toNat_setWidth, BitVec.toNat_ofNat, if_true]
        omega
      have hhang : CharVector.growCap (needed 0 (BitVec.ofNat 32 d.length)) 130 0 = none :=
        CharVector.growCap_none hneed 130 (.inl rfl)
      simp only [CharVector.reserve, DataStream.empty, CharVector.capacity, CharVector.size,
        List.length_nil, Nat.zero_add, hhang] at hb
      split at hb
      · cases hb
      · omega

/-- A stream that shows its bytes from the front is copied with them. -/
theorem copied_of_members
    (hmembers : s.members = (P.host.isBig, d, (0 : BitVec 32), ()))
    (hlen : ((Ty.dataStream.tree s.members).encode false).length < 2 ^ 31) :
    s.copied P = .ok (P.host.isBig, d, (0 : BitVec 32), ()) := by
  have hflag : ((DataStream.empty P.host).isBigEndian != P.host.isBig) = false := by
    simp [DataStream.empty]
  have hroom : (DataStream.empty P.host).buf.size +
      ((Ty.dataStream.tree s.members).encode false).length < 2 ^ 31 := by
    simpa [DataStream.empty, CharVector.size] using hlen
  obtain ⟨outer, hwrite, happ⟩ := Ty.dataStream.write_encodes s.members _ hflag hroom
  have hahead : Ahead outer ((Ty.dataStream.tree s.members).encode false) := by
    refine ⟨by rw [happ.pos]; exact le_rfl, outer.buf.spare, ?_⟩
    rw [happ.pos, CharVector.storage, happ.elems]
    rfl
  have hread : Ty.dataStream.read P outer (P.init Ty.dataStream) = _ :=
    Ty.read_encoded P Ty.dataStream (P.init Ty.dataStream) s.members hlen outer
      (by rw [happ.flag]; exact hflag) hahead
  have hwrite : Ty.dataStream.write P.host (DataStream.empty P.host) s.members = _ := hwrite
  rw [DataStream.copied, hwrite, ok_bind, hread, ok_bind, merge_dataStream, hmembers]
  rfl

/-- A load that shows its bytes found as many elements. -/
theorem size_of_installs
    (h : Installs P s d) :
    s.buf.size = d.length := by
  obtain ⟨s', u, hload, -, -, hdata, -⟩ := h
  have hsize := (load_frame hload).1
  rw [← hsize, CharVector.size]
  exact congrArg List.length hdata

end Loaded

/-- **What load installs.**  After a load the stream is as a fresh one that was filled with
the bytes exactly when its vector had as many elements before and its flag was the host's
(and `write_memory` takes that many bytes at once). -/
theorem load_installs_iff
    (P : Program)
    (s : DataStream)
    (d : List UInt8) :
    Installs P s d ↔
      s.buf.size = d.length ∧ s.isBigEndian = P.host.isBig ∧ d.length < 2 ^ 31 := by
  constructor
  · intro h
    have hsize := size_of_installs h
    obtain ⟨s', u, hload, hfresh, hu, -, halike, -⟩ := h
    have hlen := fresh_length hfresh hu
    have hroom : (DataStream.empty P.host).buf.size + d.length < 2 ^ 31 := by
      simpa [DataStream.empty, CharVector.size] using hlen
    obtain ⟨u', hu', happ⟩ := writeMemory_appends (DataStream.empty P.host) hroom
    obtain rfl : u' = u := Except.ok.inj (hu'.symm.trans hfresh)
    -- serialising the stream shows the flag
    have hmembers := halike [.serialize] ⟨trivial, trivial⟩
    have hflag : s'.isBigEndian = u'.isBigEndian := by
      simp only [streamMachine, Machine.outputs, List.cons.injEq, Except.ok.injEq,
        StreamAnswer.members.injEq, and_true] at hmembers
      exact congrArg Prod.fst hmembers
    refine ⟨hsize, ?_, hlen⟩
    rw [← (load_frame hload).2.1, hflag, happ.flag]
    rfl
  · rintro ⟨hsize, hflag, hlen⟩
    obtain ⟨s', hload, helems, hflag', hpos⟩ := load_of_size hsize hlen
    have hroom : (DataStream.empty P.host).buf.size + d.length < 2 ^ 31 := by
      simpa [DataStream.empty, CharVector.size] using hlen
    obtain ⟨u, hu, happ⟩ := writeMemory_appends (DataStream.empty P.host) hroom
    have hdata : u.buf.elems = d := by
      rw [happ.elems]
      rfl
    refine ⟨s', u, hload, hu, hdata, helems, alike_of_members ?_, fun hcopy => ?_⟩
    · refine trimmed_eq_iff.mpr ⟨?_, by rw [helems, hdata], ?_⟩
      · rw [hflag', hflag, happ.flag]
        rfl
      · rw [hpos, happ.pos]
        rfl
    · refine copied_of_members ?_ hcopy
      rw [DataStream.members, hflag', hflag, helems, hpos]
      rfl

/-- One byte loaded into a fresh stream: `data()` stays empty. -/
theorem load_fresh_not_installed :
    ¬ ∀ (P : Program) (s : DataStream) (d : List UInt8), Installs P s d := by
  intro h
  have hsize := size_of_installs (h (Program.plain .little) (DataStream.empty .little) [1])
  exact absurd hsize (by decide)

end Serial
end ZeroRPC
