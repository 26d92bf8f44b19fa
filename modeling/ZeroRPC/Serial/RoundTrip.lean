import ZeroRPC.Serial.Target

/-!
# A Data_Stream is a queue of typed values

A run is a list of writes and reads on one stream.  A read asks for a type and
states the value it is to yield; `Schedule` lets it do so when a value with the
same content is the oldest one not yet read, which covers a set or a map written
from an ordered container and read into an unordered one at any depth.

Main facts:
* `Holds`: between two calls the bytes from `_pos` to the end are the encodings of
  the values not yet read;
* `fifoRun_iff`: a scheduled run yields the values written exactly when each value
  read absorbs what its default-constructed target holds;
* `stream_is_fifo_iff`: the types for which every run does are those with empty
  default objects.
-/

namespace ZeroRPC
namespace Serial

open Library

/-- A call on the stream, with the value that is written or expected. -/
inductive Op
  | write (T : Ty) (v : T.Val)
  | read (T : Ty) (v : T.Val)

/-- The contents written by a run. -/
def written : List Op → List Value
  | [] => []
  | .write T v :: ops => T.tree v :: written ops
  | .read _ _ :: ops => written ops

/-- The k-th read comes after the k-th write and asks for what it wrote; `pending`
is what was written before and not yet read. -/
def Schedule : List Op → List Value → Prop
  | [], _ => True
  | .write T v :: ops, pending => Schedule ops (pending ++ [T.tree v])
  | .read T v :: ops, pending => ∃ rest, pending = T.tree v :: rest ∧ Schedule ops rest

/-- Every write appends its encoding and leaves `_pos`; every read into a
default-constructed target returns true, yields the value and leaves `_pos` at the
end of its encoding. -/
def FifoRun (P : Program) : List Op → DataStream → Prop
  | [], _ => True
  | .write T v :: ops, s =>
      ∃ s', T.write P.host s v = .ok s' ∧ Appends s s' ((T.tree v).encode false) ∧
        FifoRun P ops s'
  | .read T v :: ops, s =>
      ∃ r, T.read P s (P.init T) = .ok r ∧ r.ok = true ∧ T.Same r.value v ∧
        r.stream = s.skip ((T.tree v).encode false).length ∧ FifoRun P ops r.stream

/-- What the stream carries between two calls. -/
structure Holds (host : Endian) (s : DataStream) (pending : List Value) : Prop where
  flag : s.isBigEndian = host.isBig
  nonneg : 0 ≤ s.pos
  inside : s.pos.toNat ≤ s.buf.size
  bytes : s.buf.elems.drop s.pos.toNat = Value.encodeAll false pending

section Run

variable {P : Program}

theorem holds_empty (host : Endian) : Holds host (DataStream.empty host) [] := by
  refine ⟨rfl, le_refl _, ?_, ?_⟩ <;> simp [DataStream.empty, Value.encodeAll]

theorem Value.encodeAll_append (swap : Bool) (vs ws : List Value) :
    Value.encodeAll swap (vs ++ ws) = Value.encodeAll swap vs ++ Value.encodeAll swap ws := by
  simp [Value.encodeAll_eq_flatMap]

theorem Holds.size_eq
    {host : Endian}
    {s : DataStream}
    {pending : List Value}
    (h : Holds host s pending) :
    s.buf.size = s.pos.toNat + (Value.encodeAll false pending).length := by
  have hlen := congrArg List.length h.bytes
  have hin := h.inside
  simp only [List.length_drop, CharVector.size] at hlen hin ⊢
  omega

theorem Holds.append
    {host : Endian}
    {s s' : DataStream}
    {pending : List Value}
    {v : Value}
    (h : Holds host s pending)
    (happ : Appends s s' (v.encode false)) :
    Holds host s' (pending ++ [v]) := by
  have hin := h.inside
  refine ⟨happ.flag.trans h.flag, happ.pos ▸ h.nonneg, ?_, ?_⟩
  · rw [happ.pos, happ.size_eq]
    omega
  · rw [happ.pos, happ.elems, List.drop_append_of_le_length hin, h.bytes,
      Value.encodeAll_append]
    simp [Value.encodeAll]

/-- The bytes from `_pos` on, as a reader meets them. -/
theorem Holds.ahead
    {host : Endian}
    {s : DataStream}
    {v : Value}
    {pending : List Value}
    (h : Holds host s (v :: pending)) :
    Ahead s (v.encode false) := by
  refine ⟨h.nonneg, (Value.encodeAll false pending).map some ++ s.buf.spare, ?_⟩
  have hin : s.pos.toNat ≤ (s.buf.elems.map some).length := by
    rw [List.length_map]
    exact h.inside
  rw [CharVector.storage, List.drop_append_of_le_length hin, ← List.map_drop, h.bytes]
  simp [Value.encodeAll]

theorem Holds.skip
    {host : Endian}
    {s : DataStream}
    {v : Value}
    {pending : List Value}
    (h : Holds host s (v :: pending)) :
    Holds host (s.skip (v.encode false).length) pending := by
  have hpos : (s.skip (v.encode false).length).pos.toNat =
      s.pos.toNat + (v.encode false).length := by
    have := h.nonneg
    simp only [DataStream.skip]
    omega
  have hsize := h.size_eq
  simp only [Value.encodeAll, List.length_append] at hsize
  refine ⟨h.flag, ?_, ?_, ?_⟩
  · have := h.nonneg
    simp only [DataStream.skip]
    omega
  · rw [hpos, skip_buf]
    omega
  · rw [hpos, skip_buf, ← List.drop_drop, h.bytes]
    simp [Value.encodeAll]

/-- A write in a state that holds `pending`. -/
theorem Holds.write
    {s : DataStream}
    {pending : List Value}
    {T : Ty}
    {v : T.Val}
    (h : Holds P.host s pending)
    (hroom : s.buf.size + ((T.tree v).encode false).length < 2 ^ 31) :
    ∃ s', T.write P.host s v = .ok s' ∧ Appends s s' ((T.tree v).encode false) ∧
      Holds P.host s' (pending ++ [T.tree v]) := by
  have hflag : (s.isBigEndian != P.host.isBig) = false := by simp [h.flag]
  obtain ⟨s', hs', happ⟩ := Ty.write_encodes T v s hflag hroom
  exact ⟨s', hs', happ, h.append happ⟩

/-- A read in a state whose oldest value has the content of `v`. -/
theorem Holds.read
    {s : DataStream}
    {pending : List Value}
    {T : Ty}
    {v : T.Val}
    (h : Holds P.host s (T.tree v :: pending))
    (hsize : s.buf.size < 2 ^ 31) :
    T.read P s (P.init T) =
      .ok ⟨true, T.merge P (P.init T) v, s.skip ((T.tree v).encode false).length⟩ := by
  have hflag : (s.isBigEndian != P.host.isBig) = false := by simp [h.flag]
  have hlen := h.size_eq
  simp only [Value.encodeAll, List.length_append] at hlen
  exact Ty.read_encoded P T _ v (by omega) s hflag h.ahead

/-- The run of a schedule, from a state that holds what is pending. -/
theorem fifoRun_of_holds :
    ∀ {ops : List Op} {s : DataStream} {pending : List Value},
      Holds P.host s pending → Schedule ops pending →
        s.buf.size + (Value.encodeAll false (written ops)).length < 2 ^ 31 →
        (FifoRun P ops s ↔ ∀ T v, Op.read T v ∈ ops → T.Absorbs P v)
  | [], _, _, _, _, _ => by simp [FifoRun]
  | .write T v :: ops, s, pending, hholds, hsched, hsize => by
      simp only [written, Value.encodeAll, List.length_append] at hsize
      obtain ⟨t, ht, happ, hnext⟩ := hholds.write (P := P) (T := T) (v := v) (by omega)
      have ih := fifoRun_of_holds hnext hsched (by rw [happ.size_eq]; omega)
      constructor
      · rintro ⟨t', ht', _, hrun⟩ U w hmem
        rw [ht] at ht'
        cases ht'
        refine ih.mp hrun U w ?_
        simpa using hmem
      · intro h
        exact ⟨t, ht, happ, ih.mpr fun U w hmem => h U w (by simp [hmem])⟩
  | .read T v :: ops, s, pending, hholds, hsched, hsize => by
      obtain ⟨rest, rfl, hsched⟩ := hsched
      have hread := hholds.read (by omega)
      have ih := fifoRun_of_holds hholds.skip hsched hsize
      constructor
      · rintro ⟨r, hr, _, hsame, hskip, hrun⟩ U w hmem
        rw [hread] at hr
        cases hr
        rcases List.mem_cons.mp hmem with hhead | hmem
        · cases hhead
          exact hsame
        · exact ih.mp hrun U w hmem
      · intro h
        exact ⟨_, hread, rfl, h T v (by simp), rfl,
          ih.mpr fun U w hmem => h U w (by simp [hmem])⟩

end Run

/-- A run starts on an empty stream of the host. -/
theorem fifoRun_iff
    (P : Program)
    {ops : List Op}
    (hsched : Schedule ops [])
    (hsize : (Value.encodeAll false (written ops)).length < 2 ^ 31) :
    FifoRun P ops (DataStream.empty P.host) ↔
      ∀ T v, Op.read T v ∈ ops → T.Absorbs P v := by
  refine fifoRun_of_holds (holds_empty P.host) hsched ?_
  simpa [DataStream.empty, CharVector.size] using hsize

/-- Every run whose reads ask for the given types, within the size limit. -/
def AlwaysFifo (P : Program) (Ts : List Ty) : Prop :=
  ∀ ops, Schedule ops [] → (Value.encodeAll false (written ops)).length < 2 ^ 31 →
    (∀ T v, Op.read T v ∈ ops → T ∈ Ts ∧ T.WellKeyed P v) →
      FifoRun P ops (DataStream.empty P.host)

/-- The run that writes a value and reads it back. -/
theorem absorbs_of_alwaysFifo
    {P : Program}
    {Ts : List Ty}
    (h : AlwaysFifo P Ts)
    {T : Ty}
    (hT : T ∈ Ts)
    {v : T.Val}
    (hkeys : T.WellKeyed P v)
    (hsize : ((T.tree v).encode false).length < 2 ^ 31) :
    T.Absorbs P v := by
  have hsched : Schedule [.write T v, .read T v] [] := by simp [Schedule]
  have htotal : (Value.encodeAll false (written [.write T v, .read T v])).length < 2 ^ 31 := by
    simpa [written, Value.encodeAll] using hsize
  have hreads : ∀ U w, Op.read U w ∈ [Op.write T v, .read T v] → U ∈ Ts ∧ U.WellKeyed P w := by
    intro U w hmem
    have hmem : Op.read U w = Op.read T v := by simpa using hmem
    cases hmem
    exact ⟨hT, hkeys⟩
  exact (fifoRun_iff P hsched htotal).mp (h _ hsched htotal hreads) T v (by simp)

/-- **When a stream is a queue of typed values.**  A run is one exactly when each
value read absorbs its default-constructed target, and every run over given types
is one exactly when their default objects hold no elements. -/
theorem stream_is_fifo_iff
    (P : Program)
    (hlaw : P.KeyLaw) :
    (∀ ops, Schedule ops [] → (Value.encodeAll false (written ops)).length < 2 ^ 31 →
      (FifoRun P ops (DataStream.empty P.host) ↔
        ∀ T v, Op.read T v ∈ ops → T.Absorbs P v)) ∧
    (∀ Ts, (∀ T ∈ Ts, T.EmptyDefaults P) → AlwaysFifo P Ts) ∧
    ∀ Ts, (∀ T ∈ Ts, T.span < 2 ^ 31) → AlwaysFifo P Ts → ∀ T ∈ Ts, T.EmptyDefaults P := by
  refine ⟨fun ops hsched hsize => fifoRun_iff P hsched hsize, ?_, ?_⟩
  · intro Ts hdefaults ops hsched hsize hreads
    refine (fifoRun_iff P hsched hsize).mpr fun T v hmem => ?_
    obtain ⟨hT, hkeys⟩ := hreads T v hmem
    exact Ty.absorbs_of_emptyDefaults hlaw (hdefaults T hT) hkeys
  · intro Ts hspan h T hT
    refine Ty.emptyDefaults_of_absorbs fun v hv => ?_
    have hfit := hspan T hT
    exact absorbs_of_alwaysFifo h hT hv.1 (by have := hv.2; omega)

/-- A `Seeded` that holds 2 is written and read back. -/
def seededRun : List Op :=
  [.write .seeded (([2] : List (BitVec 32)), ()), .read .seeded (([2] : List (BitVec 32)), ())]

/-- The run follows its schedule with lawful keys, and the read yields 1 and 2. -/
theorem seededRun_not_fifo :
    Program.seeded.KeyLaw ∧ Schedule seededRun [] ∧
      (Value.encodeAll false (written seededRun)).length < 2 ^ 31 ∧
      (∀ T v, Op.read T v ∈ seededRun → T.WellKeyed Program.seeded v) ∧
      ¬ FifoRun Program.seeded seededRun (DataStream.empty .little) := by
  have hsched : Schedule seededRun [] := by simp [seededRun, Schedule]
  have hsize : (Value.encodeAll false (written seededRun)).length < 2 ^ 31 := by decide
  refine ⟨Program.seeded_keyLaw, hsched, hsize, ?_, ?_⟩
  · intro T v hmem
    have hmem : Op.read T v = .read .seeded (([2] : List (BitVec 32)), ()) := by
      simpa [seededRun] using hmem
    cases hmem
    exact ⟨⟨List.pairwise_singleton _ _, fun _ _ => trivial⟩, trivial⟩
  · intro hrun
    have habsorbs := (fifoRun_iff Program.seeded hsched hsize).mp hrun
    exact Ty.seeded_not_absorbs (habsorbs _ _ (by simp [seededRun]))

/-- A map, a hash set and a nested stream in a program without classes of its own. -/
theorem plain_stream_is_fifo :
    AlwaysFifo (Program.plain .little)
      [.map .string (.vector .int32), .unorderedSet .int64, .dataStream] := by
  refine (stream_is_fifo_iff _ (Program.plain_keyLaw .little)).2.1 _ fun T hT => ?_
  simp only [List.mem_cons, List.not_mem_nil, or_false] at hT
  rcases hT with rfl | rfl | rfl
  · exact ⟨rfl, ⟨trivial, trivial⟩, trivial, trivial, trivial⟩
  · exact ⟨rfl, trivial, trivial⟩
  · exact ⟨⟨trivial, trivial, trivial, trivial⟩, trivial, ⟨trivial, trivial⟩, trivial, trivial⟩

end Serial
end ZeroRPC
