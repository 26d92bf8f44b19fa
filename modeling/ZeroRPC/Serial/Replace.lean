import ZeroRPC.Serial.RoundTrip

/-!
# Whether a read replaces its target

The readers of `vector` and `list` clear the target, those of strings and numbers assign
it; the readers of sets and maps, ordered or not, only add to what is there.  A class is
read into the members of the target one by one.

Main facts:
* `Ty.merge_same_of_overwrites`: for a type that holds no set or map outside a vector or
  a list, what is read does not depend on the target;
* `Ty.overwrites_of_merge_bare`: for any other an empty value shows the target;
* `read_replaces_iff`: reads of a type replace their target exactly when it is of the
  first kind.
-/

namespace ZeroRPC
namespace Serial

open Library

mutual
/-- There is no set and no map in the type, except inside a vector or a list. -/
def Ty.Overwrites : Ty → Prop
  | .bool => True
  | .char => True
  | .int32 => True
  | .int64 => True
  | .float => True
  | .double => True
  | .string => True
  | .vector _ => True
  | .list _ => True
  | .set _ => False
  | .map _ _ => False
  | .unorderedSet _ => False
  | .unorderedMap _ _ => False
  | .user _ Ts => Ty.OverwritesAll Ts

/-- The same for the members of a class. -/
def Ty.OverwritesAll : List Ty → Prop
  | [] => True
  | T :: Ts => T.Overwrites ∧ Ty.OverwritesAll Ts
end

/-- Two reads of one encoding, into different targets, leave the same value and the same
stream. -/
def Ty.ReadsAlike (P : Program) (T : Ty) (s : DataStream) (t t' : T.Val) : Prop :=
  ∃ r r', T.read P s t = .ok r ∧ T.read P s t' = .ok r' ∧
    T.Same r.value r'.value ∧ r.stream = r'.stream

/-- Before the stream is an encoding of the value, in the byte order of its flag. -/
def Ty.EncodedAt (P : Program) (T : Ty) (v : T.Val) (s : DataStream) : Prop :=
  ((T.tree v).encode (s.isBigEndian != P.host.isBig)).length < 2 ^ 31 ∧
    Ahead s ((T.tree v).encode (s.isBigEndian != P.host.isBig))

/-- At every encoding of a value, reads into any two targets are alike. -/
def Ty.Replaces (P : Program) (T : Ty) : Prop :=
  ∀ (v : T.Val) (s : DataStream), T.EncodedAt P v s → ∀ t t' : T.Val, T.ReadsAlike P s t t'

section Replace

variable {P : Program}

/-- What two reads of one encoding leave. -/
theorem Ty.readsAlike_iff
    {T : Ty}
    {v : T.Val}
    {s : DataStream}
    (h : T.EncodedAt P v s)
    (t t' : T.Val) :
    T.ReadsAlike P s t t' ↔ T.Same (T.merge P t v) (T.merge P t' v) := by
  have hread : T.read P s t = _ := Ty.read_encoded P T t v h.1 s rfl h.2
  have hread' : T.read P s t' = _ := Ty.read_encoded P T t' v h.1 s rfl h.2
  constructor
  · rintro ⟨r, r', hr, hr', hsame, -⟩
    rw [hread] at hr
    rw [hread'] at hr'
    cases hr
    cases hr'
    exact hsame
  · exact fun hsame => ⟨_, _, hread, hread', hsame, rfl⟩

theorem Ty.mergeAll_same_of_overwrites :
    ∀ {Ts : List Ty},
      (∀ T ∈ Ts, T.Overwrites → ∀ t t' v : T.Val, T.Same (T.merge P t v) (T.merge P t' v)) →
      Ty.OverwritesAll Ts → ∀ ts ts' vs : Ty.Tuple Ts,
        Ty.SameAll Ts (Ty.mergeAll P Ts ts vs) (Ty.mergeAll P Ts ts' vs)
  | [], _, _, _, _, _ => trivial
  | T :: _, h, hover, (t, ts), (t', ts'), (v, vs) =>
      ⟨h T (by simp) hover.1 t t' v,
        Ty.mergeAll_same_of_overwrites (fun U hU => h U (by simp [hU])) hover.2 ts ts' vs⟩

/-- **A read of such a type does not show its target.** -/
theorem Ty.merge_same_of_overwrites (T : Ty) :
    T.Overwrites → ∀ t t' v : T.Val, T.Same (T.merge P t v) (T.merge P t' v) := by
  induction T using Ty.induct with
  | vector T ih => exact fun _ _ _ xs => Ty.same_refl (.vector T) (xs.map (T.merge P (P.init T)))
  | list T ih => exact fun _ _ _ xs => Ty.same_refl (.list T) (xs.map (T.merge P (P.init T)))
  | set T ih => exact fun h => h.elim
  | map K V ihK ihV => exact fun h => h.elim
  | unorderedSet T ih => exact fun h => h.elim
  | unorderedMap K V ihK ihV => exact fun h => h.elim
  | user cls Ts ih => exact Ty.mergeAll_same_of_overwrites ih
  | _ => exact fun _ _ _ _ => rfl

/-- Reading an empty value shows whether a type overwrites. -/
def Ty.ShownByBare (P : Program) (T : Ty) : Prop :=
  (∀ t t' : T.Val, T.Same (T.merge P t T.bare) (T.merge P t' T.bare)) → T.Overwrites

theorem Ty.overwritesAll_of_mergeAll_bare :
    ∀ {Ts : List Ty}, (∀ T ∈ Ts, T.ShownByBare P) →
      (∀ ts ts' : Ty.Tuple Ts,
        Ty.SameAll Ts (Ty.mergeAll P Ts ts (Ty.bareAll Ts))
          (Ty.mergeAll P Ts ts' (Ty.bareAll Ts))) →
        Ty.OverwritesAll Ts
  | [], _, _ => trivial
  | T :: Ts, ih, h =>
      ⟨ih T (by simp) fun t t' => (h (t, Ty.bareAll Ts) (t', Ty.bareAll Ts)).1,
        Ty.overwritesAll_of_mergeAll_bare (fun U hU => ih U (by simp [hU]))
          fun ts ts' => (h (T.bare, ts) (T.bare, ts')).2⟩

/-- A list with an element does not hold the same elements as an empty one. -/
theorem not_sameElements_nil
    {α : Type}
    {R : α → α → Prop}
    (x : α) :
    ¬ SameElements R [x] [] := by
  intro h
  cases h.eq_nil

theorem Ty.overwrites_of_merge_bare (T : Ty) : T.ShownByBare P := by
  induction T using Ty.induct with
  | set T ih => exact fun h => not_sameElements_nil T.bare (h [T.bare] [])
  | map K V ihK ihV =>
      exact fun h => not_sameElements_nil (K.bare, V.bare) (h [(K.bare, V.bare)] [])
  | unorderedSet T ih => exact fun h => not_sameElements_nil T.bare (h [T.bare] [])
  | unorderedMap K V ihK ihV =>
      exact fun h => not_sameElements_nil (K.bare, V.bare) (h [(K.bare, V.bare)] [])
  | user cls Ts ih => exact Ty.overwritesAll_of_mergeAll_bare ih
  | _ => exact fun _ => trivial

/-- A stream that holds an encoding and nothing else. -/
theorem exists_encodedAt
    {T : Ty}
    {v : T.Val}
    (hlen : ((T.tree v).encode false).length < 2 ^ 31) :
    ∃ s, T.EncodedAt P v s := by
  obtain ⟨s, -, hflag, hahead⟩ := load_ahead P.host hlen
  have hswap : (s.isBigEndian != P.host.isBig) = false := by simp [hflag]
  refine ⟨s, ?_, ?_⟩
  · rwa [hswap]
  · rwa [hswap]

end Replace

/-- **When a read replaces its target.**  Two reads of one encoding are alike exactly when
the value united with either target is the same, which for every value and any two targets
is so exactly for types without a set or map outside a vector or a list. -/
theorem read_replaces_iff
    (P : Program) :
    (∀ (T : Ty) (v : T.Val) (s : DataStream), T.EncodedAt P v s → ∀ t t' : T.Val,
      (T.ReadsAlike P s t t' ↔ T.Same (T.merge P t v) (T.merge P t' v))) ∧
    (∀ T : Ty, T.Overwrites → T.Replaces P) ∧
    ∀ T : Ty, T.span < 2 ^ 31 → T.Replaces P → T.Overwrites := by
  refine ⟨fun T v s h t t' => Ty.readsAlike_iff h t t', ?_, ?_⟩
  · intro T hover v s h t t'
    exact (Ty.readsAlike_iff h t t').mpr (T.merge_same_of_overwrites hover t t' v)
  · intro T hspan hreplaces
    have hsmall := (T.bare_small (P := P)).2
    obtain ⟨s, hs⟩ := exists_encodedAt (P := P) (T := T) (v := T.bare) (by omega)
    refine T.overwrites_of_merge_bare (P := P) fun t t' => ?_
    exact (Ty.readsAlike_iff hs t t').mp (hreplaces T.bare s hs t t')

/-- A `std::set<int32_t>` that holds 1, into which a set that holds 2 is read. -/
theorem set_read_keeps_target :
    ¬ ∀ (P : Program) (T : Ty), T.Replaces P := by
  intro h
  obtain ⟨s, hs⟩ := exists_encodedAt (P := Program.plain .little) (T := .set .int32)
    (v := ([2] : List (BitVec 32))) (by decide)
  have halike := h (Program.plain .little) (.set .int32) ([2] : List (BitVec 32)) s hs
    ([] : List (BitVec 32)) ([1] : List (BitVec 32))
  have hset : SameElements Eq ([2] : List (BitVec 32)) [1, 2] :=
    (Ty.readsAlike_iff hs _ _).mp halike
  obtain ⟨x, hx, hone⟩ := hset.2 1 (by simp)
  rw [List.mem_singleton.mp hx] at hone
  exact absurd hone (by decide)

end Serial
end ZeroRPC
