import ZeroRPC.Serial.Encoding

/-!
# What the target of a read holds before it

`read` clears a `vector` and a `list` but only adds to a set or a map, so a value
arrives unchanged exactly when its target brings no other elements along.  The
target of `get` and of every loop over elements is default-constructed: its sets
and maps are empty unless a class gives one of its members an initialiser.

Main facts:
* `Ty.merge_same`: when nothing is held by the target nor by the default objects
  of the element types, the value read is the value written;
* `Ty.absorbs_of_emptyDefaults`: so it is for a default-constructed target;
* `Ty.emptyDefaults_of_absorbs`: conversely, a type whose values all arrive
  unchanged has default objects without elements.
-/

namespace ZeroRPC
namespace Serial

open Library

/-! ### Keys -/

/-- Equality of keys, by order or by hash, is symmetric and respects equality of
values. -/
structure Program.KeyLaw (P : Program) : Prop where
  symm : ∀ (t : Table) (K : Ty) (x y : K.Val), P.sameKey t K x y = P.sameKey t K y x
  congr : ∀ (t : Table) (K : Ty) (x x' y y' : K.Val),
    K.Same x x' → K.Same y y' → P.sameKey t K x y = P.sameKey t K x' y'

/-- Every element of the list has the property. -/
def AllIn {α : Type} (p : α → Prop) (xs : List α) : Prop := ∀ x ∈ xs, p x

mutual
/-- Every set and every map in the value has pairwise different keys. -/
def Ty.WellKeyed (P : Program) : (T : Ty) → T.Val → Prop
  | .bool, _ => True
  | .char, _ => True
  | .int32, _ => True
  | .int64, _ => True
  | .float, _ => True
  | .double, _ => True
  | .string, _ => True
  | .vector T, xs => AllIn (T.WellKeyed P) xs
  | .list T, xs => AllIn (T.WellKeyed P) xs
  | .set T, xs =>
      List.Pairwise (fun x y => P.sameKey .ordered T x y = false) xs ∧
        AllIn (T.WellKeyed P) xs
  | .map K V, es =>
      List.Pairwise (fun e f => P.sameKey .ordered K e.1 f.1 = false) es ∧
        AllIn (fun e => K.WellKeyed P e.1 ∧ V.WellKeyed P e.2) es
  | .unorderedSet T, xs =>
      List.Pairwise (fun x y => P.sameKey .unordered T x y = false) xs ∧
        AllIn (T.WellKeyed P) xs
  | .unorderedMap K V, es =>
      List.Pairwise (fun e f => P.sameKey .unordered K e.1 f.1 = false) es ∧
        AllIn (fun e => K.WellKeyed P e.1 ∧ V.WellKeyed P e.2) es
  | .user _ Ts, vs => Ty.WellKeyedAll P Ts vs

/-- The same for the members of a class. -/
def Ty.WellKeyedAll (P : Program) : (Ts : List Ty) → Ty.Tuple Ts → Prop
  | [], _ => True
  | T :: Ts, (v, vs) => T.WellKeyed P v ∧ Ty.WellKeyedAll P Ts vs
end

/-! ### Targets without elements -/

mutual
/-- The sets and maps of the object are empty. -/
def Ty.Blank : (T : Ty) → T.Val → Prop
  | .bool, _ => True
  | .char, _ => True
  | .int32, _ => True
  | .int64, _ => True
  | .float, _ => True
  | .double, _ => True
  | .string, _ => True
  | .vector _, _ => True
  | .list _, _ => True
  | .set T, xs => xs = ([] : List T.Val)
  | .map K V, es => es = ([] : List (K.Val × V.Val))
  | .unorderedSet T, xs => xs = ([] : List T.Val)
  | .unorderedMap K V, es => es = ([] : List (K.Val × V.Val))
  | .user _ Ts, vs => Ty.BlankAll Ts vs

/-- The same for the members of a class. -/
def Ty.BlankAll : (Ts : List Ty) → Ty.Tuple Ts → Prop
  | [], _ => True
  | T :: Ts, (v, vs) => T.Blank v ∧ Ty.BlankAll Ts vs
end

mutual
/-- The default-constructed elements of the containers inside a type are blank. -/
def Ty.Clean (P : Program) : Ty → Prop
  | .bool => True
  | .char => True
  | .int32 => True
  | .int64 => True
  | .float => True
  | .double => True
  | .string => True
  | .vector T => T.Blank (P.init T) ∧ T.Clean P
  | .list T => T.Blank (P.init T) ∧ T.Clean P
  | .set T => T.Blank (P.init T) ∧ T.Clean P
  | .map K V =>
      (K.Blank (P.init K) ∧ K.Clean P) ∧ V.Blank (P.init V) ∧ V.Clean P
  | .unorderedSet T => T.Blank (P.init T) ∧ T.Clean P
  | .unorderedMap K V =>
      (K.Blank (P.init K) ∧ K.Clean P) ∧ V.Blank (P.init V) ∧ V.Clean P
  | .user _ Ts => Ty.CleanAll P Ts

/-- The same for the members of a class. -/
def Ty.CleanAll (P : Program) : List Ty → Prop
  | [] => True
  | T :: Ts => T.Clean P ∧ Ty.CleanAll P Ts
end

/-- Neither a default-constructed object of the type nor one of its element types
holds an element. -/
def Ty.EmptyDefaults (P : Program) (T : Ty) : Prop :=
  T.Blank (P.init T) ∧ T.Clean P

/-- Uniting the value with a default-constructed object of its type leaves the
value. -/
def Ty.Absorbs (P : Program) (T : Ty) (v : T.Val) : Prop :=
  T.Same (T.merge P (P.init T) v) v

section Merge

variable {P : Program}

theorem forall₂_map_same {α : Type} {R : α → α → Prop} {g : α → α} {xs : List α}
    (h : ∀ x ∈ xs, R (g x) x) :
    List.Forall₂ R (xs.map g) xs := by
  rw [List.forall₂_map_left_iff]
  exact List.forall₂_same.mpr h

/-- A set read into an empty one. -/
theorem insert_all_same
    (hlaw : P.KeyLaw)
    {T : Ty}
    {t : Table}
    {g : T.Val → T.Val}
    {xs : List T.Val}
    (hg : ∀ x ∈ xs, T.Same (g x) x)
    (hapart : xs.Pairwise fun x y => P.sameKey t T x y = false) :
    SameElements T.Same (List.foldl (P.insert t T) [] (xs.map g)) xs := by
  refine upsertAll_map_sameElements (P.place_placement T id t) hg ?_
  refine List.Pairwise.imp_of_mem (fun {a b} ha hb hab => ?_) hapart
  rw [hlaw.congr t T _ _ _ _ (hg b hb) (hg a ha), hlaw.symm]
  exact hab

/-- A map read into an empty one. -/
theorem assign_all_same
    (hlaw : P.KeyLaw)
    {K V : Ty}
    {t : Table}
    {g : K.Val × V.Val → K.Val × V.Val}
    {es : List (K.Val × V.Val)}
    (hg : ∀ e ∈ es, K.Same (g e).1 e.1 ∧ V.Same (g e).2 e.2)
    (hapart : es.Pairwise fun e f => P.sameKey t K e.1 f.1 = false) :
    SameElements (fun e f => K.Same e.1 f.1 ∧ V.Same e.2 f.2)
      (List.foldl (P.assign t K V) [] (es.map g)) es := by
  refine upsertAll_map_sameElements (P.place_placement K Prod.fst t) hg ?_
  refine List.Pairwise.imp_of_mem (fun {e f} he hf hef => ?_) hapart
  rw [hlaw.congr t K _ _ _ _ (hg f hf).1 (hg e he).1, hlaw.symm]
  exact hef

theorem Ty.mergeAll_same :
    ∀ {Ts : List Ty},
      (∀ T ∈ Ts, ∀ t v : T.Val, T.Clean P → T.Blank t → T.WellKeyed P v →
        T.Same (T.merge P t v) v) →
      ∀ ts vs : Ty.Tuple Ts, Ty.CleanAll P Ts → Ty.BlankAll Ts ts → Ty.WellKeyedAll P Ts vs →
        Ty.SameAll Ts (Ty.mergeAll P Ts ts vs) vs
  | [], _, _, _, _, _, _ => trivial
  | T :: Ts, h, (t, ts), (v, vs), hclean, hblank, hkeys =>
      ⟨h T (by simp) t v hclean.1 hblank.1 hkeys.1,
        Ty.mergeAll_same (fun U hU => h U (by simp [hU])) ts vs hclean.2 hblank.2 hkeys.2⟩

/-- **A value read into a target without elements arrives unchanged.** -/
theorem Ty.merge_same (hlaw : P.KeyLaw) (T : Ty) :
    ∀ t v : T.Val, T.Clean P → T.Blank t → T.WellKeyed P v → T.Same (T.merge P t v) v := by
  induction T using Ty.induct with
  | vector T ih =>
      exact fun t xs hclean _ hkeys =>
        forall₂_map_same fun x hx => ih _ x hclean.2 hclean.1 (hkeys x hx)
  | list T ih =>
      exact fun t xs hclean _ hkeys =>
        forall₂_map_same fun x hx => ih _ x hclean.2 hclean.1 (hkeys x hx)
  | set T ih =>
      rintro t xs hclean rfl hkeys
      exact insert_all_same hlaw (fun x hx => ih _ x hclean.2 hclean.1 (hkeys.2 x hx)) hkeys.1
  | map K V ihK ihV =>
      rintro t es hclean rfl hkeys
      exact assign_all_same hlaw
        (fun e he =>
          ⟨ihK _ e.1 hclean.1.2 hclean.1.1 (hkeys.2 e he).1,
            ihV _ e.2 hclean.2.2 hclean.2.1 (hkeys.2 e he).2⟩) hkeys.1
  | unorderedSet T ih =>
      rintro t xs hclean rfl hkeys
      exact insert_all_same hlaw (fun x hx => ih _ x hclean.2 hclean.1 (hkeys.2 x hx)) hkeys.1
  | unorderedMap K V ihK ihV =>
      rintro t es hclean rfl hkeys
      exact assign_all_same hlaw
        (fun e he =>
          ⟨ihK _ e.1 hclean.1.2 hclean.1.1 (hkeys.2 e he).1,
            ihV _ e.2 hclean.2.2 hclean.2.1 (hkeys.2 e he).2⟩) hkeys.1
  | user cls Ts ih => exact Ty.mergeAll_same ih
  | _ => exact fun _ _ _ _ _ => rfl

theorem Ty.absorbs_of_emptyDefaults
    (hlaw : P.KeyLaw)
    {T : Ty}
    (h : T.EmptyDefaults P)
    {v : T.Val}
    (hv : T.WellKeyed P v) :
    T.Absorbs P v :=
  Ty.merge_same hlaw T _ v h.2 h.1 hv

end Merge

/-! ### Types whose values all arrive unchanged -/

mutual
/-- A small value of the type, without elements. -/
def Ty.bare : (T : Ty) → T.Val
  | .bool => false
  | .char => (0 : UInt8)
  | .int32 => (0 : BitVec 32)
  | .int64 => (0 : BitVec 64)
  | .float => (0 : BitVec 32)
  | .double => (0 : BitVec 64)
  | .string => ([] : List UInt8)
  | .vector T => ([] : List T.Val)
  | .list T => ([] : List T.Val)
  | .set T => ([] : List T.Val)
  | .map K V => ([] : List (K.Val × V.Val))
  | .unorderedSet T => ([] : List T.Val)
  | .unorderedMap K V => ([] : List (K.Val × V.Val))
  | .user _ Ts => Ty.bareAll Ts

/-- One for each type of a list. -/
def Ty.bareAll : (Ts : List Ty) → Ty.Tuple Ts
  | [] => ()
  | T :: Ts => (T.bare, Ty.bareAll Ts)
end

mutual
/-- Room for the encoding of a value of the type with one element in each
container. -/
def Ty.span : Ty → Nat
  | .bool => 9
  | .char => 9
  | .int32 => 9
  | .int64 => 9
  | .float => 9
  | .double => 9
  | .string => 9
  | .vector T => 6 + T.span
  | .list T => 6 + T.span
  | .set T => 6 + T.span
  | .map K V => 6 + (K.span + V.span)
  | .unorderedSet T => 6 + T.span
  | .unorderedMap K V => 6 + (K.span + V.span)
  | .user _ Ts => 1 + Ty.spanAll Ts

/-- The same for the members of a class. -/
def Ty.spanAll : List Ty → Nat
  | [] => 0
  | T :: Ts => T.span + Ty.spanAll Ts
end

/-- A well-keyed value whose encoding fits the span of its type. -/
def Ty.Small (P : Program) (T : Ty) (v : T.Val) : Prop :=
  T.WellKeyed P v ∧ ((T.tree v).encode false).length ≤ T.span

/-- The same for the members of a class. -/
def Ty.SmallAll (P : Program) (Ts : List Ty) (vs : Ty.Tuple Ts) : Prop :=
  Ty.WellKeyedAll P Ts vs ∧ (Value.encodeAll false (Ty.trees Ts vs)).length ≤ Ty.spanAll Ts

section Probes

variable {P : Program}

theorem Ty.bareAll_small :
    ∀ {Ts : List Ty}, (∀ T ∈ Ts, T.Small P T.bare) → Ty.SmallAll P Ts (Ty.bareAll Ts)
  | [], _ => ⟨trivial, by simp [Ty.trees, Value.encodeAll]⟩
  | T :: Ts, h => by
      have hT : T.Small P T.bare := h T (by simp)
      have hTs : Ty.SmallAll P Ts (Ty.bareAll Ts) := Ty.bareAll_small fun U hU => h U (by simp [hU])
      refine ⟨⟨hT.1, hTs.1⟩, ?_⟩
      have hlen₁ := hT.2
      have hlen₂ := hTs.2
      simp only [Ty.bareAll, Ty.trees, Value.encodeAll, List.length_append, Ty.spanAll]
      omega

theorem Ty.bare_small (T : Ty) : T.Small P T.bare := by
  induction T using Ty.induct with
  | user cls Ts ih =>
      have h : Ty.SmallAll P Ts (Ty.bareAll Ts) := Ty.bareAll_small ih
      refine ⟨h.1, ?_⟩
      have hlen := h.2
      simp only [Ty.bare, Ty.tree, Value.encode, List.length_cons, Ty.span]
      omega
  | bool => exact ⟨trivial, by decide⟩
  | char => exact ⟨trivial, by decide⟩
  | int32 => exact ⟨trivial, by decide⟩
  | int64 => exact ⟨trivial, by decide⟩
  | float => exact ⟨trivial, by decide⟩
  | double => exact ⟨trivial, by decide⟩
  | string => exact ⟨trivial, by decide⟩
  | vector T ih =>
      exact ⟨fun x hx => absurd hx List.not_mem_nil, Nat.le_add_right 6 T.span⟩
  | list T ih =>
      exact ⟨fun x hx => absurd hx List.not_mem_nil, Nat.le_add_right 6 T.span⟩
  | set T ih =>
      exact ⟨⟨.nil, fun x hx => absurd hx List.not_mem_nil⟩, Nat.le_add_right 6 T.span⟩
  | map K V ihK ihV =>
      exact ⟨⟨.nil, fun x hx => absurd hx List.not_mem_nil⟩, Nat.le_add_right 6 _⟩
  | unorderedSet T ih =>
      exact ⟨⟨.nil, fun x hx => absurd hx List.not_mem_nil⟩, Nat.le_add_right 6 T.span⟩
  | unorderedMap K V ihK ihV =>
      exact ⟨⟨.nil, fun x hx => absurd hx List.not_mem_nil⟩, Nat.le_add_right 6 _⟩

theorem Ty.blankAll_of_merge_bare :
    ∀ {Ts : List Ty},
      (∀ T ∈ Ts, ∀ t : T.Val, T.Same (T.merge P t T.bare) T.bare → T.Blank t) →
      ∀ ts : Ty.Tuple Ts,
        Ty.SameAll Ts (Ty.mergeAll P Ts ts (Ty.bareAll Ts)) (Ty.bareAll Ts) → Ty.BlankAll Ts ts
  | [], _, _, _ => trivial
  | T :: Ts, h, (t, ts), hs =>
      ⟨h T (by simp) t hs.1,
        Ty.blankAll_of_merge_bare (fun U hU => h U (by simp [hU])) ts hs.2⟩

/-- A target that leaves an empty value empty holds nothing. -/
theorem Ty.blank_of_merge_bare (T : Ty) :
    ∀ t : T.Val, T.Same (T.merge P t T.bare) T.bare → T.Blank t := by
  induction T using Ty.induct with
  | set T ih => exact fun t h => SameElements.eq_nil h
  | map K V ihK ihV => exact fun t h => SameElements.eq_nil h
  | unorderedSet T ih => exact fun t h => SameElements.eq_nil h
  | unorderedMap K V ihK ihV => exact fun t h => SameElements.eq_nil h
  | user cls Ts ih => exact Ty.blankAll_of_merge_bare ih
  | _ => exact fun _ _ => trivial

/-- A single element inserted into an empty set is the whole set. -/
theorem insert_one_same
    {T : Ty}
    {t : Table}
    {x y : T.Val}
    (h : SameElements T.Same (P.insert t T [] x) [y]) :
    T.Same x y := by
  have hx : x ∈ P.insert t T [] x :=
    (P.place_placement T id t [] x).mem_iff.mpr (by simp)
  obtain ⟨z, hz, hsame⟩ := h.1 x hx
  rwa [List.mem_singleton.mp hz] at hsame

/-- A single entry assigned in an empty map is the whole map. -/
theorem assign_one_same
    {K V : Ty}
    {t : Table}
    {e f : K.Val × V.Val}
    (h : SameElements (fun e f => K.Same e.1 f.1 ∧ V.Same e.2 f.2) (P.assign t K V [] e) [f]) :
    K.Same e.1 f.1 ∧ V.Same e.2 f.2 := by
  have he : e ∈ P.assign t K V [] e :=
    (P.place_placement K Prod.fst t [] e).mem_iff.mpr (by simp)
  obtain ⟨g, hg, hsame⟩ := h.1 e he
  rwa [List.mem_singleton.mp hg] at hsame

/-- A container of one small element. -/
theorem single_small
    {T : Ty}
    {v : T.Val}
    (tag : DataType)
    (h : T.Small P v) :
    AllIn (T.WellKeyed P) [v] ∧
      (tag.code :: (encodeLength false 1 ++
        Value.encodeAll false [T.tree v])).length ≤ 6 + T.span := by
  refine ⟨fun x hx => List.mem_singleton.mp hx ▸ h.1, ?_⟩
  have hlen := h.2
  simp only [List.length_cons, List.length_append, encodeLength_length, Value.encodeAll,
    List.length_nil]
  omega

/-- A map of one small entry. -/
theorem single_entry_small
    {K V : Ty}
    {k : K.Val}
    {v : V.Val}
    (hk : K.Small P k)
    (hv : V.Small P v) :
    AllIn (fun e : K.Val × V.Val => K.WellKeyed P e.1 ∧ V.WellKeyed P e.2) [(k, v)] ∧
      (DataType.map.code :: (encodeLength false 1 ++
        Value.encodeAll false [.entry (K.tree k) (V.tree v)])).length ≤
          6 + (K.span + V.span) := by
  refine ⟨fun e he => List.mem_singleton.mp he ▸ ⟨hk.1, hv.1⟩, ?_⟩
  have hlenK := hk.2
  have hlenV := hv.2
  simp only [List.length_cons, List.length_append, encodeLength_length, Value.encodeAll,
    Value.encode, List.length_nil]
  omega

/-- What is to be shown of a type, as a hypothesis about its element types. -/
def Ty.CleanOfMerge (P : Program) (T : Ty) : Prop :=
  ∀ t : T.Val, T.Blank t → (∀ v, T.Small P v → T.Same (T.merge P t v) v) → T.Clean P

theorem Ty.CleanOfMerge.emptyDefaults
    {T : Ty}
    (ih : T.CleanOfMerge P)
    (h : ∀ v, T.Small P v → T.Absorbs P v) :
    T.Blank (P.init T) ∧ T.Clean P := by
  have hblank : T.Blank (P.init T) := T.blank_of_merge_bare _ (h _ T.bare_small)
  exact ⟨hblank, ih _ hblank h⟩

theorem Ty.cleanAll_of_merge :
    ∀ {Ts : List Ty}, (∀ T ∈ Ts, T.CleanOfMerge P) →
      ∀ ts : Ty.Tuple Ts, Ty.BlankAll Ts ts →
        (∀ vs, Ty.SmallAll P Ts vs → Ty.SameAll Ts (Ty.mergeAll P Ts ts vs) vs) →
        Ty.CleanAll P Ts
  | [], _, _, _, _ => trivial
  | T :: Ts, ih, (t, ts), hblank, h => by
      have hbare : Ty.SmallAll P Ts (Ty.bareAll Ts) :=
        Ty.bareAll_small fun U _ => U.bare_small
      have hjoin : ∀ {v vs}, T.Small P v → Ty.SmallAll P Ts vs →
          Ty.SmallAll P (T :: Ts) (v, vs) := by
        intro v vs hv hvs
        refine ⟨⟨hv.1, hvs.1⟩, ?_⟩
        have hlen₁ := hv.2
        have hlen₂ := hvs.2
        simp only [Ty.trees, Value.encodeAll, List.length_append, Ty.spanAll]
        omega
      exact ⟨ih T (by simp) t hblank.1 fun v hv => (h (v, _) (hjoin hv hbare)).1,
        Ty.cleanAll_of_merge (fun U hU => ih U (by simp [hU])) ts hblank.2
          fun vs hvs => (h (_, vs) (hjoin T.bare_small hvs)).2⟩

/-- When a target without elements leaves every small value unchanged, the element
types have empty default objects: a container of one element shows it. -/
theorem Ty.clean_of_merge (T : Ty) : T.CleanOfMerge P := by
  induction T using Ty.induct with
  | vector T ih =>
      exact fun t _ h => ih.emptyDefaults fun v hv =>
        (List.forall₂_cons.mp (h [v] (single_small .vector hv))).1
  | list T ih =>
      exact fun t _ h => ih.emptyDefaults fun v hv =>
        (List.forall₂_cons.mp (h [v] (single_small .list hv))).1
  | set T ih =>
      rintro t rfl h
      refine ih.emptyDefaults fun v hv => insert_one_same (P := P) (t := .ordered) (h [v] ?_)
      obtain ⟨hkeys, hlen⟩ := single_small .set hv
      exact ⟨⟨List.pairwise_singleton _ _, hkeys⟩, hlen⟩
  | map K V ihK ihV =>
      rintro t rfl h
      have hentry : ∀ k v, K.Small P k → V.Small P v → K.Absorbs P k ∧ V.Absorbs P v := by
        intro k v hk hv
        obtain ⟨hkeys, hlen⟩ := single_entry_small hk hv
        exact assign_one_same (P := P) (t := .ordered)
          (h [(k, v)] ⟨⟨List.pairwise_singleton _ _, hkeys⟩, hlen⟩)
      exact ⟨ihK.emptyDefaults fun k hk => (hentry k _ hk V.bare_small).1,
        ihV.emptyDefaults fun v hv => (hentry _ v K.bare_small hv).2⟩
  | unorderedSet T ih =>
      rintro t rfl h
      refine ih.emptyDefaults fun v hv => insert_one_same (P := P) (t := .unordered) (h [v] ?_)
      obtain ⟨hkeys, hlen⟩ := single_small .set hv
      exact ⟨⟨List.pairwise_singleton _ _, hkeys⟩, hlen⟩
  | unorderedMap K V ihK ihV =>
      rintro t rfl h
      have hentry : ∀ k v, K.Small P k → V.Small P v → K.Absorbs P k ∧ V.Absorbs P v := by
        intro k v hk hv
        obtain ⟨hkeys, hlen⟩ := single_entry_small hk hv
        exact assign_one_same (P := P) (t := .unordered)
          (h [(k, v)] ⟨⟨List.pairwise_singleton _ _, hkeys⟩, hlen⟩)
      exact ⟨ihK.emptyDefaults fun k hk => (hentry k _ hk V.bare_small).1,
        ihV.emptyDefaults fun v hv => (hentry _ v K.bare_small hv).2⟩
  | user cls Ts ih =>
      refine fun t hblank h => Ty.cleanAll_of_merge ih t hblank fun vs hvs => h vs ⟨hvs.1, ?_⟩
      have hlen := hvs.2
      simp only [Ty.tree, Value.encode, List.length_cons, Ty.span]
      omega
  | _ => exact fun _ _ _ => trivial

theorem Ty.emptyDefaults_of_absorbs
    {T : Ty}
    (h : ∀ v, T.Small P v → T.Absorbs P v) :
    T.EmptyDefaults P :=
  T.clean_of_merge.emptyDefaults h

end Probes

/-! ### A program without classes of its own -/

def stringLess (x y : List UInt8) : Bool := decide (x < y)

/-- `std::less` of the built-in key types. -/
def Ty.less : (K : Ty) → K.Val → K.Val → Bool
  | .bool, x, y => !x && y
  | .char, x, y => decide (UInt8.toInt8 x < UInt8.toInt8 y)
  | .int32, x, y => BitVec.slt x y
  | .int64, x, y => BitVec.slt x y
  | .string, x, y => stringLess x y
  | _, _, _ => false

/-- `==` of the built-in key types. -/
def Ty.equal : (K : Ty) → K.Val → K.Val → Bool
  | .bool, x, y => BEq.beq (α := Bool) x y
  | .char, x, y => BEq.beq (α := UInt8) x y
  | .int32, x, y => BEq.beq (α := BitVec 32) x y
  | .int64, x, y => BEq.beq (α := BitVec 64) x y
  | .string, x, y => BEq.beq (α := List UInt8) x y
  | _, _, _ => false

/-- A program that uses built-in key types only, on the given host. -/
def Program.plain (host : Endian) : Program where
  host := host
  less := Ty.less
  hashEqual := Ty.equal
  bucket := fun _ xs x => x :: xs
  bucket_placement := fun _ xs x => .refl (x :: xs)
  init := Ty.bare
  init_string := rfl
  init_vector := fun _ => rfl
  init_list := fun _ => rfl
  init_set := fun _ => rfl
  init_map := fun _ _ => rfl
  init_unorderedSet := fun _ => rfl
  init_unorderedMap := fun _ _ => rfl

theorem Program.plain_keyLaw (host : Endian) : (Program.plain host).KeyLaw where
  symm := by
    intro t K x y
    cases t with
    | ordered => exact Bool.and_comm _ _
    | unordered =>
        cases K with
        | bool => exact BEq.comm (α := Bool)
        | char => exact BEq.comm (α := UInt8)
        | int32 => exact BEq.comm (α := BitVec 32)
        | int64 => exact BEq.comm (α := BitVec 64)
        | string => exact BEq.comm (α := List UInt8)
        | _ => rfl
  congr := by
    intro t K x x' y y' hx hy
    -- keys of the built-in types are the same only when equal
    cases K with
    | bool => cases hx; cases hy; rfl
    | char => cases hx; cases hy; rfl
    | int32 => cases hx; cases hy; rfl
    | int64 => cases hx; cases hy; rfl
    | string => cases hx; cases hy; rfl
    | _ => cases t <;> rfl

/-- `struct Seeded` with the member `std::set<int32_t> s = {1}`. -/
def Ty.seeded : Ty := .user "Seeded" [.set .int32]

/-- Default-constructed objects of a program that declares `Seeded`. -/
def seededInit : (T : Ty) → T.Val
  | .user "Seeded" [.set .int32] => (([1] : List (BitVec 32)), ())
  | T => T.bare

/-- A program that declares `Seeded`. -/
def Program.seeded : Program :=
  { Program.plain .little with
    init := seededInit
    init_string := rfl
    init_vector := fun _ => rfl
    init_list := fun _ => rfl
    init_set := fun _ => rfl
    init_map := fun _ _ => rfl
    init_unorderedSet := fun _ => rfl
    init_unorderedMap := fun _ _ => rfl }

theorem Program.seeded_keyLaw : Program.seeded.KeyLaw where
  symm := (Program.plain_keyLaw .little).symm
  congr := (Program.plain_keyLaw .little).congr

/-- The member keeps its 1 when a set without it is read. -/
theorem Ty.seeded_not_absorbs :
    ¬ Ty.seeded.Absorbs Program.seeded (([2] : List (BitVec 32)), ()) := by
  intro h
  have hset : SameElements Eq ([1, 2] : List (BitVec 32)) [2] := h.1
  obtain ⟨y, hy, hone⟩ := hset.1 1 (by simp)
  rw [List.mem_singleton.mp hy] at hone
  exact absurd hone (by decide)

end Serial
end ZeroRPC
