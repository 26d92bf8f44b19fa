import ZeroRPC.Rpc.Call

/-!
# The order in which arguments are read

`std::tuple<Args...>(get<Args>()...)` calls the constructor with the results of the reads
as its arguments, and the language leaves it to the compiler in which order the arguments
of a call are evaluated.  Each read advances the stream, so the order decides which of
the encodings becomes which argument.  The client writes the last argument first.

A signature is a type for each position, an order of evaluation a permutation of the
positions.

Main facts:
* `getArgsIn_rev`: evaluated right to left, `get_args` is the one of the handlers;
* `evalArgs_ahead`: what the reads make of encodings that stand in their order;
* `args_order_iff`: in which orders every call gets its arguments.
-/

namespace ZeroRPC
namespace Rpc

open Library Serial

/-! ### Positions -/

section Positions

variable {n : Nat}

/-- `(ds.write_args(std::get<size - 1 - Is>(tuple)), ...)`, left to right. -/
def writeArgsAt (host : Endian) (sig : Fin n → Ty) (args : ∀ i, Arg (sig i)) (s : DataStream) :
    Except Fault DataStream :=
  (List.finRange n).foldlM (fun s k => (args k.rev).write host s) s

/-- The reads `get<Args>()` at the given positions, one after the other; each result goes to
its position. -/
def evalArgs (P : Program) (sig : Fin n → Ty) :
    List (Fin n) → DataStream → (∀ i, (sig i).Val) →
      Except Fault ((∀ i, (sig i).Val) × DataStream)
  | [], s, vs => .ok (vs, s)
  | i :: order, s, vs => do
      let (v, s) ← (sig i).get P s
      evalArgs P sig order s (Function.update vs i v)

/-- `std::tuple<Args...>(get<Args>()...)` when the `k`-th argument to be evaluated is the one
at `σ k`. -/
def getArgsIn (P : Program) (sig : Fin n → Ty) (σ : Equiv.Perm (Fin n)) (s : DataStream) :
    Except Fault ((∀ i, (sig i).Val) × DataStream) :=
  evalArgs P sig ((List.finRange n).map σ) s fun i => P.init (sig i)

/-- The content of the arguments in the order in which they are written. -/
def sentTrees (sig : Fin n → Ty) (args : ∀ i, Arg (sig i)) : List Value :=
  (List.finRange n).map fun k => (sig k.rev).tree (args k.rev).val

/-- The encodings of the arguments fit into a stream. -/
def ArgsFit (sig : Fin n → Ty) (args : ∀ i, Arg (sig i)) : Prop :=
  (Value.encodeAll false (sentTrees sig args)).length < 2 ^ 31

/-- The stream written for the arguments is read as the same arguments. -/
def Decodes (P : Program) (sig : Fin n → Ty) (σ : Equiv.Perm (Fin n))
    (args : ∀ i, Arg (sig i)) : Prop :=
  ∃ ds vs s, writeArgsAt P.host sig args (DataStream.empty P.host) = .ok ds ∧
    getArgsIn P sig σ (copy ds) = .ok (vs, s) ∧ ∀ i, (sig i).Same (vs i) (args i).val

end Positions

/-! ### Right to left -/

section RightToLeft

/-- The arguments by their positions. -/
def Args.place : {Ts : List Ty} → Args Ts → ∀ i : Fin Ts.length, Arg (Ts.get i)
  | [], _ => fun i => i.elim0
  | T :: Ts, (a, as) => Fin.cons (α := fun i => Arg ((T :: Ts).get i)) a as.place

/-- A value in front of those of a tuple. -/
def consValue {T : Ty} {Ts : List Ty} (v : T.Val) (vs : ∀ i : Fin Ts.length, (Ts.get i).Val) :
    ∀ i : Fin (T :: Ts).length, ((T :: Ts).get i).Val :=
  Fin.cons (α := fun i => ((T :: Ts).get i).Val) v vs

/-- The members of a tuple by their positions. -/
def placeTuple : {Ts : List Ty} → Ty.Tuple Ts → ∀ i : Fin Ts.length, (Ts.get i).Val
  | [], _ => fun i => i.elim0
  | _ :: _, (v, vs) => consValue v (placeTuple vs)

theorem writeArgsAt_place
    (host : Endian) :
    ∀ {Ts : List Ty} (as : Args Ts) (s : DataStream),
      writeArgsAt host Ts.get as.place s = writeArgsReversed host s as
  | [], _, _ => rfl
  | T :: Ts, (a, as), s => by
      have hrest := writeArgsAt_place host as s
      have hrange : List.finRange (T :: Ts).length =
          (List.finRange Ts.length).map Fin.castSucc ++ [Fin.last Ts.length] :=
        List.finRange_succ_last
      let args : Args (T :: Ts) := (a, as)
      let write : DataStream → Fin (T :: Ts).length → Except Fault DataStream := fun s i =>
        (args.place i).write host s
      have hlater : ∀ s (k : Fin Ts.length),
          write s k.castSucc.rev = (as.place k.rev).write host s :=
        fun s k => congrArg (write s) (Fin.rev_castSucc k)
      have hlast : ∀ s, write s (Fin.last Ts.length).rev = a.write host s :=
        fun s => congrArg (write s) (Fin.rev_last Ts.length)
      simp only [writeArgsAt] at hrest ⊢
      rw [hrange, List.foldlM_append, List.foldlM_map]
      show ((List.finRange Ts.length).foldlM (fun s k => write s k.castSucc.rev) s >>= fun s =>
        write s (Fin.last Ts.length).rev >>= pure) = _
      simp only [hlater, hlast, hrest, bind_pure]
      rfl

variable {P : Program} {n : Nat}

theorem evalArgs_append
    {sig : Fin n → Ty}
    (order rest : List (Fin n)) :
    ∀ (s : DataStream) (vs : ∀ i, (sig i).Val),
      evalArgs P sig (order ++ rest) s vs =
        (evalArgs P sig order s vs >>= fun r => evalArgs P sig rest r.2 r.1) := by
  induction order with
  | nil => exact fun _ _ => rfl
  | cons i order ih =>
      intro s vs
      simp only [List.cons_append, evalArgs, bind_assoc, ih]

/-- Reads at later positions leave the first alone. -/
theorem evalArgs_succ
    {T : Ty}
    {Ts : List Ty}
    (order : List (Fin Ts.length)) :
    ∀ (s : DataStream) (v : T.Val) (vs : ∀ i : Fin Ts.length, (Ts.get i).Val),
      evalArgs P (T :: Ts).get (order.map Fin.succ) s (consValue v vs) =
        (evalArgs P Ts.get order s vs >>= fun r => .ok (consValue v r.1, r.2)) := by
  induction order with
  | nil => exact fun _ _ _ => rfl
  | cons i order ih =>
      intro s v vs
      have hupdate : ∀ w, Function.update (consValue v vs) i.succ w =
          consValue v (Function.update vs i w) := by
        intro w
        exact (Fin.cons_update (α := fun i => ((T :: Ts).get i).Val) v vs i w).symm
      simp only [List.map_cons, evalArgs, bind_assoc]
      refine bind_congr fun r => ?_
      rw [hupdate]
      exact ih r.2 v _

/-- **Right to left**, the reads are those of `getArgs`. -/
theorem getArgsIn_rev :
    ∀ {Ts : List Ty} (s : DataStream),
      getArgsIn P Ts.get Fin.revPerm s =
        (getArgs P Ts s >>= fun r => .ok (placeTuple r.1, r.2))
  | [], s => by
      simp only [getArgsIn, getArgs, ok_bind]
      refine congrArg (fun vs => Except.ok (vs, s)) (funext fun i => i.elim0)
  | T :: Ts, s => by
      have hrest : getArgsIn P Ts.get Fin.revPerm s = _ := getArgsIn_rev s
      have horder : (List.finRange (T :: Ts).length).map Fin.revPerm =
          ((List.finRange Ts.length).map Fin.revPerm).map Fin.succ ++
            [(0 : Fin (Ts.length + 1))] := by
        have hrange : List.finRange (T :: Ts).length =
            (List.finRange Ts.length).map Fin.castSucc ++ [Fin.last Ts.length] :=
          List.finRange_succ_last
        rw [hrange, List.map_append, List.map_map, List.map_map]
        refine congrArg₂ (· ++ ·) (List.map_congr_left fun k _ => Fin.rev_castSucc k) ?_
        exact congrArg (fun k => [k]) (Fin.rev_last _)
      have hinit : (fun i => P.init ((T :: Ts).get i)) =
          consValue (P.init T) fun i => P.init (Ts.get i) := by
        funext i
        cases i using Fin.cases with
        | zero => rfl
        | succ i => rfl
      simp only [getArgsIn] at hrest ⊢
      rw [horder, evalArgs_append, hinit, evalArgs_succ, hrest]
      simp only [getArgs, bind_assoc, ok_bind, pure_eq_ok]
      refine bind_congr fun r => ?_
      simp only [evalArgs]
      refine bind_congr fun w => ?_
      refine congrArg (fun vs => Except.ok (vs, w.2)) ?_
      exact Fin.update_cons_zero (α := fun i => ((T :: Ts).get i).Val) _ _ _

end RightToLeft

/-! ### Any order -/

section AnyOrder

variable {P : Program} {n : Nat} {sig : Fin n → Ty}

/-- The client writes the last argument first. -/
theorem writeArgsAt_encodes
    {host : Endian}
    {swap : Bool}
    (args : ∀ i, Arg (sig i)) :
    WritesBytes host swap (fun s => writeArgsAt host sig args s)
      (Value.encodeAll swap (sentTrees sig args)) :=
  foldlM_writes fun k _ => (args k.rev).write_encodes

/-- Where the encodings stand in the order of the reads, each position gets its own. -/
theorem evalArgs_ahead
    {swap : Bool}
    (ws : ∀ i, (sig i).Val) :
    ∀ {order : List (Fin n)} {s : DataStream} (vs : ∀ i, (sig i).Val),
      (Value.encodeAll swap (order.map fun i => (sig i).tree (ws i))).length < 2 ^ 31 →
      (s.isBigEndian != P.host.isBig) = swap →
      Ahead s (Value.encodeAll swap (order.map fun i => (sig i).tree (ws i))) →
        ∃ vs' s', evalArgs P sig order s vs = .ok (vs', s') ∧
          (∀ i ∈ order, vs' i = (sig i).merge P (P.init (sig i)) (ws i)) ∧
          ∀ i ∉ order, vs' i = vs i
  | [], s, vs, _, _, _ => ⟨vs, s, rfl, by simp, fun _ _ => rfl⟩
  | i :: order, s, vs, hlen, hflag, hahead => by
      simp only [List.map_cons, Value.encodeAll, List.length_append] at hlen hahead
      have hread : (sig i).read P s (P.init (sig i)) = _ :=
        Ty.read_encoded P (sig i) (P.init (sig i)) (ws i) (by omega) s hflag hahead.left
      have hnext : ∃ vs' s',
          evalArgs P sig order (s.skip (((sig i).tree (ws i)).encode swap).length)
            (Function.update vs i ((sig i).merge P (P.init (sig i)) (ws i))) = .ok (vs', s') ∧
          (∀ j ∈ order, vs' j = (sig j).merge P (P.init (sig j)) (ws j)) ∧
          ∀ j ∉ order, vs' j =
            Function.update vs i ((sig i).merge P (P.init (sig i)) (ws i)) j :=
        evalArgs_ahead ws _ (by omega) hflag hahead.skip
      obtain ⟨vs', s', heval, hin, hout⟩ := hnext
      refine ⟨vs', s', ?_, ?_, ?_⟩
      · simp only [evalArgs, Ty.get, hread, ok_bind, pure_eq_ok]
        exact heval
      · intro j hj
        by_cases hmem : j ∈ order
        · exact hin j hmem
        · rcases List.mem_cons.mp hj with rfl | hj
          · rw [hout j hmem, Function.update_self]
          · exact absurd hj hmem
      · intro j hj
        rw [List.mem_cons, not_or] at hj
        rw [hout j hj.2, Function.update_of_ne hj.1]

/-- The stream of a call, and what is read from it when each read meets the encoding of its
own type. -/
theorem getArgsIn_sent
    {σ : Equiv.Perm (Fin n)}
    {args : ∀ i, Arg (sig i)}
    (ws : ∀ i, (sig i).Val)
    (hfit : ArgsFit sig args)
    (hsent : sentTrees sig args =
      ((List.finRange n).map σ).map fun i => (sig i).tree (ws i)) :
    ∃ ds vs s, writeArgsAt P.host sig args (DataStream.empty P.host) = .ok ds ∧
      getArgsIn P sig σ (copy ds) = .ok (vs, s) ∧
        ∀ i, vs i = (sig i).merge P (P.init (sig i)) (ws i) := by
  have hflag : ((DataStream.empty P.host).isBigEndian != P.host.isBig) = false := by
    simp [DataStream.empty]
  have hroom : (DataStream.empty P.host).buf.size +
      (Value.encodeAll false (sentTrees sig args)).length < 2 ^ 31 := by
    simpa [DataStream.empty, CharVector.size, ArgsFit] using hfit
  obtain ⟨ds, hds, happ⟩ := writeArgsAt_encodes args (DataStream.empty P.host) hflag hroom
  have hcopy := copy_eq_streamOf happ
  have hahead := streamOf_ahead P.host (Value.encodeAll false (sentTrees sig args))
  rw [← hcopy, hsent] at hahead
  rw [ArgsFit, hsent] at hfit
  have hhost : ((copy ds).isBigEndian != P.host.isBig) = false := by
    simp [hcopy, streamOf]
  obtain ⟨vs, s, heval, hin, -⟩ := evalArgs_ahead ws (fun i => P.init (sig i)) hfit hhost hahead
  refine ⟨ds, vs, s, hds, heval, fun i => hin i ?_⟩
  exact List.mem_map.mpr ⟨σ.symm i, List.mem_finRange _, σ.apply_symm_apply i⟩

/-- Right to left, each position gets what a read makes of its own argument. -/
theorem decodes_rev_iff
    {args : ∀ i, Arg (sig i)}
    (hfit : ArgsFit sig args) :
    Decodes P sig Fin.revPerm args ↔ ∀ i, (sig i).Absorbs P (args i).val := by
  have hsent : sentTrees sig args =
      ((List.finRange n).map Fin.revPerm).map fun i => (sig i).tree (args i).val := by
    rw [List.map_map]
    rfl
  obtain ⟨ds, vs, s, hds, heval, hvs⟩ :=
    getArgsIn_sent (P := P) (fun i => (args i).val) hfit hsent
  constructor
  · rintro ⟨ds', vs', s', hds', heval', hsame⟩ i
    obtain rfl := Except.ok.inj (hds.symm.trans hds')
    obtain ⟨rfl, -⟩ := Prod.mk.inj (Except.ok.inj (heval.symm.trans heval'))
    rw [Ty.Absorbs, ← hvs i]
    exact hsame i
  · intro h
    refine ⟨ds, vs, s, hds, heval, fun i => ?_⟩
    rw [hvs i]
    exact h i

/-- Arguments of one type arrive where the order of evaluation takes them. -/
theorem rev_of_decodes_char
    {σ : Equiv.Perm (Fin n)}
    {cs : Fin n → UInt8}
    (hfit : ArgsFit (fun _ => .char) fun i => .value (cs i))
    (h : Decodes P (fun _ => .char) σ fun i => .value (cs i))
    (i : Fin n) :
    cs (σ.symm i).rev = cs i := by
  have hsent : sentTrees (fun _ : Fin n => .char) (fun i => .value (cs i)) =
      ((List.finRange n).map σ).map fun i => Ty.char.tree (cs (σ.symm i).rev) := by
    rw [List.map_map]
    refine List.map_congr_left fun k _ => ?_
    simp only [Function.comp_apply, Equiv.symm_apply_apply]
    rfl
  let ws : Fin n → Ty.char.Val := fun i => cs (σ.symm i).rev
  obtain ⟨ds, vs, s, hds, heval, hvs⟩ := getArgsIn_sent (P := P) ws hfit hsent
  obtain ⟨ds', vs', s', hds', heval', hsame⟩ := h
  obtain rfl := Except.ok.inj (hds.symm.trans hds')
  obtain ⟨rfl, -⟩ := Prod.mk.inj (Except.ok.inj (heval.symm.trans heval'))
  exact (hvs i).symm.trans (hsame i)

end AnyOrder

/-- **In which order the reads may be evaluated.**  Calls of a signature of `n` parameters
whose arguments absorb the default-constructed objects they are read into all get them
exactly when the compiler evaluates right to left, and a call that is evaluated so gets its
arguments exactly when they do; they always do when the default objects of the types hold no
elements. -/
theorem args_order_iff
    (P : Program)
    {n : Nat}
    (hn : 2 * n < 2 ^ 31)
    (σ : Equiv.Perm (Fin n)) :
    ((∀ (sig : Fin n → Ty) (args : ∀ i, Arg (sig i)), ArgsFit sig args →
        (∀ i, (sig i).WellKeyed P (args i).val) → (∀ i, (sig i).Absorbs P (args i).val) →
          Decodes P sig σ args) ↔
      σ = Fin.revPerm) ∧
    (∀ (sig : Fin n → Ty) (args : ∀ i, Arg (sig i)), ArgsFit sig args →
      (Decodes P sig Fin.revPerm args ↔ ∀ i, (sig i).Absorbs P (args i).val)) ∧
    (P.KeyLaw → ∀ (sig : Fin n → Ty) (args : ∀ i, Arg (sig i)),
      (∀ i, (sig i).EmptyDefaults P) → (∀ i, (sig i).WellKeyed P (args i).val) →
        ∀ i, (sig i).Absorbs P (args i).val) := by
  refine ⟨⟨fun h => ?_, ?_⟩, fun sig args hfit => decodes_rev_iff hfit, ?_⟩
  · refine Equiv.ext fun k => ?_
    -- the argument that is 1 where all others are 0 shows where it went
    let cs : Fin n → UInt8 := fun i => if i = σ k then 1 else 0
    have hfit : ArgsFit (fun _ => .char) fun i => .value (cs i) := by
      have htrees : sentTrees (fun _ : Fin n => .char) (fun i => .value (cs i)) =
          ((List.finRange n).map fun k => cs k.rev).map Value.char := by
        rw [List.map_map]
        rfl
      rw [ArgsFit, htrees, encodeAll_map_char_length, List.length_map, List.length_finRange]
      exact hn
    have hdecodes := h (fun _ => .char) (fun i => .value (cs i)) hfit (fun _ => trivial)
      fun _ => rfl
    have hplace := rev_of_decodes_char hfit hdecodes (σ k)
    rw [Equiv.symm_apply_apply] at hplace
    by_contra hne
    have hother : cs k.rev = 0 := if_neg (Ne.symm hne)
    have hone : cs (σ k) = 1 := if_pos rfl
    rw [hother, hone] at hplace
    exact absurd hplace (by decide)
  · rintro rfl sig args hfit - habsorbs
    exact (decodes_rev_iff hfit).mpr habsorbs
  · intro hlaw sig args hempty hkeys i
    exact Ty.absorbs_of_emptyDefaults hlaw (hempty i) (hkeys i)

/-- Of calls with two arguments, some are decoded wrongly left to right, and every call of
two sets is decoded right to left. -/
theorem left_to_right_fails :
    (¬ ∀ (sig : Fin 2 → Ty) (args : ∀ i, Arg (sig i)), ArgsFit sig args →
      (∀ i, (sig i).WellKeyed (Program.plain .little) (args i).val) →
        (∀ i, (sig i).Absorbs (Program.plain .little) (args i).val) →
          Decodes (Program.plain .little) sig 1 args) ∧
    ∀ args : Fin 2 → Arg (.set .int32), ArgsFit (fun _ => .set .int32) args →
      (∀ i, (Ty.set .int32).WellKeyed (Program.plain .little) (args i).val) →
        Decodes (Program.plain .little) (fun _ => .set .int32) Fin.revPerm args := by
  obtain ⟨hleft, -, -⟩ := args_order_iff (Program.plain .little) (n := 2) (by decide) 1
  obtain ⟨-, hright, hempty⟩ := args_order_iff (Program.plain .little) (n := 2) (by decide)
    Fin.revPerm
  refine ⟨fun h => absurd (hleft.mp h) (by decide), fun args hfit hkeys => ?_⟩
  refine (hright _ args hfit).mpr (hempty (Program.plain_keyLaw .little) _ args (fun _ => ?_) hkeys)
  exact ⟨rfl, trivial, trivial⟩

/-- The characters `a` and `b`, read left to right, change places. -/
theorem two_chars_change_places :
    ¬ ∀ (P : Program) (n : Nat) (sig : Fin n → Ty) (σ : Equiv.Perm (Fin n))
      (args : ∀ i, Arg (sig i)), ArgsFit sig args → Decodes P sig σ args := by
  intro h
  let cs : Fin 2 → UInt8 := fun i => if i = 0 then 97 else 98
  have hfit : ArgsFit (fun _ => .char) fun i => .value (cs i) := by
    unfold ArgsFit
    decide
  have hplace := rev_of_decodes_char hfit (h (Program.plain .little) 2 _ 1 _ hfit) 0
  exact absurd hplace (by decide)

end Rpc
end ZeroRPC
