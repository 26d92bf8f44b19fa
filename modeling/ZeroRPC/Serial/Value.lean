import ZeroRPC.Library.ByteOrder
import ZeroRPC.Library.KeyedList

/-!
# The values a Data_Stream carries

`Ty` is the universe of `SupportedDataTypes`, closed under nesting, and `Ty.Val`
the values of a type.  A container is the list of its elements in iteration
order, for the unordered ones in whatever order the hash table yields.  `Value`
is what the bytes of an encoding say, without the distinction between an ordered
and an unordered container, and `Value.encode` is the wire format.

`Program` collects what a program brings along that the library does not fix:
the byte order of its host, `std::less` and hash equality of the key types, the
placement of new elements in a hash table, and the value of a default-constructed
object of each type.

`std::vector<bool>` is in the universe although `write` of one does not compile;
keeping it makes every statement cover one type more.
-/

namespace ZeroRPC
namespace Serial

open Library

/-- `Data_Stream::Data_Type`, the tag in front of each encoding. -/
inductive DataType
  | bool
  | char
  | int32
  | int64
  | float
  | double
  | string
  | vector
  | list
  | map
  | set
  | custom
deriving DecidableEq, Repr

/-- The value of the enumerator, as the byte that is written. -/
def DataType.code : DataType → UInt8
  | .bool => 0
  | .char => 1
  | .int32 => 2
  | .int64 => 3
  | .float => 4
  | .double => 5
  | .string => 6
  | .vector => 7
  | .list => 8
  | .map => 9
  | .set => 10
  | .custom => 11

theorem DataType.code_inj {a b : DataType} (h : a.code = b.code) : a = b := by
  cases a <;> cases b <;> first | rfl | exact absurd h (by decide)

/-! ### What the bytes say -/

/-- The content of an encoding.  A map is the list of its entries. -/
inductive Value
  | bool (b : Bool)
  | char (c : UInt8)
  | int32 (n : BitVec 32)
  | int64 (n : BitVec 64)
  | float (bits : BitVec 32)
  | double (bits : BitVec 64)
  | string (s : List UInt8)
  | vector (vs : List Value)
  | list (vs : List Value)
  | set (vs : List Value)
  | map (es : List Value)
  | entry (k v : Value)
  | user (fs : List Value)

/-- A tagged number of `k` bytes, little-endian unless `swap` is set. -/
def encodeNumber (swap : Bool) (type : DataType) (k n : Nat) : List UInt8 :=
  type.code :: orderBytes swap (leBytes k n)

/-- The tagged length in front of the elements of a container or the bytes of a
string: `int len = value.size()`, written as an INT32. -/
def encodeLength (swap : Bool) (n : Nat) : List UInt8 :=
  encodeNumber swap .int32 4 (BitVec.ofNat 32 n).toNat

mutual
/-- The wire format.  `swap` is set when the numbers have their bytes reversed. -/
def Value.encode (swap : Bool) : Value → List UInt8
  | .bool b => [DataType.bool.code, b.toUInt8]
  | .char c => [DataType.char.code, c]
  | .int32 n => encodeNumber swap .int32 4 n.toNat
  | .int64 n => encodeNumber swap .int64 8 n.toNat
  | .float n => encodeNumber swap .float 4 n.toNat
  | .double n => encodeNumber swap .double 8 n.toNat
  | .string s => DataType.string.code :: (encodeLength swap s.length ++ s)
  | .vector vs => DataType.vector.code :: (encodeLength swap vs.length ++ Value.encodeAll swap vs)
  | .list vs => DataType.list.code :: (encodeLength swap vs.length ++ Value.encodeAll swap vs)
  | .set vs => DataType.set.code :: (encodeLength swap vs.length ++ Value.encodeAll swap vs)
  | .map es => DataType.map.code :: (encodeLength swap es.length ++ Value.encodeAll swap es)
  | .entry k v => Value.encode swap k ++ Value.encode swap v
  | .user fs => DataType.custom.code :: Value.encodeAll swap fs

/-- The encodings of the values of a list, one after the other. -/
def Value.encodeAll (swap : Bool) : List Value → List UInt8
  | [] => []
  | v :: vs => Value.encode swap v ++ Value.encodeAll swap vs
end

/-! ### The types -/

/-- `SupportedDataTypes`, with the name and the serialised members of a class
declared with `SERIALIZE`. -/
inductive Ty
  | bool
  | char
  | int32
  | int64
  | float
  | double
  | string
  | vector (T : Ty)
  | list (T : Ty)
  | set (T : Ty)
  | map (K V : Ty)
  | unorderedSet (T : Ty)
  | unorderedMap (K V : Ty)
  | user (cls : String) (members : List Ty)

/-- `Data_Stream` itself: `SERIALIZE(is_big_endian, _buf, _pos)`. -/
def Ty.dataStream : Ty := .user "Data_Stream" [.bool, .vector .char, .int32]

mutual
/-- The values of a type. -/
def Ty.Val : Ty → Type
  | .bool => Bool
  | .char => UInt8
  | .int32 => BitVec 32
  | .int64 => BitVec 64
  | .float => BitVec 32
  | .double => BitVec 64
  | .string => List UInt8
  | .vector T => List T.Val
  | .list T => List T.Val
  | .set T => List T.Val
  | .map K V => List (K.Val × V.Val)
  | .unorderedSet T => List T.Val
  | .unorderedMap K V => List (K.Val × V.Val)
  | .user _ Ts => Ty.Tuple Ts

/-- One value for each type of a list. -/
def Ty.Tuple : List Ty → Type
  | [] => Unit
  | T :: Ts => T.Val × Ty.Tuple Ts
end

/-- Induction over the types, with the hypothesis for every member of a class. -/
@[elab_as_elim]
theorem Ty.induct
    {P : Ty → Prop}
    (bool : P .bool)
    (char : P .char)
    (int32 : P .int32)
    (int64 : P .int64)
    (float : P .float)
    (double : P .double)
    (string : P .string)
    (vector : ∀ T, P T → P (.vector T))
    (list : ∀ T, P T → P (.list T))
    (set : ∀ T, P T → P (.set T))
    (map : ∀ K V, P K → P V → P (.map K V))
    (unorderedSet : ∀ T, P T → P (.unorderedSet T))
    (unorderedMap : ∀ K V, P K → P V → P (.unorderedMap K V))
    (user : ∀ cls Ts, (∀ T ∈ Ts, P T) → P (.user cls Ts))
    (T : Ty) :
    P T := by
  refine @Ty.rec P (fun Ts => ∀ T ∈ Ts, P T)
    bool char int32 int64 float double string vector list set map
    unorderedSet unorderedMap user ?_ ?_ T
  · simp
  · intro T Ts hT hTs U hU
    rcases List.mem_cons.mp hU with rfl | hU
    · exact hT
    · exact hTs U hU

mutual
/-- What the encoding of a typed value says. -/
def Ty.tree : (T : Ty) → T.Val → Value
  | .bool, b => .bool b
  | .char, c => .char c
  | .int32, n => .int32 n
  | .int64, n => .int64 n
  | .float, n => .float n
  | .double, n => .double n
  | .string, s => .string s
  | .vector T, xs => .vector (List.map T.tree xs)
  | .list T, xs => .list (List.map T.tree xs)
  | .set T, xs => .set (List.map T.tree xs)
  | .map K V, es => .map (List.map (fun e => .entry (K.tree e.1) (V.tree e.2)) es)
  | .unorderedSet T, xs => .set (List.map T.tree xs)
  | .unorderedMap K V, es => .map (List.map (fun e => .entry (K.tree e.1) (V.tree e.2)) es)
  | .user _ Ts, v => .user (Ty.trees Ts v)

/-- What the encodings of the members say. -/
def Ty.trees : (Ts : List Ty) → Ty.Tuple Ts → List Value
  | [], _ => []
  | T :: Ts, (v, vs) => T.tree v :: Ty.trees Ts vs
end

mutual
/-- Equality of values: the sets and maps, ordered or not, are compared by their
elements and everything else is compared position by position. -/
def Ty.Same : (T : Ty) → T.Val → T.Val → Prop
  | .bool, a, b => a = b
  | .char, a, b => a = b
  | .int32, a, b => a = b
  | .int64, a, b => a = b
  | .float, a, b => a = b
  | .double, a, b => a = b
  | .string, a, b => a = b
  | .vector T, xs, ys => List.Forall₂ T.Same xs ys
  | .list T, xs, ys => List.Forall₂ T.Same xs ys
  | .set T, xs, ys => SameElements T.Same xs ys
  | .map K V, es, fs => SameElements (fun e f => K.Same e.1 f.1 ∧ V.Same e.2 f.2) es fs
  | .unorderedSet T, xs, ys => SameElements T.Same xs ys
  | .unorderedMap K V, es, fs =>
      SameElements (fun e f => K.Same e.1 f.1 ∧ V.Same e.2 f.2) es fs
  | .user _ Ts, v, w => Ty.SameAll Ts v w

/-- Equality of the members, one by one. -/
def Ty.SameAll : (Ts : List Ty) → Ty.Tuple Ts → Ty.Tuple Ts → Prop
  | [], _, _ => True
  | T :: Ts, (v, vs), (w, ws) => T.Same v w ∧ Ty.SameAll Ts vs ws
end

/-! ### Equality of values is an equivalence -/

theorem Ty.sameAll_refl :
    ∀ {Ts : List Ty}, (∀ T ∈ Ts, ∀ v, T.Same v v) → ∀ vs, Ty.SameAll Ts vs vs
  | [], _, _ => trivial
  | T :: _, h, (v, vs) =>
      ⟨h T (by simp) v, Ty.sameAll_refl (fun U hU => h U (by simp [hU])) vs⟩

theorem Ty.sameAll_symm :
    ∀ {Ts : List Ty}, (∀ T ∈ Ts, ∀ v w, T.Same v w → T.Same w v) →
      ∀ vs ws, Ty.SameAll Ts vs ws → Ty.SameAll Ts ws vs
  | [], _, _, _, _ => trivial
  | T :: _, h, (v, vs), (w, ws), hs =>
      ⟨h T (by simp) v w hs.1,
        Ty.sameAll_symm (fun U hU => h U (by simp [hU])) vs ws hs.2⟩

theorem Ty.sameAll_trans :
    ∀ {Ts : List Ty},
      (∀ T ∈ Ts, ∀ u v w, T.Same u v → T.Same v w → T.Same u w) →
      ∀ us vs ws, Ty.SameAll Ts us vs → Ty.SameAll Ts vs ws → Ty.SameAll Ts us ws
  | [], _, _, _, _, _, _ => trivial
  | T :: _, h, (u, us), (v, vs), (w, ws), h₁, h₂ =>
      ⟨h T (by simp) u v w h₁.1 h₂.1,
        Ty.sameAll_trans (fun U hU => h U (by simp [hU])) us vs ws h₁.2 h₂.2⟩

theorem Ty.same_refl (T : Ty) : ∀ v : T.Val, T.Same v v := by
  induction T using Ty.induct with
  | vector T ih => exact fun xs => List.forall₂_same.mpr fun x _ => ih x
  | list T ih => exact fun xs => List.forall₂_same.mpr fun x _ => ih x
  | set T ih => exact SameElements.refl ih
  | map K V ihK ihV => exact SameElements.refl fun e => ⟨ihK e.1, ihV e.2⟩
  | unorderedSet T ih => exact SameElements.refl ih
  | unorderedMap K V ihK ihV => exact SameElements.refl fun e => ⟨ihK e.1, ihV e.2⟩
  | user cls Ts ih => exact Ty.sameAll_refl ih
  | _ => exact fun _ => rfl

theorem Ty.same_symm (T : Ty) : ∀ v w : T.Val, T.Same v w → T.Same w v := by
  induction T using Ty.induct with
  | vector T ih => exact fun xs ys h => (h.imp fun x y hxy => ih x y hxy).flip
  | list T ih => exact fun xs ys h => (h.imp fun x y hxy => ih x y hxy).flip
  | set T ih => exact fun xs ys h => SameElements.symm ih h
  | map K V ihK ihV =>
      exact fun xs ys h =>
        SameElements.symm (fun e f hs => ⟨ihK e.1 f.1 hs.1, ihV e.2 f.2 hs.2⟩) h
  | unorderedSet T ih => exact fun xs ys h => SameElements.symm ih h
  | unorderedMap K V ihK ihV =>
      exact fun xs ys h =>
        SameElements.symm (fun e f hs => ⟨ihK e.1 f.1 hs.1, ihV e.2 f.2 hs.2⟩) h
  | user cls Ts ih => exact Ty.sameAll_symm ih
  | _ => exact fun _ _ h => Eq.symm h

theorem Ty.same_trans (T : Ty) :
    ∀ u v w : T.Val, T.Same u v → T.Same v w → T.Same u w := by
  induction T using Ty.induct with
  | vector T ih => exact fun xs ys zs h₁ h₂ => forall₂_trans ih h₁ h₂
  | list T ih => exact fun xs ys zs h₁ h₂ => forall₂_trans ih h₁ h₂
  | set T ih => exact fun xs ys zs h₁ h₂ => SameElements.trans ih h₁ h₂
  | map K V ihK ihV =>
      exact fun xs ys zs h₁ h₂ =>
        SameElements.trans
          (fun e f g hef hfg =>
            ⟨ihK e.1 f.1 g.1 hef.1 hfg.1, ihV e.2 f.2 g.2 hef.2 hfg.2⟩) h₁ h₂
  | unorderedSet T ih => exact fun xs ys zs h₁ h₂ => SameElements.trans ih h₁ h₂
  | unorderedMap K V ihK ihV =>
      exact fun xs ys zs h₁ h₂ =>
        SameElements.trans
          (fun e f g hef hfg =>
            ⟨ihK e.1 f.1 g.1 hef.1 hfg.1, ihV e.2 f.2 g.2 hef.2 hfg.2⟩) h₁ h₂
  | user cls Ts ih => exact Ty.sameAll_trans ih
  | _ => exact fun _ _ _ h₁ h₂ => Eq.trans h₁ h₂

/-! ### What the program brings along -/

/-- The two kinds of table behind sets and maps. -/
inductive Table
  | ordered
  | unordered
deriving DecidableEq

/-- Byte order of the host, order and hash equality of the key types, traversal
order of hash tables, and default-constructed objects.

`init T` is the value of `T v;`: indeterminate for a scalar, empty for a string
or a container, and for a class whatever its member initialisers say. -/
structure Program where
  host : Endian
  less : (K : Ty) → K.Val → K.Val → Bool
  hashEqual : (K : Ty) → K.Val → K.Val → Bool
  bucket : (α : Type) → List α → α → List α
  bucket_placement : ∀ α, IsPlacement (bucket α)
  init : (T : Ty) → T.Val
  init_string : init .string = ([] : List UInt8)
  init_vector : ∀ T : Ty, init (.vector T) = ([] : List T.Val)
  init_list : ∀ T : Ty, init (.list T) = ([] : List T.Val)
  init_set : ∀ T : Ty, init (.set T) = ([] : List T.Val)
  init_map : ∀ K V : Ty, init (.map K V) = ([] : List (K.Val × V.Val))
  init_unorderedSet : ∀ T : Ty, init (.unorderedSet T) = ([] : List T.Val)
  init_unorderedMap : ∀ K V : Ty, init (.unorderedMap K V) = ([] : List (K.Val × V.Val))

namespace Program

variable (P : Program)

/-- Whether a table takes two keys for the same. -/
def sameKey : Table → (K : Ty) → K.Val → K.Val → Bool
  | .ordered, K, x, y => !P.less K x y && !P.less K y x
  | .unordered, K, x, y => P.hashEqual K x y

/-- Where a table puts a new element with the key `key x`. -/
def place {α : Type} (K : Ty) (key : α → K.Val) : Table → List α → α → List α
  | .ordered, xs, x => xs.orderedInsert (fun a b => P.less K (key a) (key b)) x
  | .unordered, xs, x => P.bucket α xs x

theorem place_placement {α : Type} (K : Ty) (key : α → K.Val) (t : Table) :
    IsPlacement (P.place K key t) := by
  cases t with
  | ordered => exact fun xs x => List.perm_orderedInsert _ x xs
  | unordered => exact P.bucket_placement α

/-- `value.insert(v)` on a set: an element with an equal key stays as it is. -/
def insert (t : Table) (K : Ty) : List K.Val → K.Val → List K.Val :=
  upsert (P.sameKey t K) (P.place K id t) fun old _ => old

/-- `value[k] = v` on a map: an entry with an equal key gets the new value. -/
def assign (t : Table) (K V : Ty) :
    List (K.Val × V.Val) → K.Val × V.Val → List (K.Val × V.Val) :=
  upsert (fun e f => P.sameKey t K e.1 f.1) (P.place K Prod.fst t)
    fun old new => (old.1, new.2)

end Program

end Serial
end ZeroRPC
