import ZeroRPC.Library.Machine
import ZeroRPC.Library.Mutex
import ZeroRPC.Library.Refinement

/-!
# Objects behind a lock

A member function takes the lock of its object, accesses the object a few times and gives
the lock back.  Any number of threads call such functions; their accesses interleave in any
way the lock lets them.  In the atomic object a call takes effect at once, at some moment
between the call and its return.

Main facts:
* `Guarded.Completes`: the accesses of a call that nobody disturbs;
* `Behind.step`: each step is matched by the atomic object;
* `locked_refines_atomic`: whatever is seen of calls and returns could have been seen of the
  atomic object;
* `atomic_refines`: the same from one atomic object to another, if their machines agree.
-/

namespace ZeroRPC
namespace Library

universe u v w

/-! ### Member functions -/

/-- The member functions of an object.  A call starts at some point; from each point there is
one access to the object, after which it goes on or has its answer. -/
structure Guarded (σ : Type u) (ι : Type v) (π : Type v) (ο : Type v) where
  enter : ι → π
  access : π → σ → (π ⊕ ο) × σ

namespace Guarded

variable {σ : Type u} {ι π ο : Type v}

/-- Left alone, a call that has come to a point gives this answer and leaves this object. -/
inductive Completes (G : Guarded σ ι π ο) : π → σ → ο → σ → Prop
  | last {p : π} {s s' : σ} {o : ο} (h : G.access p s = (.inr o, s')) : Completes G p s o s'
  | next {p p' : π} {s s' t : σ} {o : ο} (h : G.access p s = (.inl p', s'))
      (hrest : Completes G p' s' o t) : Completes G p s o t

/-- Left alone, every call does what the machine does. -/
def Implements (G : Guarded σ ι π ο) (M : Machine σ ι ο) : Prop :=
  ∀ s i, G.Completes (G.enter i) s (M.step s i).1 (M.step s i).2

end Guarded

/-! ### Threads -/

/-- A call or a return, as its caller sees it. -/
inductive Seen (ι ο : Type v)
  | called (t : Nat) (i : ι)
  | returned (t : Nat) (o : ο)
deriving DecidableEq

/-- Where a thread stands. -/
inductive LockPoint (ι π ο : Type v)
  | idle
  | locking (i : ι)
  | inside (i : ι) (p : π)
  | leaving (o : ο)

def LockPoint.holds {ι π ο : Type v} : LockPoint ι π ο → Bool
  | .idle => false
  | .locking _ => false
  | .inside _ _ => true
  | .leaving _ => true

/-- An object, its lock and the threads that call it. -/
structure Locked (σ : Type u) (ι π ο : Type v) where
  object : σ
  lock : Option Nat
  threads : Nat → LockPoint ι π ο

inductive CallStep (ι : Type v)
  | call (t : Nat) (i : ι)
  | advance (t : Nat)

namespace Locked

variable {σ : Type u} {ι π ο : Type v}

def goto (s : Locked σ ι π ο) (t : Nat) (p : LockPoint ι π ο) : Locked σ ι π ο :=
  { s with threads := Function.update s.threads t p }

def advance (G : Guarded σ ι π ο) (s : Locked σ ι π ο) (t : Nat) : Option (Locked σ ι π ο) :=
  match s.threads t with
  | .idle => none
  | .locking i =>
      if s.lock = none then some { s.goto t (.inside i (G.enter i)) with lock := some t }
      else none
  | .inside i p =>
      match G.access p s.object with
      | (.inl p', object) => some { s.goto t (.inside i p') with object := object }
      | (.inr o, object) => some { s.goto t (.leaving o) with object := object }
  | .leaving _ => some { s.goto t .idle with lock := none }

def step (G : Guarded σ ι π ο) (s : Locked σ ι π ο) : CallStep ι → Option (Locked σ ι π ο)
  | .call t i =>
      match s.threads t with
      | .idle => some (s.goto t (.locking i))
      | _ => none
  | .advance t => s.advance G t

def init (object : σ) : Locked σ ι π ο where
  object := object
  lock := none
  threads := fun _ => .idle

def system (G : Guarded σ ι π ο) (object : σ) : System (Locked σ ι π ο) (CallStep ι) where
  init := init object
  step := step G

/-- A call returns when it gives the lock back. -/
def seen (s : Locked σ ι π ο) : CallStep ι → List (Seen ι ο)
  | .call t i => [.called t i]
  | .advance t =>
      match s.threads t with
      | .leaving o => [.returned t o]
      | _ => []

end Locked

/-! ### The atomic object -/

inductive AtomicPoint (ι ο : Type v)
  | idle
  | waiting (i : ι)
  | answered (o : ο)

structure Atomic (σ : Type u) (ι ο : Type v) where
  object : σ
  threads : Nat → AtomicPoint ι ο

inductive AtomicStep (ι : Type v)
  | call (t : Nat) (i : ι)
  | commit (t : Nat)
  | back (t : Nat)

namespace Atomic

variable {σ : Type u} {ι ο : Type v}

def goto (s : Atomic σ ι ο) (t : Nat) (p : AtomicPoint ι ο) : Atomic σ ι ο :=
  { s with threads := Function.update s.threads t p }

/-- A call is made, takes effect, and returns. -/
def step (M : Machine σ ι ο) (s : Atomic σ ι ο) : AtomicStep ι → Option (Atomic σ ι ο)
  | .call t i =>
      match s.threads t with
      | .idle => some (s.goto t (.waiting i))
      | _ => none
  | .commit t =>
      match s.threads t with
      | .waiting i =>
          some { s.goto t (.answered (M.step s.object i).1) with object := (M.step s.object i).2 }
      | _ => none
  | .back t =>
      match s.threads t with
      | .answered _ => some (s.goto t .idle)
      | _ => none

def init (object : σ) : Atomic σ ι ο where
  object := object
  threads := fun _ => .idle

def system (M : Machine σ ι ο) (object : σ) : System (Atomic σ ι ο) (AtomicStep ι) where
  init := init object
  step := step M

def seen (s : Atomic σ ι ο) : AtomicStep ι → List (Seen ι ο)
  | .call t i => [.called t i]
  | .commit _ => []
  | .back t =>
      match s.threads t with
      | .answered o => [.returned t o]
      | _ => []

end Atomic

/-! ### The lock makes it atomic -/

section Behind

variable {σ : Type u} {ι π ο : Type v} {G : Guarded σ ι π ο} {M : Machine σ ι ο}

/-- What a thread at a point has to do with the same thread of the atomic object, when the
objects are these. -/
def Matches (G : Guarded σ ι π ο) (M : Machine σ ι ο) (object object' : σ) :
    LockPoint ι π ο → AtomicPoint ι ο → Prop
  | .idle, .idle => True
  | .locking i, .waiting j => i = j
  | .inside i p, .waiting j =>
      i = j ∧ G.Completes p object (M.step object' i).1 (M.step object' i).2
  | .leaving o, .answered o' => o = o' ∧ object = object'
  | _, _ => False

/-- A state of the locked object and one of the atomic object. -/
structure Behind (G : Guarded σ ι π ο) (M : Machine σ ι ο) (s : Locked σ ι π ο)
    (a : Atomic σ ι ο) : Prop where
  exclusive : Exclusive LockPoint.holds s.threads s.lock
  matching : ∀ t, Matches G M s.object a.object (s.threads t) (a.threads t)
  free : s.lock = none → s.object = a.object
  held : ∀ t, s.lock = some t → (s.threads t).holds = true

theorem behind_init (object : σ) :
    Behind G M (Locked.init object) (Atomic.init object) where
  exclusive := by
    intro t ht
    cases ht
  matching := fun _ => trivial
  free := fun _ => rfl
  held := by
    intro t ht
    cases ht

theorem Matches.idle
    {object object' : σ}
    {q : AtomicPoint ι ο}
    (h : Matches G M object object' .idle q) :
    q = .idle := by
  cases q with
  | idle => rfl
  | _ => cases h

theorem Matches.locking
    {object object' : σ}
    {i : ι}
    {q : AtomicPoint ι ο}
    (h : Matches G M object object' (.locking i) q) :
    q = .waiting i := by
  cases q with
  | waiting j => rw [show i = j from h]
  | _ => cases h

theorem Matches.inside
    {object object' : σ}
    {i : ι}
    {p : π}
    {q : AtomicPoint ι ο}
    (h : Matches G M object object' (.inside i p) q) :
    q = .waiting i ∧ G.Completes p object (M.step object' i).1 (M.step object' i).2 := by
  cases q with
  | waiting j =>
      obtain ⟨rfl, hcompletes⟩ := h
      exact ⟨rfl, hcompletes⟩
  | _ => cases h

theorem Matches.leaving
    {object object' : σ}
    {o : ο}
    {q : AtomicPoint ι ο}
    (h : Matches G M object object' (.leaving o) q) :
    q = .answered o ∧ object = object' := by
  cases q with
  | answered o' =>
      obtain ⟨rfl, hsame⟩ := h
      exact ⟨rfl, hsame⟩
  | _ => cases h

/-- A thread that does not hold the lock does not look at the object. -/
theorem Matches.outside
    {object object' object₁ object₁' : σ}
    {p : LockPoint ι π ο}
    {q : AtomicPoint ι ο}
    (h : Matches G M object object' p q)
    (hp : p.holds = false) :
    Matches G M object₁ object₁' p q := by
  cases p with
  | idle => cases q <;> exact h
  | locking i => cases q <;> exact h
  | inside i p => cases hp
  | leaving o => cases hp

/-- Thread `t` goes on, the others do not look at the object. -/
theorem Behind.others
    {s : Locked σ ι π ο}
    {a : Atomic σ ι ο}
    {object object' : σ}
    {t : Nat}
    {p : LockPoint ι π ο}
    {q : AtomicPoint ι ο}
    (h : Behind G M s a)
    (hsame : (∀ u, u ≠ t → (s.threads u).holds = false) ∨ object = s.object ∧ object' = a.object)
    (ht : Matches G M object object' p q)
    (u : Nat) :
    Matches G M object object' (Function.update s.threads t p u)
      (Function.update a.threads t q u) := by
  by_cases hut : u = t
  · rw [hut, Function.update_self, Function.update_self]
    exact ht
  · rw [Function.update_of_ne hut, Function.update_of_ne hut]
    rcases hsame with halone | ⟨rfl, rfl⟩
    · exact (h.matching u).outside (halone u hut)
    · exact h.matching u

theorem Behind.alone
    {s : Locked σ ι π ο}
    {a : Atomic σ ι ο}
    {t : Nat}
    (h : Behind G M s a)
    (ht : (s.threads t).holds = true)
    (u : Nat)
    (hu : u ≠ t) :
    (s.threads u).holds = false := by
  cases hholds : (s.threads u).holds with
  | false => rfl
  | true => exact absurd (h.exclusive.eq hholds ht) hu

theorem Behind.holder
    {s : Locked σ ι π ο}
    {a : Atomic σ ι ο}
    {t : Nat}
    (h : Behind G M s a)
    (ht : (s.threads t).holds = true) :
    s.lock = some t :=
  h.exclusive t ht

/-- Who holds the lock, when a thread that holds it goes on and keeps it. -/
theorem Behind.keep
    {s : Locked σ ι π ο}
    {a : Atomic σ ι ο}
    {t : Nat}
    {p : LockPoint ι π ο}
    (h : Behind G M s a)
    (ht : (s.threads t).holds = true)
    (hp : p.holds = true)
    (u : Nat)
    (hu : s.lock = some u) :
    (Function.update s.threads t p u).holds = true := by
  have hut : u = t := Option.some.inj (hu.symm.trans (h.holder ht))
  rw [hut, Function.update_self]
  exact hp

/-- Threads that stand where they stood in the atomic object. -/
theorem Behind.at
    {s : Locked σ ι π ο}
    {a : Atomic σ ι ο}
    {t : Nat}
    {p : LockPoint ι π ο}
    (h : Behind G M s a)
    (ht : s.threads t = p) :
    Matches G M s.object a.object p (a.threads t) := by
  rw [← ht]
  exact h.matching t

theorem Behind.call
    {s : Locked σ ι π ο}
    {a : Atomic σ ι ο}
    {t : Nat}
    {i : ι}
    (h : Behind G M s a)
    (ht : s.threads t = .idle) :
    Behind G M (s.goto t (.locking i)) (a.goto t (.waiting i)) where
  exclusive := h.exclusive.move (by rintro ⟨⟩)
  matching := h.others (.inr ⟨rfl, rfl⟩) rfl
  free := h.free
  held := by
    intro u hu
    have hut : u ≠ t := by
      rintro rfl
      have hholds := h.held u hu
      rw [ht] at hholds
      cases hholds
    show (Function.update s.threads t _ u).holds = true
    rw [Function.update_of_ne hut]
    exact h.held u hu

/-- The atomic object does not move when thread `t` is where it was there. -/
theorem Behind.still
    {s : Locked σ ι π ο}
    {a : Atomic σ ι ο}
    {object : σ}
    {t : Nat}
    {p : LockPoint ι π ο}
    {q : AtomicPoint ι ο}
    (h : Behind G M s a)
    (hq : a.threads t = q)
    (hsame : (∀ u, u ≠ t → (s.threads u).holds = false) ∨ object = s.object)
    (ht : Matches G M object a.object p q)
    (u : Nat) :
    Matches G M object a.object (Function.update s.threads t p u) (a.threads u) := by
  have hothers := h.others (hsame.imp id fun hobject => ⟨hobject, rfl⟩) ht u
  rw [← hq, Function.update_eq_self] at hothers
  exact hothers

theorem Behind.enter
    {s : Locked σ ι π ο}
    {a : Atomic σ ι ο}
    {t : Nat}
    {i : ι}
    (himplements : G.Implements M)
    (h : Behind G M s a)
    (ht : s.threads t = .locking i)
    (hlock : s.lock = none) :
    Behind G M { s.goto t (.inside i (G.enter i)) with lock := some t } a where
  exclusive := by
    have hexclusive := h.exclusive
    rw [hlock] at hexclusive
    exact hexclusive.acquire _
  matching := by
    have hcompletes : G.Completes (G.enter i) s.object (M.step a.object i).1
        (M.step a.object i).2 := by
      rw [h.free hlock]
      exact himplements a.object i
    exact h.still (h.at ht).locking (.inr rfl) ⟨rfl, hcompletes⟩
  free := by rintro ⟨⟩
  held := by
    intro u hu
    obtain rfl : t = u := Option.some.inj hu
    show (Function.update s.threads t _ t).holds = true
    rw [Function.update_self]
    rfl

/-- An access after which the call goes on. -/
theorem Behind.goOn
    {s : Locked σ ι π ο}
    {a : Atomic σ ι ο}
    {t : Nat}
    {i : ι}
    {p p' : π}
    {object : σ}
    (h : Behind G M s a)
    (ht : s.threads t = .inside i p)
    (haccess : G.access p s.object = (.inl p', object)) :
    Behind G M { s.goto t (.inside i p') with object := object } a := by
  have hholds : (s.threads t).holds = true := by rw [ht]; rfl
  obtain ⟨hwaiting, hcompletes⟩ := (h.at ht).inside
  have hrest : G.Completes p' object (M.step a.object i).1 (M.step a.object i).2 := by
    cases hcompletes with
    | last hlast =>
        rw [haccess] at hlast
        cases hlast
    | next hnext hrest =>
        rw [haccess] at hnext
        cases hnext
        exact hrest
  constructor
  · exact h.exclusive.move fun _ => hholds
  · exact h.still hwaiting (.inl (h.alone hholds)) ⟨rfl, hrest⟩
  · intro hlock
    have hholder := h.holder hholds
    rw [show s.lock = none from hlock] at hholder
    cases hholder
  · exact h.keep hholds rfl

/-- The last access of a call: the call takes effect. -/
theorem Behind.commit
    {s : Locked σ ι π ο}
    {a : Atomic σ ι ο}
    {t : Nat}
    {i : ι}
    {p : π}
    {o : ο}
    {object : σ}
    (h : Behind G M s a)
    (ht : s.threads t = .inside i p)
    (haccess : G.access p s.object = (.inr o, object)) :
    Behind G M { s.goto t (.leaving o) with object := object }
      { a.goto t (.answered (M.step a.object i).1) with object := (M.step a.object i).2 } := by
  have hholds : (s.threads t).holds = true := by rw [ht]; rfl
  obtain ⟨hwaiting, hcompletes⟩ := (h.at ht).inside
  obtain ⟨rfl, rfl⟩ : o = (M.step a.object i).1 ∧ object = (M.step a.object i).2 := by
    cases hcompletes with
    | last hlast =>
        rw [haccess] at hlast
        cases hlast
        exact ⟨rfl, rfl⟩
    | next hnext hrest =>
        rw [haccess] at hnext
        cases hnext
  constructor
  · exact h.exclusive.move fun _ => hholds
  · exact h.others (.inl (h.alone hholds)) ⟨rfl, rfl⟩
  · exact fun _ => rfl
  · exact h.keep hholds rfl

theorem Behind.leave
    {s : Locked σ ι π ο}
    {a : Atomic σ ι ο}
    {t : Nat}
    {o : ο}
    (h : Behind G M s a)
    (ht : s.threads t = .leaving o) :
    Behind G M { s.goto t .idle with lock := none } (a.goto t .idle) where
  exclusive := by
    have hexclusive := h.exclusive
    rw [h.holder (t := t) (by rw [ht]; rfl)] at hexclusive
    exact hexclusive.release rfl
  matching := h.others (.inr ⟨rfl, rfl⟩) trivial
  free := fun _ => (h.at ht).leaving.2
  held := by rintro u ⟨⟩

/-- **Each step is matched by the atomic object**, seen in the same way. -/
theorem Behind.step
    (himplements : G.Implements M)
    {object : σ}
    {s s' : Locked σ ι π ο}
    {a : Atomic σ ι ο}
    {e : CallStep ι}
    (h : Behind G M s a)
    (hstep : (Locked.system G object).step s e = some s') :
    ∃ fs b, (Atomic.system M object).runFrom a fs = some b ∧
      (Atomic.system M object).trace Atomic.seen a fs = Locked.seen s e ∧ Behind G M s' b := by
  have hone : ∀ {f b}, (Atomic.system M object).step a f = some b →
      Atomic.seen a f = Locked.seen s e → Behind G M s' b →
        ∃ fs b, (Atomic.system M object).runFrom a fs = some b ∧
          (Atomic.system M object).trace Atomic.seen a fs = Locked.seen s e ∧ Behind G M s' b := by
    intro f b hf hseen hb
    obtain ⟨hrun, htrace⟩ := System.run_one hf
    exact ⟨[f], b, hrun, htrace.trans hseen, hb⟩
  simp only [Locked.system, Locked.step] at hstep
  cases e with
  | call t i =>
      cases ht : s.threads t with
      | idle =>
          simp only [ht, Option.some.injEq] at hstep
          subst hstep
          refine hone (f := .call t i) ?_ rfl (h.call ht)
          simp only [Atomic.system, Atomic.step, (h.at ht).idle]
      | _ =>
          simp only [ht] at hstep
          cases hstep
  | advance t =>
      simp only [Locked.advance] at hstep
      cases ht : s.threads t with
      | idle =>
          simp only [ht] at hstep
          cases hstep
      | locking i =>
          simp only [ht, Option.ite_none_right_eq_some, Option.some.injEq] at hstep
          obtain ⟨hlock, rfl⟩ := hstep
          refine ⟨[], a, rfl, ?_, h.enter himplements ht hlock⟩
          simp only [System.trace, Locked.seen, ht]
      | inside i p =>
          simp only [ht] at hstep
          cases haccess : G.access p s.object with
          | mk answer next =>
              rw [haccess] at hstep
              cases answer with
              | inl p' =>
                  obtain rfl := Option.some.inj hstep
                  refine ⟨[], a, rfl, ?_, h.goOn ht haccess⟩
                  simp only [System.trace, Locked.seen, ht]
              | inr o =>
                  obtain rfl := Option.some.inj hstep
                  refine hone (f := .commit t) ?_ ?_ (h.commit ht haccess)
                  · simp only [Atomic.system, Atomic.step, (h.at ht).inside.1]
                  · simp only [Atomic.seen, Locked.seen, ht]
      | leaving o =>
          simp only [ht, Option.some.injEq] at hstep
          subst hstep
          refine hone (f := .back t) ?_ ?_ (h.leave ht)
          · simp only [Atomic.system, Atomic.step, (h.at ht).leaving.1]
          · simp only [Atomic.seen, Locked.seen, ht, (h.at ht).leaving.1]

/-- **Behind its lock an object is atomic.**  What is seen of a run could have been seen of
the atomic object; and while nobody is inside, the objects are the same. -/
theorem locked_refines_atomic
    (himplements : G.Implements M)
    (object : σ)
    {s : Locked σ ι π ο}
    {es : List (CallStep ι)}
    (hrun : (Locked.system G object).run es = some s) :
    ∃ fs a, (Atomic.system M object).run fs = some a ∧
      (Atomic.system M object).trace Atomic.seen (Atomic.init object) fs =
        (Locked.system G object).trace Locked.seen (Locked.init object) es ∧
      (s.lock = none → s.object = a.object) := by
  obtain ⟨fs, a, hfs, hseen, ha⟩ := System.forward_simulation
    (M := Locked.system G object) (fun _ _ _ _ h hstep => h.step himplements hstep)
    (behind_init object) hrun
  exact ⟨fs, a, hfs, hseen, ha.free⟩

end Behind

/-! ### From one atomic object to another -/

section Atomic

variable {σ τ : Type u} {ι ο : Type v} {M : Machine σ ι ο} {N : Machine τ ι ο}

/-- The same threads, and objects that stand for one another. -/
def Alike (R : σ → τ → Prop) (a : Atomic σ ι ο) (b : Atomic τ ι ο) : Prop :=
  a.threads = b.threads ∧ R a.object b.object

theorem Alike.step
    {R : σ → τ → Prop}
    (hmachines : ∀ s t i, R s t →
      (M.step s i).1 = (N.step t i).1 ∧ R (M.step s i).2 (N.step t i).2)
    {a a' : Atomic σ ι ο}
    {b : Atomic τ ι ο}
    {e : AtomicStep ι}
    (h : Alike R a b)
    (hstep : Atomic.step M a e = some a') :
    Atomic.seen b e = Atomic.seen a e ∧ ∃ b', Atomic.step N b e = some b' ∧ Alike R a' b' := by
  obtain ⟨hthreads, hobjects⟩ := h
  refine ⟨by cases e <;> simp only [Atomic.seen, hthreads], ?_⟩
  cases e with
  | call t i =>
      simp only [Atomic.step, ← hthreads] at hstep ⊢
      cases ht : a.threads t with
      | idle =>
          simp only [ht, Option.some.injEq] at hstep ⊢
          subst hstep
          exact ⟨_, rfl, by simp only [Atomic.goto, hthreads], hobjects⟩
      | _ =>
          simp only [ht] at hstep
          cases hstep
  | commit t =>
      simp only [Atomic.step, ← hthreads] at hstep ⊢
      cases ht : a.threads t with
      | waiting i =>
          simp only [ht, Option.some.injEq] at hstep ⊢
          subst hstep
          obtain ⟨hanswers, hnext⟩ := hmachines _ _ i hobjects
          exact ⟨_, rfl, by simp only [Atomic.goto, hthreads, hanswers], hnext⟩
      | _ =>
          simp only [ht] at hstep
          cases hstep
  | back t =>
      simp only [Atomic.step, ← hthreads] at hstep ⊢
      cases ht : a.threads t with
      | answered o =>
          simp only [ht, Option.some.injEq] at hstep ⊢
          subst hstep
          exact ⟨_, rfl, by simp only [Atomic.goto, hthreads], hobjects⟩
      | _ =>
          simp only [ht] at hstep
          cases hstep

/-- **Machines that agree make atomic objects that agree.** -/
theorem atomic_refines
    {R : σ → τ → Prop}
    (hmachines : ∀ s t i, R s t →
      (M.step s i).1 = (N.step t i).1 ∧ R (M.step s i).2 (N.step t i).2)
    {object : σ}
    {object' : τ}
    (hinit : R object object')
    {a : Atomic σ ι ο}
    {es : List (AtomicStep ι)}
    (hrun : (Atomic.system M object).run es = some a) :
    ∃ fs b, (Atomic.system N object').run fs = some b ∧
      (Atomic.system N object').trace Atomic.seen (Atomic.init object') fs =
        (Atomic.system M object).trace Atomic.seen (Atomic.init object) es ∧
      R a.object b.object := by
  have hstep : ∀ s e t b, Alike R s b → (Atomic.system M object).step s e = some t →
      ∃ fs c, (Atomic.system N object').runFrom b fs = some c ∧
        (Atomic.system N object').trace Atomic.seen b fs = Atomic.seen s e ∧ Alike R t c := by
    intro s e t b h hstep
    obtain ⟨hseen, c, hc, hnext⟩ := h.step hmachines hstep
    have hone : (Atomic.system N object').step b e = some c := hc
    obtain ⟨hrun, htrace⟩ := System.run_one hone
    exact ⟨[e], c, hrun, htrace.trans hseen, hnext⟩
  have halike : Alike R (Atomic.init object : Atomic σ ι ο) (Atomic.init object') :=
    ⟨rfl, hinit⟩
  obtain ⟨fs, b, hfs, hseen, hb⟩ := System.forward_simulation hstep halike hrun
  exact ⟨fs, b, hfs, hseen, hb.2⟩

end Atomic

end Library
end ZeroRPC
