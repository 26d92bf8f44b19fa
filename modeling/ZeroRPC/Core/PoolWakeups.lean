import ZeroRPC.Core.PoolCounts

/-!
# Tasks nobody wakes up for

`_taskCV` carries two kinds of notification, and a worker that wakes up looks at
`_destroyedThreadNum` before it looks at the queue.  A reduction that tells more workers to
exit than it finds in `wait` leaves exits owed; the worker that a later `commit` notifies
then exits, and the task stays in the queue with every other worker asleep.

Main facts:
* `Manned.step`: while every reduction finds its workers in `wait`, fewer exits are owed than
  workers are awake to look at the queue;
* `Owing.strands`: exits that are owed beyond that strand a later task in some run;
* `never_stranded_iff`: both, for a pool of at least one thread;
* `task_stranded`: a reduction of a busy pool and a commit to it strand the task.
-/

namespace ZeroRPC
namespace Core

open Library

/-- There is a task, every live worker is blocked in `wait`, and no notification is on
its way. -/
def Stranded (s : Pool) : Prop :=
  s.taskQueue ≠ [] ∧ (∀ p ∈ s.workers, p = .waiting) ∧ s.notifying = 0

instance (s : Pool) : Decidable (Stranded s) :=
  inferInstanceAs (Decidable (_ ∧ _ ∧ _))

/-- The workers in `_taskCV.wait`, notified there or not. -/
def Pool.inWait (s : Pool) : Nat := s.workers.count .waiting + s.workers.count .woken

/-- A check that reduces the pool finds as many workers in `wait` as it tells to exit. -/
def ReducesInWait (config : PoolConfig) (s : Pool) : PoolEvent → Prop
  | .check _ =>
      ¬ Pool.Expends config s → Pool.Reduces config s → config.batchSize ≤ s.inWait
  | _ => True

/-- At the head of its loop or in a task: such a worker will look at the queue. -/
def WorkerPoint.looks : WorkerPoint → Prop
  | .ready => True
  | .running _ => True
  | _ => False

/-! ### Workers that are notified -/

section Notify

variable {workers next : List WorkerPoint}

/-- A `notify_one` wakes one worker, or nobody waits. -/
theorem notifyOne_counts
    {choice : Option Nat}
    (h : notifyOne workers choice = some next) :
    (next = workers ∧ workers.count .waiting = 0) ∨
      (next.count .waiting + 1 = workers.count .waiting ∧
        next.count .woken = workers.count .woken + 1) := by
  rcases Pool.notifyOne_cases h with ⟨hnone, rfl⟩ | ⟨w, hw, rfl⟩
  · exact .inl ⟨rfl, List.count_eq_zero.mpr hnone⟩
  · have hwaiting := Slots.count_set_add hw .woken .waiting
    have hwoken := Slots.count_set_add hw .woken .woken
    simp only [if_true, reduceCtorEq, if_false] at hwaiting hwoken
    exact .inr ⟨by omega, by omega⟩

/-- After `n` of them nobody waits, or `n` more are woken. -/
theorem notifyAll_counts
    {choices : List (Option Nat)}
    (h : Pool.notifyAll choices workers = some next) :
    next.count .waiting + next.count .woken = workers.count .waiting + workers.count .woken ∧
      (next.count .waiting = 0 ∨ next.count .woken = workers.count .woken + choices.length) := by
  induction choices generalizing workers with
  | nil =>
      obtain rfl := Option.some.inj h
      exact ⟨rfl, .inr rfl⟩
  | cons choice choices ih =>
      rw [Pool.notifyAll] at h
      cases hfirst : notifyOne workers choice with
      | none =>
          rw [hfirst] at h
          cases h
      | some mid =>
          rw [hfirst] at h
          obtain ⟨hsum, hrest⟩ := ih h
          rw [List.length_cons]
          rcases notifyOne_counts hfirst with ⟨rfl, hnone⟩ | ⟨hwaiting, hwoken⟩
          · exact ⟨hsum, .inl (by omega)⟩
          · refine ⟨by omega, ?_⟩
            rcases hrest with hzero | hmore
            · exact .inl hzero
            · exact .inr (by omega)

/-- Who looks at the queue still does. -/
theorem notifyOne_looks
    {choice : Option Nat}
    (h : notifyOne workers choice = some next)
    (hlooks : ∃ p ∈ workers, p.looks) :
    ∃ p ∈ next, p.looks := by
  rcases Pool.notifyOne_cases h with ⟨-, rfl⟩ | ⟨w, hw, rfl⟩
  · exact hlooks
  · obtain ⟨p, hp, hlook⟩ := hlooks
    obtain ⟨i, hi⟩ := List.getElem?_of_mem hp
    have hne : w ≠ i := by
      rintro rfl
      rw [hw] at hi
      cases hi
      exact hlook
    refine ⟨p, List.mem_of_getElem? (i := i) ?_, hlook⟩
    rw [List.getElem?_set_ne hne, hi]

theorem notifyAll_looks
    {choices : List (Option Nat)}
    (h : Pool.notifyAll choices workers = some next) :
    (∃ p ∈ workers, p.looks) → ∃ p ∈ next, p.looks := by
  refine Pool.notifyAll_rule
    (R := fun workers next => (∃ p ∈ workers, p.looks) → ∃ p ∈ next, p.looks) ?_ ?_ ?_ h
  · exact fun _ hlooks => hlooks
  · exact fun _ _ _ hfirst hrest hlooks => hrest (hfirst hlooks)
  · exact fun _ _ _ hone hlooks => notifyOne_looks hone hlooks

/-- With nobody waiting and nobody at the queue, everybody is woken. -/
theorem count_woken_of_none
    (hwaiting : workers.count .waiting = 0)
    (hlooks : ¬ ∃ p ∈ workers, p.looks) :
    workers.count .woken = workers.length := by
  refine List.count_eq_length.mpr fun p hp => ?_
  cases p with
  | waiting => exact absurd hp (List.count_eq_zero.mp hwaiting)
  | woken => rfl
  | ready => exact absurd ⟨_, hp, trivial⟩ hlooks
  | running task => exact absurd ⟨_, hp, trivial⟩ hlooks

end Notify

/-! ### Enough workers awake -/

/-- The invariant: the threads that are not about to exit are at least `_minThread`, no exit is
owed without a woken worker for it, and a task in the queue has somebody to come. -/
structure Manned (config : PoolConfig) (s : Pool) : Prop where
  spawning : s.constructed = false →
    s.destroyedThreadNum = 0 ∧ s.workers.length + s.toSpawn = config.minThread
  spawned : s.constructed = true → s.toSpawn = 0
  enough : s.constructed = true → config.minThread + s.destroyedThreadNum ≤ s.workers.length
  owed : s.destroyedThreadNum ≤ s.workers.count .woken
  seen : s.taskQueue ≠ [] →
    0 < s.notifying ∨ (∃ p ∈ s.workers, p.looks) ∨ s.destroyedThreadNum < s.workers.count .woken

namespace Manned

variable {config : PoolConfig} {s t : Pool} {w : Nat}

theorem init (config : PoolConfig) : Manned config (Pool.init config) where
  spawning := fun _ => ⟨rfl, Nat.zero_add _⟩
  spawned := fun h => by cases h
  enough := fun h => by cases h
  owed := Nat.le_refl _
  seen := fun h => absurd rfl h

/-- So nobody is stranded. -/
theorem not_stranded
    (h : Manned config s) :
    ¬ Stranded s := by
  rintro ⟨hqueue, hblocked, hnone⟩
  rcases h.seen hqueue with hnotify | ⟨p, hp, hlook⟩ | hwoken
  · omega
  · rw [hblocked p hp] at hlook
    exact hlook
  · have hmem : WorkerPoint.woken ∈ s.workers := List.count_pos_iff.mp (by omega)
    cases hblocked _ hmem

theorem inWait_le (s : Pool) : s.inWait ≤ s.workers.length := by
  have hdisjoint : s.workers.countP (· == .waiting) + s.workers.countP (· == .woken) ≤
      s.workers.length := by
    induction s.workers with
    | nil => exact Nat.le_refl _
    | cons p workers ih =>
        rw [List.countP_cons, List.countP_cons, List.length_cons]
        cases p <;> simp <;> omega
  exact hdisjoint

/-- With nobody at the queue everybody is in `wait`. -/
theorem inWait_eq
    (hlooks : ¬ ∃ p ∈ s.workers, p.looks) :
    s.inWait = s.workers.length := by
  have hall : ∀ workers : List WorkerPoint, (¬ ∃ p ∈ workers, p.looks) →
      workers.count .waiting + workers.count .woken = workers.length := by
    intro workers hnone
    induction workers with
    | nil => rfl
    | cons p workers ih =>
        have hrest := ih fun ⟨q, hq, hlook⟩ => hnone ⟨q, List.mem_cons_of_mem _ hq, hlook⟩
        rw [List.count_cons, List.count_cons, List.length_cons]
        cases p with
        | waiting => simp; omega
        | woken => simp; omega
        | ready => exact absurd ⟨_, List.mem_cons_self, trivial⟩ hnone
        | running task => exact absurd ⟨_, List.mem_cons_self, trivial⟩ hnone
  exact hall s.workers hlooks

/-- A task in the queue was committed to a constructed pool. -/
theorem constructed_of_queue
    (haccount : Accounted s)
    (hqueue : s.taskQueue ≠ []) :
    s.constructed = true := by
  by_contra hfalse
  have horder := haccount.order
  rw [haccount.before (by simpa using hfalse)] at horder
  exact hqueue (List.append_eq_nil_iff.mp horder.symm).2

/-- One worker goes to where it looks at the queue, or is in its task. -/
theorem place
    {p q : WorkerPoint}
    (h : Manned config s)
    (hw : s.workers[w]? = some p)
    (hq : q.looks)
    (howed : p = .woken → s.destroyedThreadNum = 0)
    (hconstructed : t.constructed = s.constructed)
    (hspawn : t.toSpawn = s.toSpawn)
    (hdestroyed : t.destroyedThreadNum = s.destroyedThreadNum)
    (hworkers : t.workers = s.workers.set w q) :
    Manned config t := by
  obtain ⟨hlt, -⟩ := List.getElem?_eq_some_iff.mp hw
  constructor
  · rw [hconstructed, hspawn, hdestroyed, hworkers, List.length_set]
    exact h.spawning
  · rw [hconstructed, hspawn]
    exact h.spawned
  · rw [hconstructed, hdestroyed, hworkers, List.length_set]
    exact h.enough
  · rw [hdestroyed, hworkers]
    have hcount := Slots.count_set_add hw q .woken
    have hbefore := h.owed
    by_cases hwoken : p = .woken
    · rw [howed hwoken]
      exact Nat.zero_le _
    · rw [if_neg hwoken] at hcount
      split at hcount <;> omega
  · intro _
    refine .inr (.inl ⟨q, ?_, hq⟩)
    rw [hworkers]
    exact List.mem_set hlt q

/-- A worker tests the queue and takes its front, or waits. -/
theorem test
    {p : WorkerPoint}
    (h : Manned config s)
    (hw : s.workers[w]? = some p)
    (howed : p = .woken → s.destroyedThreadNum = 0) :
    Manned config (s.test w) := by
  cases hqueue : s.taskQueue with
  | cons front rest =>
      exact h.place (q := .running front) hw trivial howed (by simp only [Pool.test, hqueue])
        (by simp only [Pool.test, hqueue]) (by simp only [Pool.test, hqueue])
        (by simp only [Pool.test, hqueue, Handle.move_fst])
  | nil =>
      have hcount := Slots.count_set_add hw .waiting .woken
      have hbefore := h.owed
      simp only [Pool.test, hqueue]
      constructor
      · simpa only [List.length_set] using h.spawning
      · exact h.spawned
      · simpa only [List.length_set] using h.enough
      · show s.destroyedThreadNum ≤ (s.workers.set w .waiting).count .woken
        simp only [reduceCtorEq, if_false] at hcount
        by_cases hwoken : p = .woken
        · rw [howed hwoken]
          exact Nat.zero_le _
        · rw [if_neg hwoken] at hcount
          omega
      · exact fun hne => absurd rfl hne

theorem exit
    (h : Manned config s)
    (hw : s.workers[w]? = some .woken)
    (hdestroyed : 0 < s.destroyedThreadNum) :
    Manned config (s.exit w) := by
  obtain ⟨hlt, -⟩ := List.getElem?_eq_some_iff.mp hw
  have hlength := List.length_eraseIdx_of_lt hlt
  have hcount := Slots.count_eraseIdx_add hw .woken
  simp only [if_true] at hcount
  have howed := h.owed
  simp only [Pool.exit]
  constructor
  · intro hfalse
    have hzero := (h.spawning hfalse).1
    omega
  · exact h.spawned
  · intro htrue
    have henough := h.enough htrue
    show config.minThread + (s.destroyedThreadNum - 1) ≤ (s.workers.eraseIdx w).length
    omega
  · show s.destroyedThreadNum - 1 ≤ (s.workers.eraseIdx w).count .woken
    omega
  · intro hqueue
    rcases h.seen hqueue with hnotify | ⟨p, hp, hlook⟩ | hless
    · exact .inl hnotify
    · -- the worker that goes was in `wait`
      refine .inr (.inl ⟨p, ?_, hlook⟩)
      have hperm := List.getElem_cons_eraseIdx_perm hlt
      rcases List.mem_cons.mp (hperm.mem_iff.mpr hp) with hself | hrest
      · rw [List.getElem?_eq_getElem hlt, Option.some.injEq] at hw
        rw [hself, hw] at hlook
        exact absurd hlook id
      · exact hrest
    · exact .inr (.inr (by
        show s.destroyedThreadNum - 1 < (s.workers.eraseIdx w).count .woken
        omega))

/-- A `notify_one` reaches a worker, or everybody is awake. -/
theorem notify
    {n : Nat}
    {choice : Option Nat}
    {workers : List WorkerPoint}
    (hmin : 1 ≤ config.minThread)
    (haccount : Accounted s)
    (h : Manned config s)
    (hone : notifyOne s.workers choice = some workers) :
    Manned config { s with notifying := n, workers := workers } := by
  have hlength := (Pool.notifyOne_spec hone).1
  have howed := h.owed
  constructor
  · show s.constructed = false → _ ∧ workers.length + s.toSpawn = config.minThread
    rw [hlength]
    exact h.spawning
  · exact h.spawned
  · show s.constructed = true → _ ≤ workers.length
    rw [hlength]
    exact h.enough
  · show s.destroyedThreadNum ≤ workers.count .woken
    rcases notifyOne_counts hone with ⟨rfl, -⟩ | ⟨-, hwoken⟩
    · exact howed
    · omega
  · intro hqueue
    by_cases hlooks : ∃ p ∈ s.workers, p.looks
    · exact .inr (.inl (notifyOne_looks hone hlooks))
    · refine .inr (.inr ?_)
      show s.destroyedThreadNum < workers.count .woken
      rcases notifyOne_counts hone with ⟨rfl, hnone⟩ | ⟨-, hwoken⟩
      · rw [count_woken_of_none hnone hlooks]
        have henough := h.enough (constructed_of_queue haccount hqueue)
        omega
      · omega

/-- The daemon adds threads at the head of their loop. -/
theorem expend
    (h : Manned config s)
    (haccount : Accounted s)
    (htest : Pool.Expends config s)
    (hexpend : Pool.expendThreadPool config.batchSize s = some t) :
    Manned config t := by
  have htrue : s.constructed = true := by
    by_contra hne
    have hidle := haccount.idle (by simpa using hne)
    have hworking := htest.1
    omega
  rw [Accounted.expendThreadPool_eq hexpend]
  have hcount : (s.workers ++ List.replicate config.batchSize WorkerPoint.ready).count .woken =
      s.workers.count .woken := by
    simp [List.count_append, List.count_replicate]
  constructor
  · intro hfalse
    rw [show s.constructed = false from hfalse] at htrue
    cases htrue
  · exact h.spawned
  · intro _
    have henough := h.enough htrue
    show config.minThread + s.destroyedThreadNum ≤ (s.workers ++ _).length
    rw [List.length_append]
    omega
  · show s.destroyedThreadNum ≤ List.count _ _
    rw [hcount]
    exact h.owed
  · intro hqueue
    rcases h.seen hqueue with hnotify | ⟨p, hp, hlook⟩ | hless
    · exact .inl hnotify
    · exact .inr (.inl ⟨p, List.mem_append_left _ hp, hlook⟩)
    · refine .inr (.inr ?_)
      show s.destroyedThreadNum < List.count _ _
      rwa [hcount]

/-- The daemon tells workers to exit that are in `wait`. -/
theorem reduce
    {choices : List (Option Nat)}
    {workers : List WorkerPoint}
    (hmin : 1 ≤ config.minThread)
    (h : Manned config s)
    (haccount : Accounted s)
    (htest : Pool.Reduces config s)
    (hbatch : config.batchSize ≤ s.inWait)
    (hchoices : choices.length = config.batchSize)
    (hall : Pool.notifyAll choices s.workers = some workers) :
    Manned config { s with destroyedThreadNum := config.batchSize, workers := workers } := by
  obtain ⟨-, hleft⟩ := htest
  have hlength := (Pool.notifyAll_spec hall).1
  obtain ⟨hsum, hwoken⟩ := notifyAll_counts hall
  have hin := inWait_le s
  have hthreads := haccount.threads
  rw [u32Sub_of_le (by omega)] at hleft
  rw [Pool.inWait] at hbatch hin
  constructor
  · intro hfalse
    obtain ⟨-, htotal⟩ := h.spawning hfalse
    show config.batchSize = 0 ∧ workers.length + s.toSpawn = config.minThread
    omega
  · exact h.spawned
  · intro _
    show config.minThread + config.batchSize ≤ workers.length
    omega
  · show config.batchSize ≤ workers.count .woken
    omega
  · intro hqueue
    by_cases hlooks : ∃ p ∈ s.workers, p.looks
    · exact .inr (.inl (notifyAll_looks hall hlooks))
    · rcases h.seen hqueue with hnotify | hlook | hless
      · exact .inl hnotify
      · exact absurd hlook hlooks
      · refine .inr (.inr ?_)
        show config.batchSize < workers.count .woken
        have heverybody := inWait_eq hlooks
        rw [Pool.inWait] at heverybody
        omega

/-- **A step whose reduction finds its workers in `wait` leaves enough of them awake.** -/
theorem step
    {e : PoolEvent}
    (hmin : 1 ≤ config.minThread)
    (h : Manned config s)
    (haccount : Accounted s)
    (hok : ReducesInWait config s e)
    (hstep : Pool.step config s e = some t) :
    Manned config t := by
  cases Pool.step_moves hstep with
  | @spawn n t hn hspawn =>
      have hfalse : s.constructed = false := by
        by_contra hne
        have hzero := h.spawned (by simpa using hne)
        omega
      obtain ⟨hdestroyed, htotal⟩ := h.spawning hfalse
      obtain ⟨-, rfl⟩ := Pool.spawn_eq hspawn
      constructor
      · intro _
        refine ⟨hdestroyed, ?_⟩
        show (s.workers ++ [WorkerPoint.ready]).length + n = config.minThread
        rw [List.length_append, List.length_singleton]
        omega
      · intro htrue
        rw [show s.constructed = true from htrue] at hfalse
        cases hfalse
      · intro htrue
        rw [show s.constructed = true from htrue] at hfalse
        cases hfalse
      · show s.destroyedThreadNum ≤ _
        rw [hdestroyed]
        exact Nat.zero_le _
      · exact fun _ => .inr (.inl ⟨.ready, List.mem_append_right _ List.mem_cons_self, trivial⟩)
  | construct hspawn hfalse =>
      obtain ⟨hdestroyed, htotal⟩ := h.spawning hfalse
      refine ⟨?_, fun _ => hspawn, fun _ => ?_, h.owed, h.seen⟩
      · intro htrue
        cases htrue
      · show config.minThread + s.destroyedThreadNum ≤ s.workers.length
        omega
  | commit =>
      exact ⟨h.spawning, h.spawned, h.enough, h.owed, fun _ => .inl (Nat.succ_pos _)⟩
  | notify _ hone => exact h.notify hmin haccount hone
  | enter hw => exact h.test hw fun hwoken => by cases hwoken
  | exit hw hdestroyed => exact h.exit hw hdestroyed
  | retest hw hdestroyed => exact h.test hw fun _ => hdestroyed
  | @spurious w hw =>
      have hcount := Slots.count_set_add hw .woken .woken
      simp only [if_true, reduceCtorEq, if_false, Nat.add_zero] at hcount
      have howed := h.owed
      constructor
      · simpa only [List.length_set] using h.spawning
      · exact h.spawned
      · simpa only [List.length_set] using h.enough
      · show s.destroyedThreadNum ≤ (s.workers.set w .woken).count .woken
        omega
      · intro _
        refine .inr (.inr ?_)
        show s.destroyedThreadNum < (s.workers.set w .woken).count .woken
        omega
  | threw => exact ⟨h.spawning, h.spawned, h.enough, h.owed, h.seen⟩
  | finish hw =>
      exact h.place (q := .ready) hw trivial (fun hwoken => by cases hwoken) rfl rfl rfl rfl
  | expend htest hexpend => exact h.expend haccount htest hexpend
  | reduce hexpends htest hall hlength =>
      exact h.reduce hmin haccount htest (hok hexpends htest) hlength hall
  | pass => exact h

end Manned

theorem Manned.of_reachable
    {config : PoolConfig}
    {s : Pool}
    (hmin : 1 ≤ config.minThread)
    (h : (Pool.system config).Reachable (ReducesInWait config) s) :
    Manned config s := by
  have hinvariant : Manned config s ∧ Accounted s := by
    refine h.invariant (I := fun s => Manned config s ∧ Accounted s)
      ⟨.init config, accounted_init config⟩ ?_
    rintro s e t ⟨hs, haccount⟩ hok hstep
    exact ⟨hs.step hmin haccount hok hstep, haccount.step hstep⟩
  exact hinvariant.1

/-! ### More exits owed than workers awake -/

theorem leads_one
    {config : PoolConfig}
    {s t : Pool}
    {e : PoolEvent}
    (hstep : Pool.step config s e = some t) :
    (Pool.system config).Leads s t := by
  have hfirst : (Pool.system config).step s e = some t := hstep
  exact System.Leads.head hfirst (.refl t)

/-- With no thread at all a commit finds nobody. -/
theorem strands_of_nobody
    {config : PoolConfig}
    {s : Pool}
    (hconstructed : s.constructed = true)
    (hlive : s.ended = false)
    (hdelivered : s.notifying = 0)
    (hnobody : s.workers = []) :
    ∃ t, (Pool.system config).Leads s t ∧ Stranded t := by
  have hcommit : Pool.step config s (.commit false) = some (s.commit false) := by
    simp [Pool.step, hlive, hconstructed]
  have hnotify : Pool.step config (s.commit false) (.notify none) =
      some { s.commit false with notifying := 0 } := by
    simp [Pool.step, Pool.commit, hlive, hdelivered, hnobody, notifyOne]
  refine ⟨_, (leads_one hcommit).trans (leads_one hnotify), ?_, ?_, rfl⟩
  · simp [Pool.commit]
  · simp [Pool.commit, hnobody]

/-- The daemon told more workers to exit than it found: what is committed now is lost once
all of them have gone to sleep. -/
structure Owing (s : Pool) : Prop where
  constructed : s.constructed = true
  live : s.ended = false
  owed : s.workers.count .woken < s.destroyedThreadNum
  unwatched : s.notifying = 0 ∨ .waiting ∉ s.workers

namespace Owing

variable {config : PoolConfig} {s t : Pool} {w : Nat}

/-- After a reduction that finds too few workers in `wait`. -/
theorem of_check
    {choices : List (Option Nat)}
    (hconstructed : s.constructed = true)
    (hfew : ¬ ReducesInWait config s (.check choices))
    (hstep : Pool.step config s (.check choices) = some t) :
    Owing t := by
  have hlive : s.ended = false := by
    by_contra hended
    rw [Pool.step, if_pos (by simpa using hended)] at hstep
    cases hstep
  rw [ReducesInWait, Classical.not_imp, Classical.not_imp, Nat.not_le, Pool.inWait] at hfew
  obtain ⟨hexpends, hreduces, hfew⟩ := hfew
  cases Pool.step_moves hstep with
  | expend htest => exact absurd htest hexpends
  | reduce _ _ hall hlength =>
      obtain ⟨hsum, hwoken⟩ := notifyAll_counts hall
      refine ⟨hconstructed, hlive, ?_, .inr (List.count_eq_zero.mp ?_)⟩
      · refine lt_of_le_of_lt ?_ hfew
        exact (Nat.le_add_left _ _).trans hsum.le
      · rcases hwoken with hzero | hmore
        · exact hzero
        · omega
  | pass =>
      -- the daemon's turn is that of a reduction
      have hsame : s.daemonTask config [] = some s := by
        rw [Pool.step, if_neg (by simp [hlive])] at hstep
        exact hstep
      rw [Pool.daemonTask, if_neg hexpends, if_pos hreduces, Pool.reduceThreadPool] at hsame
      split at hsame
      case isTrue hzero =>
        rw [← hzero] at hfew
        exact absurd hfew (Nat.not_lt_zero _)
      case isFalse => cases hsame

/-- What is left to do until all sleep. -/
def left (s : Pool) : Nat :=
  4 * s.taskQueue.length + (s.workers.map WorkerPoint.left).sum + s.notifying

/-- A `notify_one` that finds nobody. -/
theorem deliver
    {n : Nat}
    (h : Owing s)
    (hn : s.notifying = n + 1) :
    ∃ t, (Pool.system config).Leads s t ∧ Owing t ∧ left t < left s := by
  have hnone : .waiting ∉ s.workers := by
    rcases h.unwatched with hzero | hnone
    · omega
    · exact hnone
  have hone : notifyOne s.workers none = some s.workers := if_neg hnone
  have hstep : Pool.step config s (.notify none) = some { s with notifying := n } := by
    simp [Pool.step, h.live, hn, hone]
  refine ⟨_, leads_one hstep, ⟨h.constructed, h.live, h.owed, .inr hnone⟩, ?_⟩
  rw [left, left, hn]
  exact Nat.lt_succ_self _

/-- A worker that is not asleep comes nearer to it, or goes. -/
theorem progress
    {p : WorkerPoint}
    (h : Owing s)
    (hdelivered : s.notifying = 0)
    (hw : s.workers[w]? = some p)
    (hp : p ≠ .waiting) :
    ∃ t, (Pool.system config).Leads s t ∧ Owing t ∧ left t < left s := by
  obtain ⟨hlt, -⟩ := List.getElem?_eq_some_iff.mp hw
  have hsum := ((Slots.perm_eraseIdx hw).map WorkerPoint.left).sum_eq
  have hset : ∀ q, ((s.workers.set w q).map WorkerPoint.left).sum =
      q.left + ((s.workers.eraseIdx w).map WorkerPoint.left).sum := fun q =>
    ((List.set_perm_cons_eraseIdx hlt q).map WorkerPoint.left).sum_eq
  have hgone := Slots.count_eraseIdx_add hw .woken
  have hwoken := fun q => Slots.count_set_add hw q .woken
  have howed := h.owed
  rw [List.map_cons, List.sum_cons] at hsum
  cases p with
  | waiting => exact absurd rfl hp
  | ready =>
      have hstep : Pool.step config s (.enter w) = some (s.test w) := by
        simp [Pool.step, h.live, hw]
      refine ⟨_, leads_one hstep, ?_⟩
      cases hqueue : s.taskQueue with
      | nil =>
          have hcount := hwoken .waiting
          simp only [reduceCtorEq, if_false, Nat.add_zero] at hcount
          simp only [Pool.test, hqueue]
          refine ⟨⟨h.constructed, h.live, hcount.trans_lt howed, .inl hdelivered⟩, ?_⟩
          simp only [left, hset, hsum, WorkerPoint.left, hqueue]
          omega
      | cons front rest =>
          have hcount := hwoken (.running front)
          simp only [reduceCtorEq, if_false, Nat.add_zero] at hcount
          simp only [Pool.test, hqueue, Handle.move_fst]
          refine ⟨⟨h.constructed, h.live, hcount.trans_lt howed, .inl hdelivered⟩, ?_⟩
          simp only [left, hset, hsum, WorkerPoint.left, hqueue, List.length_cons]
          omega
  | woken =>
      have hstep : Pool.step config s (.wake w) = some (s.exit w) := by
        simp [Pool.step, h.live, hw, Nat.zero_lt_of_lt howed]
      simp only [if_true] at hgone
      refine ⟨_, leads_one hstep, ⟨h.constructed, h.live, ?_, .inl hdelivered⟩, ?_⟩
      · show (s.workers.eraseIdx w).count .woken < s.destroyedThreadNum - 1
        omega
      · simp only [left, Pool.exit, hsum, WorkerPoint.left]
        omega
  | running task =>
      have hstep : Pool.step config s (.finish w false) = some (s.finish w task) := by
        simp [Pool.step, h.live, hw]
      have hcount := hwoken .ready
      simp only [reduceCtorEq, if_false, Nat.add_zero] at hcount
      refine ⟨_, leads_one hstep, ⟨h.constructed, h.live, hcount.trans_lt howed, .inl hdelivered⟩,
        ?_⟩
      simp only [left, Pool.finish, hset, hsum, WorkerPoint.left]
      omega

/-- In the end all sleep. -/
theorem settles
    (config : PoolConfig)
    (h : Owing s) :
    ∃ t, (Pool.system config).Leads s t ∧ Owing t ∧
      t.notifying = 0 ∧ ∀ p ∈ t.workers, p = .waiting := by
  refine System.leads_of_measure left (fun s h => ?_) h
  cases hn : s.notifying with
  | succ n => exact .inr (h.deliver hn)
  | zero =>
      by_cases hall : ∀ p ∈ s.workers, p = .waiting
      · exact .inl ⟨rfl, hall⟩
      · push Not at hall
        obtain ⟨p, hmem, hp⟩ := hall
        obtain ⟨w, hw⟩ := List.mem_iff_getElem?.mp hmem
        exact .inr (h.progress hn hw hp)

/-- **The worker that the next commit wakes exits.** -/
theorem loses
    (config : PoolConfig)
    (h : Owing s)
    (hdelivered : s.notifying = 0)
    (hasleep : ∀ p ∈ s.workers, p = .waiting) :
    ∃ t, (Pool.system config).Leads s t ∧ Stranded t := by
  cases hworkers : s.workers with
  | nil => exact strands_of_nobody h.constructed h.live hdelivered hworkers
  | cons p rest =>
      obtain rfl : p = .waiting := hasleep p (by rw [hworkers]; exact List.mem_cons_self)
      have hrest : ∀ q ∈ rest, q = .waiting := fun q hq =>
        hasleep q (by rw [hworkers]; exact List.mem_cons_of_mem _ hq)
      have hdestroyed := Nat.zero_lt_of_lt h.owed
      have hcommit : Pool.step config s (.commit false) = some (s.commit false) := by
        simp [Pool.step, h.live, h.constructed]
      have hnotify : Pool.step config (s.commit false) (.notify (some 0)) =
          some { s.commit false with notifying := 0, workers := .woken :: rest } := by
        simp [Pool.step, Pool.commit, h.live, hdelivered, hworkers, notifyOne]
      have hwake : Pool.step config
          { s.commit false with notifying := 0, workers := .woken :: rest } (.wake 0) =
          some (Pool.exit { s.commit false with notifying := 0, workers := .woken :: rest } 0) := by
        simp [Pool.step, Pool.commit, h.live, hdestroyed]
      have hleads := (leads_one hcommit).trans ((leads_one hnotify).trans (leads_one hwake))
      refine ⟨_, hleads, ?_, ?_, rfl⟩
      · simp [Pool.exit, Pool.commit]
      · simpa only [Pool.exit, List.eraseIdx_cons_zero] using hrest

theorem strands
    (config : PoolConfig)
    (h : Owing s) :
    ∃ t, (Pool.system config).Leads s t ∧ Stranded t := by
  obtain ⟨t, hsettle, ht, hdelivered, hasleep⟩ := h.settles config
  obtain ⟨u, hleads, hu⟩ := ht.loses config hdelivered hasleep
  exact ⟨u, hsettle.trans hleads, hu⟩

end Owing

/-! ### Both -/

/-- A pool that may have no thread is constructed with none. -/
theorem strands_without_threads
    {config : PoolConfig}
    (hmin : config.minThread = 0) :
    ∃ s, (Pool.system config).Reachable (ReducesInWait config) s ∧ Stranded s := by
  have hconstruct : (Pool.system config).step (Pool.init config) .construct =
      some { Pool.init config with constructed := true } := by
    simp [Pool.system, Pool.step, Pool.init, hmin]
  have hcommit : (Pool.system config).step { Pool.init config with constructed := true }
      (.commit false) = some ({ Pool.init config with constructed := true }.commit false) := by
    simp [Pool.system, Pool.step, Pool.init]
  have hnotify : (Pool.system config).step
      ({ Pool.init config with constructed := true }.commit false) (.notify none) =
      some { { Pool.init config with constructed := true }.commit false with notifying := 0 } := by
    simp [Pool.system, Pool.step, Pool.init, Pool.commit, notifyOne]
  have hinit : (Pool.system config).Reachable (ReducesInWait config) (Pool.init config) := .init
  refine ⟨_, .step (.step (.step hinit ?_ hconstruct) ?_ hcommit) ?_ hnotify, ?_, ?_, rfl⟩
  · trivial
  · trivial
  · trivial
  · simp [Pool.commit]
  · simp [Pool.commit, Pool.init]

/-- **When no task is stranded.**  While reductions find their workers in `wait` none is, in
any run of a pool of at least one thread; a reduction of the constructed pool that does not
can be followed by steps that strand one. -/
theorem never_stranded_iff (config : PoolConfig) :
    ((∀ s, (Pool.system config).Reachable (ReducesInWait config) s → ¬ Stranded s) ↔
        1 ≤ config.minThread) ∧
      ∀ s t choices, (Pool.system config).Reachable System.anyStep s → s.constructed = true →
        Pool.step config s (.check choices) = some t → ¬ ReducesInWait config s (.check choices) →
          ∃ u, (Pool.system config).Leads t u ∧ Stranded u := by
  refine ⟨⟨fun hnever => ?_, fun hmin s hs => ?_⟩, ?_⟩
  · by_contra hnone
    obtain ⟨s, hs, hstranded⟩ := strands_without_threads
      (Nat.eq_zero_of_not_pos hnone)
    exact hnever s hs hstranded
  · exact (Manned.of_reachable hmin hs).not_stranded
  · intro s t choices _ hconstructed hstep hfew
    exact (Owing.of_check hconstructed hfew hstep).strands config

/-- A pool of at least four and at most five threads. -/
def fourOrFive : PoolConfig :=
  ⟨4, 5, 1, 5, by decide, by decide, Nat.one_lt_two_pow (by decide), by decide⟩

/-- Four of its threads have run a task and a fifth was added meanwhile; the daemon has
told one to exit while nobody was waiting. -/
def owesExit : Pool where
  constructed := true
  toSpawn := 0
  threadNum := 5
  workingThreadNum := 0
  ioTaskNum := 0
  destroyedThreadNum := 1
  taskQueue := []
  workers := List.replicate 5 .ready
  notifying := 0
  ended := false
  committed := [⟨some 0, false⟩, ⟨some 1, false⟩, ⟨some 2, false⟩, ⟨some 3, false⟩]
  started := [⟨some 0, false⟩, ⟨some 1, false⟩, ⟨some 2, false⟩, ⟨some 3, false⟩]
  finished := [⟨some 0, false⟩, ⟨some 1, false⟩, ⟨some 2, false⟩, ⟨some 3, false⟩]

/-- The steps that lead there. -/
def owingExit : List PoolEvent :=
  [.spawn, .spawn, .spawn, .spawn, .construct, .commit false, .commit false, .commit false,
    .commit false, .enter 0, .enter 1, .enter 2, .enter 3, .check [], .finish 0 false,
    .finish 1 false, .finish 2 false, .finish 3 false, .notify none, .notify none, .notify none,
    .notify none, .check [none]]

/-- All went to sleep, and the one that the next commit notified has exited. -/
def asleep : Pool :=
  { owesExit with
    threadNum := 4
    destroyedThreadNum := 0
    taskQueue := [⟨some 4, false⟩]
    workers := List.replicate 4 .waiting
    committed := owesExit.committed ++ [⟨some 4, false⟩] }

theorem task_stranded :
    ¬ ∀ (config : PoolConfig) (s : Pool),
      (Pool.system config).Reachable System.anyStep s → ¬ Stranded s := by
  intro h
  have howes : (Pool.system fourOrFive).run owingExit = some owesExit := by
    decide
  have hasleep : (Pool.system fourOrFive).runFrom owesExit
      [.enter 0, .enter 1, .enter 2, .enter 3, .enter 4, .commit false, .notify (some 0),
        .wake 0] = some asleep := by
    decide
  exact h fourOrFive asleep ((System.run_reachable howes).runFrom hasleep) (by decide)

end Core
end ZeroRPC
