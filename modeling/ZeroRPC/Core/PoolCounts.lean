import ZeroRPC.Core.ThreadPool

/-!
# What the counters of the pool say

Two readings of the account: no task is lost or run twice and the counters of running
tasks are exact; and the number of threads stays between its bounds as long as no check
of the daemon subtracts more threads than there are, which `uint32_t` does not notice.

Main facts:
* `tasks_conserved`: the account of tasks in every state reached;
* `Surplus.step`: every step that subtracts no more than there is keeps the threads that
  are not about to exit at `_minThread` or more;
* `thread_count_bounds`: so they stay there, and the threads at `_maxThread` or less;
* `thread_count_not_bounded`: a check while the constructor spawns breaks it.
-/

namespace ZeroRPC
namespace Core

open Library

variable {config : PoolConfig} {s t : Pool}

theorem Accounted.of_reachable
    {ok : Pool → PoolEvent → Prop}
    (h : (Pool.system config).Reachable ok s) :
    Accounted s :=
  h.invariant (accounted_init config) fun _ _ _ hs _ hstep => hs.step hstep

/-! ### Tasks -/

/-- Each committed task, with the flag it was committed with, is in one of the queue, the
workers and the tasks that have returned, and there once; tasks start in the order they
were committed; the counters are those of the tasks that run. -/
structure TasksConserved (s : Pool) : Prop where
  once : s.committed.Nodup
  somewhere : (s.taskQueue ++ s.running ++ s.finished).Perm s.committed
  startedOnce : s.started.Nodup
  inOrder : s.started <+: s.committed
  working : s.workingThreadNum = s.running.length
  io : s.ioTaskNum = s.running.countP Handle.isIOTask
  noWrap : u32Sub s.workingThreadNum s.ioTaskNum + s.ioTaskNum = s.workingThreadNum

theorem Accounted.committed_nodup
    (h : Accounted s) :
    s.committed.Nodup := by
  refine List.Nodup.of_map Handle.task ?_
  rw [h.numbered]
  exact List.nodup_range.map (Option.some_injective Nat)

theorem Accounted.tasksConserved
    (h : Accounted s) :
    TasksConserved s := by
  have hprefix : s.started <+: s.committed := ⟨s.taskQueue, h.order.symm⟩
  constructor
  · exact h.committed_nodup
  · rw [h.order, List.append_assoc]
    have hqueue : (s.taskQueue ++ (s.running ++ s.finished)).Perm (s.taskQueue ++ s.started) :=
      h.split.symm.append_left s.taskQueue
    exact hqueue.trans List.perm_append_comm
  · exact h.committed_nodup.sublist hprefix.sublist
  · exact hprefix
  · exact h.working
  · exact h.io
  · have hle := h.running_le
    have hcount : s.running.countP Handle.isIOTask ≤ s.running.length :=
      List.countP_le_length
    rw [THREAD_LIMIT] at hle
    rw [h.working, h.io, u32Sub_of_le hcount]
    omega

/-- **Task conservation.** -/
theorem tasks_conserved
    (config : PoolConfig)
    (s : Pool)
    (h : (Pool.system config).Reachable System.anyStep s) :
    TasksConserved s :=
  (Accounted.of_reachable h).tasksConserved

/-- Two workers; the first of two tasks has returned and the second, an IO task, runs. -/
def twoTasks : Pool where
  constructed := true
  toSpawn := 0
  threadNum := 2
  workingThreadNum := 1
  ioTaskNum := 1
  destroyedThreadNum := 0
  taskQueue := []
  workers := [.running ⟨some 1, true⟩, .ready]
  notifying := 2
  ended := false
  committed := [⟨some 0, false⟩, ⟨some 1, true⟩]
  started := [⟨some 0, false⟩, ⟨some 1, true⟩]
  finished := [⟨some 0, false⟩]

theorem tasks_conserved_two : TasksConserved twoTasks := by
  let twoThreads : PoolConfig := ⟨2, 4, 2, 2, by decide, by decide, by decide, by decide⟩
  have hrun : (Pool.system twoThreads).run
      [.spawn, .spawn, .construct, .commit false, .commit true, .enter 1, .enter 0,
        .finish 1 false] = some twoTasks := by
    decide
  exact tasks_conserved twoThreads twoTasks (System.run_reachable hrun)

/-! ### Threads -/

/-- Once constructed, the threads that are not about to exit are at least `_minThread`,
and all of them at most `_maxThread`. -/
def ThreadsBounded (config : PoolConfig) (s : Pool) : Prop :=
  s.constructed = true →
    config.minThread + s.destroyedThreadNum ≤ s.threadNum ∧ s.threadNum ≤ config.maxThread

/-- A check that reduces the pool does not subtract more than there is. -/
def Subtracts (config : PoolConfig) (s : Pool) : PoolEvent → Prop
  | .check _ => ¬ Pool.Expends config s → Pool.Reduces config s → config.batchSize ≤ s.threadNum
  | _ => True

/-- The invariant of the bounds: the constructor spawns what is missing, and nothing
exits meanwhile. -/
structure Surplus (config : PoolConfig) (s : Pool) : Prop where
  spawning : s.constructed = false →
    s.destroyedThreadNum = 0 ∧ s.threadNum + s.toSpawn = config.minThread
  spawned : s.constructed = true → s.toSpawn = 0
  bounded : ThreadsBounded config s

/-- No task runs before the constructor returns. -/
theorem Accounted.idle
    (h : Accounted s)
    (hconstructed : s.constructed = false) :
    s.workingThreadNum = 0 := by
  have hnil : s.started = [] := by
    have horder := h.order
    rw [h.before hconstructed] at horder
    exact (List.append_eq_nil_iff.mp horder.symm).1
  have hsplit := h.split
  rw [hnil] at hsplit
  rw [h.working, (List.append_eq_nil_iff.mp hsplit.nil_eq.symm).1, List.length_nil]

namespace Surplus

theorem init (config : PoolConfig) : Surplus config (Pool.init config) where
  spawning := fun _ => ⟨rfl, Nat.zero_add _⟩
  spawned := fun h => by cases h
  bounded := fun h => by cases h

/-- Neither the threads nor what the bounds are about change. -/
theorem frame
    (h : Surplus config s)
    (hconstructed : t.constructed = s.constructed)
    (hspawn : t.toSpawn = s.toSpawn)
    (hdestroyed : t.destroyedThreadNum = s.destroyedThreadNum)
    (hthreads : t.threadNum = s.threadNum) :
    Surplus config t := by
  constructor
  · rw [hconstructed, hspawn, hdestroyed, hthreads]
    exact h.spawning
  · rw [hconstructed, hspawn]
    exact h.spawned
  · rw [ThreadsBounded, hconstructed, hdestroyed, hthreads]
    exact h.bounded

theorem test
    (h : Surplus config s)
    (w : Nat) :
    Surplus config (s.test w) := by
  cases hq : s.taskQueue with
  | nil =>
      simp only [Pool.test, hq]
      exact h.frame rfl rfl rfl rfl
  | cons front rest =>
      simp only [Pool.test, hq]
      exact h.frame rfl rfl rfl rfl

theorem spawn
    {n : Nat}
    (h : Surplus config s)
    (haccount : Accounted s)
    (hn : s.toSpawn = n + 1)
    (hspawn : { s with toSpawn := n }.spawn = some t) :
    Surplus config t := by
  have hfalse : s.constructed = false := by
    by_contra hne
    have hzero := h.spawned (by simpa using hne)
    omega
  obtain ⟨hdestroyed, hsum⟩ := h.spawning hfalse
  have hthreads := haccount.threads
  obtain ⟨hlimit, rfl⟩ := Pool.spawn_eq hspawn
  rw [THREAD_LIMIT] at hlimit
  simp only at hlimit
  constructor
  · intro _
    refine ⟨hdestroyed, ?_⟩
    show (s.threadNum + 1) % 2 ^ 32 + n = config.minThread
    omega
  · intro htrue
    rw [hfalse] at htrue
    cases htrue
  · intro htrue
    rw [hfalse] at htrue
    cases htrue

theorem construct
    (hbounds : config.minThread ≤ config.maxThread)
    (h : Surplus config s)
    (hspawn : s.toSpawn = 0)
    (hfalse : s.constructed = false) :
    Surplus config { s with constructed := true } := by
  obtain ⟨hdestroyed, hsum⟩ := h.spawning hfalse
  constructor
  · intro htrue
    cases htrue
  · exact fun _ => hspawn
  · intro _
    show config.minThread + s.destroyedThreadNum ≤ s.threadNum ∧ s.threadNum ≤ config.maxThread
    omega

theorem exit
    {w : Nat}
    (h : Surplus config s)
    (haccount : Accounted s)
    (hdestroyed : 0 < s.destroyedThreadNum) :
    Surplus config (s.exit w) := by
  have htrue : s.constructed = true := by
    by_contra hne
    have hzero := (h.spawning (by simpa using hne)).1
    omega
  obtain ⟨hmin, hmax⟩ := h.bounded htrue
  have hlimit := haccount.limit
  rw [THREAD_LIMIT, ← haccount.threads] at hlimit
  have hthreads : u32Sub s.threadNum 1 = s.threadNum - 1 :=
    u32Sub_of_le (by omega)
  simp only [Pool.exit, hthreads]
  constructor
  · intro hfalse
    rw [show s.constructed = false from hfalse] at htrue
    cases htrue
  · exact h.spawned
  · intro _
    show config.minThread + (s.destroyedThreadNum - 1) ≤ s.threadNum - 1 ∧
      s.threadNum - 1 ≤ config.maxThread
    omega

/-- The daemon adds a batch that fits. -/
theorem expend
    (h : Surplus config s)
    (haccount : Accounted s)
    (htest : Pool.Expends config s)
    (hexpend : Pool.expendThreadPool config.batchSize s = some t) :
    Surplus config t := by
  obtain ⟨hworking, -, hmax⟩ := htest
  have htrue : s.constructed = true := by
    by_contra hne
    have hidle := haccount.idle (by simpa using hne)
    omega
  obtain ⟨hmin, -⟩ := h.bounded htrue
  have hafter := haccount.expend hexpend
  have heq := Accounted.expendThreadPool_eq hexpend
  have hlength : t.workers.length = s.workers.length + config.batchSize := by
    rw [heq]
    simp
  have hlimit := hafter.limit
  rw [THREAD_LIMIT] at hlimit
  have hbefore := haccount.threads
  have hthreads := hafter.threads
  have hconstructed : t.constructed = s.constructed := by rw [heq]
  have hspawn : t.toSpawn = s.toSpawn := by rw [heq]
  have hdestroyed : t.destroyedThreadNum = s.destroyedThreadNum := by rw [heq]
  constructor
  · rw [hconstructed, htrue]
    intro hfalse
    cases hfalse
  · rw [hconstructed, hspawn]
    exact h.spawned
  · intro _
    rw [hdestroyed]
    omega

/-- The daemon subtracts a batch that is there. -/
theorem reduce
    {workers : List WorkerPoint}
    (h : Surplus config s)
    (haccount : Accounted s)
    (htest : Pool.Reduces config s)
    (hbatch : config.batchSize ≤ s.threadNum) :
    Surplus config
      { s with destroyedThreadNum := config.batchSize, workers := workers } := by
  obtain ⟨-, hmin⟩ := htest
  have hlimit := haccount.limit
  rw [THREAD_LIMIT, ← haccount.threads] at hlimit
  rw [u32Sub_of_le hbatch] at hmin
  constructor
  · intro hfalse
    obtain ⟨-, hsum⟩ := h.spawning hfalse
    show config.batchSize = 0 ∧ s.threadNum + s.toSpawn = config.minThread
    omega
  · exact h.spawned
  · intro htrue
    obtain ⟨-, hmax⟩ := h.bounded htrue
    show config.minThread + config.batchSize ≤ s.threadNum ∧ s.threadNum ≤ config.maxThread
    omega

/-- Every step that subtracts no more than there is keeps the bounds. -/
theorem step
    {e : PoolEvent}
    (hbounds : config.minThread ≤ config.maxThread)
    (h : Surplus config s)
    (haccount : Accounted s)
    (hok : Subtracts config s e)
    (hstep : Pool.step config s e = some t) :
    Surplus config t := by
  cases Pool.step_moves hstep with
  | spawn hn hspawn => exact h.spawn haccount hn hspawn
  | construct hspawn hfalse => exact h.construct hbounds hspawn hfalse
  | commit => exact h.frame rfl rfl rfl rfl
  | notify => exact h.frame rfl rfl rfl rfl
  | enter => exact h.test _
  | exit _ hdestroyed => exact h.exit haccount hdestroyed
  | retest => exact h.test _
  | spurious => exact h.frame rfl rfl rfl rfl
  | threw => exact h.frame rfl rfl rfl rfl
  | finish =>
      simp only [Pool.finish]
      exact h.frame rfl rfl rfl rfl
  | expend htest hexpend => exact h.expend haccount htest hexpend
  | reduce hexpends htest => exact h.reduce haccount htest (hok hexpends htest)
  | pass => exact h

end Surplus

/-- **The bounds of the pool.** -/
theorem thread_count_bounds
    (config : PoolConfig)
    (hbounds : config.minThread ≤ config.maxThread)
    (s : Pool)
    (h : (Pool.system config).Reachable (Subtracts config) s) :
    ThreadsBounded config s := by
  have hinvariant : Surplus config s ∧ Accounted s := by
    refine h.invariant (I := fun s => Surplus config s ∧ Accounted s)
      ⟨.init config, accounted_init config⟩ ?_
    rintro s e t ⟨hs, haccount⟩ hok hstep
    exact ⟨hs.step hbounds haccount hok hstep, haccount.step hstep⟩
  exact hinvariant.1.bounded

/-- The default pool on a machine with ten cores. -/
def tenCores : PoolConfig := ⟨10, 50, 10, 10, by decide, by decide, by decide, by decide⟩

instance (config : PoolConfig) (s : Pool) : DecidablePred (Subtracts config s)
  | .check _ => inferInstanceAs (Decidable (_ → _ → _))
  | .spawn => isTrue trivial
  | .construct => isTrue trivial
  | .commit _ => isTrue trivial
  | .notify _ => isTrue trivial
  | .enter _ => isTrue trivial
  | .wake _ => isTrue trivial
  | .spurious _ => isTrue trivial
  | .finish _ _ => isTrue trivial

/-- A pool of ten threads whose constructor has returned. -/
def tenThreads : Pool :=
  { Pool.init tenCores with
    constructed := true
    toSpawn := 0
    threadNum := 10
    workers := List.replicate 10 .ready }

theorem thread_count_bounds_ten : ThreadsBounded tenCores tenThreads := by
  let events : List PoolEvent := List.replicate 10 .spawn ++ [.construct, .check []]
  have hrun : (Pool.system tenCores).runFrom (Pool.system tenCores).init events =
      some tenThreads := by
    decide
  have hok : (Pool.system tenCores).Every (Subtracts tenCores) (Pool.system tenCores).init
      events := by
    decide
  exact thread_count_bounds tenCores (by decide) tenThreads (hok.reachable .init hrun)

/-- The daemon checks after five of ten spawns: `5 - 10` is at least 10, so ten threads
are told to exit, as many as the constructor spawns. -/
theorem thread_count_not_bounded :
    ¬ ∀ (config : PoolConfig), config.minThread ≤ config.maxThread → 1 ≤ config.batchSize →
      ∀ s, (Pool.system config).Reachable System.anyStep s → ThreadsBounded config s := by
  intro h
  have hrun : (Pool.system tenCores).run
      (List.replicate 5 .spawn ++ .check (List.replicate 10 none) :: List.replicate 5 .spawn ++
        [.construct]) = some { tenThreads with destroyedThreadNum := 10 } := by
    decide
  have hbounds := h tenCores (by decide) (by decide) _ (System.run_reachable hrun) rfl
  exact absurd hbounds.1 (by decide)

end Core
end ZeroRPC
