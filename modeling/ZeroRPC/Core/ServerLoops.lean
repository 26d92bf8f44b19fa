import ZeroRPC.Core.PoolCounts

/-!
# The server's own loops in the pool

`Rpc_Server::run` commits `Timer::run`, and `Tcp_Server::run` a `sub_reactor_run` for every
other core, all of them as tasks that are not IO and that never return.  The pool expands
while fewer of its running tasks than there are cores are not IO.

Main facts:
* `running_of_all_in_loops`: when every worker is in one of some tasks, these are the tasks
  that run;
* `loops_leave_room_iff`: beside the loops there is a worker left, or the pool expands,
  exactly from three cores on.
-/

namespace ZeroRPC
namespace Core

open Library

/-- `Thread_Pool()` on a machine with so many cores. -/
def defaultPool (cores : Nat) (hcores : cores * 5 < 2 ^ 32) : PoolConfig where
  minThread := cores
  maxThread := cores * 5
  batchSize := cores
  hardwareCore := cores
  minThread_lt := by omega
  maxThread_lt := hcores
  batchSize_lt := by omega
  hardwareCore_lt := by omega

/-- `num_workers` of `Tcp_Server`, and `Timer::run`. -/
def loopCount (cores : Nat) : Nat := cores / 2 + 1

/-- These tasks are the never-ending ones: they run, and none was committed as IO. -/
structure LoopsRun (cores : Nat) (s : Pool) (loops : List Handle) : Prop where
  count : loops.length = loopCount cores
  once : loops.Nodup
  run : ∀ task ∈ loops, task ∈ s.running
  notIO : ∀ task ∈ loops, task.isIOTask = false

/-- A worker is in none of the loops. -/
def WorkerLeft (s : Pool) (loops : List Handle) : Prop :=
  ∃ p ∈ s.workers, ∀ task ∈ loops, p ≠ .running task

instance (s : Pool) (loops : List Handle) : Decidable (WorkerLeft s loops) :=
  inferInstanceAs (Decidable (∃ p ∈ s.workers, ∀ task ∈ loops, p ≠ .running task))

variable {cores : Nat} {s : Pool} {loops : List Handle}

/-- When no worker is left the tasks that run are the loops. -/
theorem running_of_all_in_loops
    (hloops : LoopsRun cores s loops)
    (haccount : Accounted s)
    (hfull : ¬ WorkerLeft s loops) :
    s.running.Perm loops ∧ s.running.length = s.workers.length := by
  have hin : ∀ p ∈ s.workers, ∃ task ∈ loops, p = .running task := by
    intro p hp
    by_contra hnone
    refine hfull ⟨p, hp, fun task htask heq => hnone ⟨task, htask, heq⟩⟩
  have hnodup : s.running.Nodup := by
    have hstarted := haccount.tasksConserved.startedOnce
    exact (haccount.split.nodup_iff.mp hstarted).of_append_left
  constructor
  · refine (List.perm_ext_iff_of_nodup hnodup hloops.once).mpr fun task => ⟨?_, hloops.run task⟩
    intro hrun
    obtain ⟨p, hp, htask⟩ := List.mem_filterMap.mp hrun
    obtain ⟨task', hmem, rfl⟩ := hin p hp
    obtain rfl : task' = task := Option.some.inj htask
    exact hmem
  · refine List.filterMap_length_eq_length.mpr fun p hp => ?_
    obtain ⟨task, -, rfl⟩ := hin p hp
    rfl

/-- **From three cores on.**  Without a worker left the pool has as many threads as loops,
all of them at work, and fewer than there are cores. -/
theorem expends_of_no_worker_left
    (hcores : cores * 5 < 2 ^ 32)
    (hthree : 3 ≤ cores)
    (haccount : Accounted s)
    (hloops : LoopsRun cores s loops)
    (hfull : ¬ WorkerLeft s loops) :
    Pool.Expends (defaultPool cores hcores) s := by
  obtain ⟨hperm, hall⟩ := running_of_all_in_loops hloops haccount hfull
  have hlength := hperm.length_eq
  have hcount := hloops.count
  have hworking := haccount.working
  have hthreads := haccount.threads
  have hio : s.ioTaskNum = 0 := by
    rw [haccount.io, hperm.countP_eq, List.countP_eq_zero]
    intro task htask
    simp [hloops.notIO task htask]
  rw [loopCount] at hcount
  refine ⟨by omega, ?_, ?_⟩
  · show u32Sub s.workingThreadNum s.ioTaskNum < cores
    rw [hio, u32Sub_of_le (Nat.zero_le _)]
    omega
  · show (s.threadNum + cores) % 2 ^ 32 ≤ cores * 5
    rw [Nat.mod_eq_of_lt (by omega)]
    omega

/-- Two cores: the loops are in both workers. -/
def twoLoops : Pool where
  constructed := true
  toSpawn := 0
  threadNum := 2
  workingThreadNum := 2
  ioTaskNum := 0
  destroyedThreadNum := 0
  taskQueue := []
  workers := [.running ⟨some 0, false⟩, .running ⟨some 1, false⟩]
  notifying := 2
  ended := false
  committed := [⟨some 0, false⟩, ⟨some 1, false⟩]
  started := [⟨some 0, false⟩, ⟨some 1, false⟩]
  finished := []

theorem twoLoops_reachable :
    (Pool.system (defaultPool 2 (by decide))).Reachable System.anyStep twoLoops :=
  System.run_reachable
    (show (Pool.system (defaultPool 2 (by decide))).run
      [.spawn, .spawn, .construct, .commit false, .commit false, .enter 0, .enter 1] =
        some twoLoops by decide)

theorem twoLoops_run : LoopsRun 2 twoLoops [⟨some 0, false⟩, ⟨some 1, false⟩] where
  count := rfl
  once := by decide
  run := by decide
  notIO := by decide

/-- No worker is left, and the pool does not expand: both running tasks count against the
two cores. -/
theorem twoLoops_full :
    ¬ (WorkerLeft twoLoops [⟨some 0, false⟩, ⟨some 1, false⟩] ∨
      Pool.Expends (defaultPool 2 (by decide)) twoLoops) := by
  decide

/-- **When the loops leave room.**  In every state of the default pool in which the loops
run, a worker is in none of them or the next check expands the pool: for two cores this
fails, from three cores on it holds. -/
theorem loops_leave_room_iff
    (cores : Nat)
    (htwo : 2 ≤ cores)
    (hcores : cores * 5 < 2 ^ 32) :
    (∀ s, (Pool.system (defaultPool cores hcores)).Reachable System.anyStep s →
      ∀ loops, LoopsRun cores s loops →
        WorkerLeft s loops ∨ Pool.Expends (defaultPool cores hcores) s) ↔ 3 ≤ cores := by
  constructor
  · intro h
    by_contra hless
    obtain rfl : cores = 2 := by omega
    exact twoLoops_full (h twoLoops twoLoops_reachable _ twoLoops_run)
  · intro hthree s hs loops hloops
    by_cases hleft : WorkerLeft s loops
    · exact .inl hleft
    · exact .inr (expends_of_no_worker_left hcores hthree (Accounted.of_reachable hs) hloops hleft)

/-- Four cores: three loops in four workers. -/
def threeLoops : Pool where
  constructed := true
  toSpawn := 0
  threadNum := 4
  workingThreadNum := 3
  ioTaskNum := 0
  destroyedThreadNum := 0
  taskQueue := []
  workers := [.running ⟨some 0, false⟩, .running ⟨some 1, false⟩, .running ⟨some 2, false⟩, .ready]
  notifying := 3
  ended := false
  committed := [⟨some 0, false⟩, ⟨some 1, false⟩, ⟨some 2, false⟩]
  started := [⟨some 0, false⟩, ⟨some 1, false⟩, ⟨some 2, false⟩]
  finished := []

theorem threeLoops_leave_room :
    WorkerLeft threeLoops threeLoops.running ∨
      Pool.Expends (defaultPool 4 (by decide)) threeLoops := by
  have hrun : (Pool.system (defaultPool 4 (by decide))).run
      [.spawn, .spawn, .spawn, .spawn, .construct, .commit false, .commit false, .commit false,
        .enter 0, .enter 1, .enter 2] = some threeLoops := by
    decide
  exact (loops_leave_room_iff 4 (by decide) (by decide)).mpr (by decide) threeLoops
    (System.run_reachable hrun) threeLoops.running
    ⟨rfl, by decide, fun _ h => h, by decide⟩

/-- With two cores the loops use up the pool and it never expands. -/
theorem twoLoops_use_up_pool :
    ¬ ∀ (cores : Nat) (_ : 2 ≤ cores) (hcores : cores * 5 < 2 ^ 32),
        ∀ s, (Pool.system (defaultPool cores hcores)).Reachable System.anyStep s →
          ∀ loops, LoopsRun cores s loops →
            WorkerLeft s loops ∨ Pool.Expends (defaultPool cores hcores) s := by
  intro h
  exact twoLoops_full (h 2 (by decide) (by decide) twoLoops twoLoops_reachable _ twoLoops_run)

end Core
end ZeroRPC
