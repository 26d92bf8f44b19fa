import ZeroRPC.Library.Slots
import ZeroRPC.Library.Transition

/-!
# The thread pool

Workers, committers and the daemon of a `Thread_Pool`, from the constructor until
`stop`.  What a thread does while it holds `_pool_lock` is one step, as are a
`notify_one` outside the lock and a thread spawned by the constructor, which holds no
lock.  A worker blocked in `_taskCV.wait` goes on when it is notified, or spuriously.

The counters are `uint32_t`.  The integer part of a product with the doubles `0.8` and
`0.2` is that of the exact product for every `uint32_t`.

Main facts:
* `Pool.step_moves`: what a step can be;
* `Accounted.step`: every step keeps the account of tasks and threads.
-/

namespace ZeroRPC
namespace Core

open Library

/-- Kernel thread ids are positive values of `pid_t`; `std::thread` throws when there is
none left. -/
def THREAD_LIMIT : Nat := 2 ^ 31

/-- `a - b` for two values of `uint32_t`. -/
def u32Sub (a b : Nat) : Nat := if b ≤ a then a - b else 2 ^ 32 - (b - a)

theorem u32Sub_of_le
    {a b : Nat}
    (h : b ≤ a) :
    u32Sub a b = a - b :=
  if_pos h

/-- The parameters of `Thread_Pool(minThread, maxThread, batchSize)`, and
`_hardwareCore`. -/
structure PoolConfig where
  minThread : Nat
  maxThread : Nat
  batchSize : Nat
  hardwareCore : Nat
  minThread_lt : minThread < 2 ^ 32
  maxThread_lt : maxThread < 2 ^ 32
  batchSize_lt : batchSize < 2 ^ 32
  hardwareCore_lt : hardwareCore < 2 ^ 32

/-- `Thread_Pool::Handle`.  A function object is known by the number of its commit. -/
structure Handle where
  task : Option Nat := none
  isIOTask : Bool := false
deriving DecidableEq

/-- `Handle(Handle&& other)`: the new handle, and what is left of the other. -/
def Handle.move (other : Handle) : Handle × Handle :=
  ({ task := other.task, isIOTask := other.isIOTask }, { task := none, isIOTask := false })

@[simp]
theorem Handle.move_fst (h : Handle) : h.move.1 = h := rfl

/-- Where a live worker stands: about to take the lock at the head of its loop, in
`_taskCV.wait`, notified there, or in its task. -/
inductive WorkerPoint
  | ready
  | waiting
  | woken
  | running (task : Handle)
deriving DecidableEq

/-- The task a worker is in. -/
def WorkerPoint.task? : WorkerPoint → Option Handle
  | .running task => some task
  | _ => none

/-- The steps a worker has left when there is no further task for it. -/
def WorkerPoint.left : WorkerPoint → Nat
  | .waiting => 0
  | .ready | .woken => 1
  | .running _ => 2

/-- A `Thread_Pool`, its map `_threads` apart.  `workers` are the live threads; `toSpawn` are left to the
constructor; `notifying` counts the commits between their push and their `notify_one`;
`ended` is set when an exception leaves a worker.  What was committed, started and
finished is kept for the statements. -/
structure Pool where
  constructed : Bool
  toSpawn : Nat
  threadNum : Nat
  workingThreadNum : Nat
  ioTaskNum : Nat
  destroyedThreadNum : Nat
  taskQueue : List Handle
  workers : List WorkerPoint
  notifying : Nat
  ended : Bool
  committed : List Handle
  started : List Handle
  finished : List Handle
deriving DecidableEq

inductive PoolEvent
  | spawn
  | construct
  | commit (isIOTask : Bool)
  | notify (choice : Option Nat)
  | enter (w : Nat)
  | wake (w : Nat)
  | spurious (w : Nat)
  | finish (w : Nat) (threw : Bool)
  | check (choices : List (Option Nat))
deriving DecidableEq

/-- `notify_one` unblocks one of the waiting workers, if there is any. -/
def notifyOne (workers : List WorkerPoint) : Option Nat → Option (List WorkerPoint)
  | none => if .waiting ∈ workers then none else some workers
  | some w => if workers[w]? = some .waiting then some (workers.set w .woken) else none

namespace Pool

def init (config : PoolConfig) : Pool where
  constructed := false
  toSpawn := config.minThread
  threadNum := 0
  workingThreadNum := 0
  ioTaskNum := 0
  destroyedThreadNum := 0
  taskQueue := []
  workers := []
  notifying := 0
  ended := false
  committed := []
  started := []
  finished := []

/-- One turn of the loop in `expend_thread_pool`. -/
def spawn (s : Pool) : Option Pool :=
  if s.workers.length < THREAD_LIMIT then
    some { s with
      workers := s.workers ++ [.ready]
      threadNum := (s.threadNum + 1) % 2 ^ 32 }
  else
    none

def expendThreadPool : Nat → Pool → Option Pool
  | 0, s => some s
  | n + 1, s =>
      match s.spawn with
      | none => none
      | some t => expendThreadPool n t

/-- `notify_one` once for each choice. -/
def notifyAll : List (Option Nat) → List WorkerPoint → Option (List WorkerPoint)
  | [], workers => some workers
  | choice :: choices, workers =>
      match notifyOne workers choice with
      | none => none
      | some next => notifyAll choices next

def reduceThreadPool (reduceNum : Nat) (choices : List (Option Nat)) (s : Pool) : Option Pool :=
  if choices.length = reduceNum then
    match notifyAll choices s.workers with
    | none => none
    | some workers => some { s with destroyedThreadNum := reduceNum, workers := workers }
  else
    none

/-- The test of `daemon_task` for `expend_thread_pool`. -/
def Expends (config : PoolConfig) (s : Pool) : Prop :=
  s.threadNum * 4 / 5 < s.workingThreadNum ∧
    u32Sub s.workingThreadNum s.ioTaskNum < config.hardwareCore ∧
    (s.threadNum + config.batchSize) % 2 ^ 32 ≤ config.maxThread

/-- The test of `daemon_task` for `reduce_thread_pool`. -/
def Reduces (config : PoolConfig) (s : Pool) : Prop :=
  s.workingThreadNum < s.threadNum / 5 ∧
    config.minThread ≤ u32Sub s.threadNum config.batchSize

instance (config : PoolConfig) (s : Pool) : Decidable (Expends config s) :=
  inferInstanceAs (Decidable (_ ∧ _ ∧ _))

instance (config : PoolConfig) (s : Pool) : Decidable (Reduces config s) :=
  inferInstanceAs (Decidable (_ ∧ _))

/-- One turn of `daemon_task`; the choices are those of the `notify_one` calls. -/
def daemonTask (config : PoolConfig) (choices : List (Option Nat)) (s : Pool) : Option Pool :=
  if Expends config s then
    if choices = [] then expendThreadPool config.batchSize s else none
  else if Reduces config s then
    reduceThreadPool config.batchSize choices s
  else if choices = [] then
    some s
  else
    none

/-- The lock is held: `wait` on an empty queue, else the front is taken. -/
def test (s : Pool) (w : Nat) : Pool :=
  match s.taskQueue with
  | [] => { s with workers := s.workers.set w .waiting }
  | front :: rest =>
      { s with
        taskQueue := rest
        workingThreadNum := (s.workingThreadNum + 1) % 2 ^ 32
        ioTaskNum :=
          if front.move.1.isIOTask then (s.ioTaskNum + 1) % 2 ^ 32 else s.ioTaskNum
        workers := s.workers.set w (.running front.move.1)
        started := s.started ++ [front.move.1] }

/-- `wait` has returned and the pool is being reduced. -/
def exit (s : Pool) (w : Nat) : Pool :=
  { s with
    destroyedThreadNum := s.destroyedThreadNum - 1
    workers := s.workers.eraseIdx w
    threadNum := u32Sub s.threadNum 1 }

/-- The task has returned: the second critical section of `work_task`. -/
def finish (s : Pool) (w : Nat) (task : Handle) : Pool :=
  { s with
    ioTaskNum := if task.isIOTask then u32Sub s.ioTaskNum 1 else s.ioTaskNum
    workingThreadNum := u32Sub s.workingThreadNum 1
    workers := s.workers.set w .ready
    finished := s.finished ++ [task] }

/-- The first critical section of `commit`. -/
def commit (s : Pool) (isIOTask : Bool) : Pool :=
  let handle : Handle := { task := some s.committed.length, isIOTask := isIOTask }
  { s with
    taskQueue := s.taskQueue ++ [handle.move.1]
    notifying := s.notifying + 1
    committed := s.committed ++ [handle] }

def step (config : PoolConfig) (s : Pool) (e : PoolEvent) : Option Pool :=
  if s.ended then
    none
  else
    match e with
    | .spawn =>
        match s.toSpawn with
        | 0 => none
        | n + 1 => { s with toSpawn := n }.spawn
    | .construct =>
        if s.toSpawn = 0 ∧ s.constructed = false then
          some { s with constructed := true }
        else
          none
    | .commit isIOTask => if s.constructed then some (s.commit isIOTask) else none
    | .notify choice =>
        match s.notifying with
        | 0 => none
        | n + 1 =>
            match notifyOne s.workers choice with
            | none => none
            | some workers => some { s with notifying := n, workers := workers }
    | .enter w => if s.workers[w]? = some .ready then some (s.test w) else none
    | .wake w =>
        if s.workers[w]? = some .woken then
          some (if 0 < s.destroyedThreadNum then s.exit w else s.test w)
        else
          none
    | .spurious w =>
        if s.workers[w]? = some .waiting then
          some { s with workers := s.workers.set w .woken }
        else
          none
    | .finish w threw =>
        match s.workers[w]? with
        | some (.running task) => some (if threw then { s with ended := true } else s.finish w task)
        | _ => none
    | .check choices => s.daemonTask config choices

def system (config : PoolConfig) : System Pool PoolEvent where
  init := init config
  step := step config

/-- A thread that is spawned is at the head of its loop. -/
theorem spawn_eq
    {s t : Pool}
    (h : s.spawn = some t) :
    s.workers.length < THREAD_LIMIT ∧
      t = { s with
        workers := s.workers ++ [.ready]
        threadNum := (s.threadNum + 1) % 2 ^ 32 } := by
  rw [spawn] at h
  split at h
  case isTrue hlt => exact ⟨hlt, (Option.some.inj h).symm⟩
  case isFalse => cases h

/-- `notify_one` finds nobody, or notifies a worker that waits. -/
theorem notifyOne_cases
    {workers next : List WorkerPoint}
    {choice : Option Nat}
    (h : notifyOne workers choice = some next) :
    (.waiting ∉ workers ∧ next = workers) ∨
      ∃ w, workers[w]? = some .waiting ∧ next = workers.set w .woken := by
  cases choice with
  | none =>
      rw [notifyOne] at h
      split at h
      case isTrue => cases h
      case isFalse hnone => exact .inl ⟨hnone, (Option.some.inj h).symm⟩
  | some w =>
      rw [notifyOne] at h
      split at h
      case isTrue hw => exact .inr ⟨w, hw, (Option.some.inj h).symm⟩
      case isFalse => cases h

/-- What holds between the workers before and after each `notify_one` holds before and
after all of them. -/
theorem notifyAll_rule
    {R : List WorkerPoint → List WorkerPoint → Prop}
    (hrefl : ∀ workers, R workers workers)
    (htrans : ∀ workers mid next, R workers mid → R mid next → R workers next)
    (hone : ∀ workers next choice, notifyOne workers choice = some next → R workers next)
    {choices : List (Option Nat)}
    {workers next : List WorkerPoint}
    (h : notifyAll choices workers = some next) :
    R workers next := by
  induction choices generalizing workers with
  | nil =>
      obtain rfl := Option.some.inj h
      exact hrefl workers
  | cons choice choices ih =>
      rw [notifyAll] at h
      cases hfirst : notifyOne workers choice with
      | none =>
          rw [hfirst] at h
          cases h
      | some mid =>
          rw [hfirst] at h
          exact htrans workers mid next (hone workers mid choice hfirst) (ih h)

/-- What a step can be. -/
inductive Moves (config : PoolConfig) (s : Pool) : PoolEvent → Pool → Prop
  | spawn {n : Nat} {t : Pool} (hn : s.toSpawn = n + 1)
      (h : { s with toSpawn := n }.spawn = some t) : Moves config s .spawn t
  | construct (hspawn : s.toSpawn = 0) (h : s.constructed = false) :
      Moves config s .construct { s with constructed := true }
  | commit {isIOTask : Bool} (h : s.constructed = true) :
      Moves config s (.commit isIOTask) (s.commit isIOTask)
  | notify {n : Nat} {choice : Option Nat} {workers : List WorkerPoint}
      (hn : s.notifying = n + 1) (h : notifyOne s.workers choice = some workers) :
      Moves config s (.notify choice) { s with notifying := n, workers := workers }
  | enter {w : Nat} (hw : s.workers[w]? = some .ready) : Moves config s (.enter w) (s.test w)
  | exit {w : Nat} (hw : s.workers[w]? = some .woken) (h : 0 < s.destroyedThreadNum) :
      Moves config s (.wake w) (s.exit w)
  | retest {w : Nat} (hw : s.workers[w]? = some .woken) (h : s.destroyedThreadNum = 0) :
      Moves config s (.wake w) (s.test w)
  | spurious {w : Nat} (hw : s.workers[w]? = some .waiting) :
      Moves config s (.spurious w) { s with workers := s.workers.set w .woken }
  | threw {w : Nat} {task : Handle} (hw : s.workers[w]? = some (.running task)) :
      Moves config s (.finish w true) { s with ended := true }
  | finish {w : Nat} {task : Handle} (hw : s.workers[w]? = some (.running task)) :
      Moves config s (.finish w false) (s.finish w task)
  | expend {t : Pool} (htest : Expends config s)
      (h : expendThreadPool config.batchSize s = some t) : Moves config s (.check []) t
  | reduce {choices : List (Option Nat)} {workers : List WorkerPoint}
      (hexpends : ¬ Expends config s) (htest : Reduces config s)
      (h : notifyAll choices s.workers = some workers)
      (hlength : choices.length = config.batchSize) :
      Moves config s (.check choices)
        { s with destroyedThreadNum := config.batchSize, workers := workers }
  | pass : Moves config s (.check []) s

theorem daemonTask_moves
    {config : PoolConfig}
    {s t : Pool}
    {choices : List (Option Nat)}
    (h : s.daemonTask config choices = some t) :
    Moves config s (.check choices) t := by
  rw [daemonTask] at h
  split at h
  case isTrue htest =>
    split at h
    case isTrue hnil =>
      subst hnil
      exact .expend htest h
    case isFalse => cases h
  case isFalse hexpends =>
    split at h
    case isTrue htest =>
      rw [reduceThreadPool] at h
      split at h
      case isFalse => cases h
      case isTrue hlength =>
        cases hall : notifyAll choices s.workers with
        | none =>
            rw [hall] at h
            cases h
        | some workers =>
            rw [hall] at h
            obtain rfl := Option.some.inj h
            exact .reduce hexpends htest hall hlength
    case isFalse =>
      split at h
      case isTrue hnil =>
        subst hnil
        obtain rfl := Option.some.inj h
        exact .pass
      case isFalse => cases h

theorem step_moves
    {config : PoolConfig}
    {s t : Pool}
    {e : PoolEvent}
    (h : step config s e = some t) :
    Moves config s e t := by
  unfold step at h
  split at h
  · cases h
  cases e with
  | spawn =>
      cases hn : s.toSpawn with
      | zero => simp [hn] at h
      | succ n =>
          simp only [hn] at h
          exact .spawn hn h
  | construct =>
      simp only at h
      split at h
      case isTrue hready =>
        obtain rfl := Option.some.inj h
        exact .construct hready.1 hready.2
      case isFalse => cases h
  | commit isIOTask =>
      simp only at h
      split at h
      case isTrue hconstructed =>
        obtain rfl := Option.some.inj h
        exact .commit hconstructed
      case isFalse => cases h
  | notify choice =>
      cases hn : s.notifying with
      | zero => simp [hn] at h
      | succ n =>
          simp only [hn] at h
          cases hone : notifyOne s.workers choice with
          | none => simp [hone] at h
          | some workers =>
              simp only [hone, Option.some.injEq] at h
              subst h
              exact .notify hn hone
  | enter w =>
      simp only at h
      split at h
      case isTrue hw =>
        obtain rfl := Option.some.inj h
        exact .enter hw
      case isFalse => cases h
  | wake w =>
      simp only at h
      split at h
      case isTrue hw =>
        obtain rfl := Option.some.inj h
        by_cases hdestroyed : 0 < s.destroyedThreadNum
        · rw [if_pos hdestroyed]
          exact .exit hw hdestroyed
        · rw [if_neg hdestroyed]
          exact .retest hw (Nat.eq_zero_of_not_pos hdestroyed)
      case isFalse => cases h
  | spurious w =>
      simp only at h
      split at h
      case isTrue hw =>
        obtain rfl := Option.some.inj h
        exact .spurious hw
      case isFalse => cases h
  | finish w threw =>
      simp only at h
      split at h
      case h_1 task hw =>
        obtain rfl := Option.some.inj h
        cases threw with
        | true => exact .threw hw
        | false => exact .finish hw
      case h_2 => cases h
  | check choices => exact daemonTask_moves h

/-- The tasks workers are in. -/
def running (s : Pool) : List Handle := s.workers.filterMap WorkerPoint.task?

/-- A worker outside its task goes on outside of it. -/
theorem running_idle
    {workers : List WorkerPoint}
    {w : Nat}
    {p q : WorkerPoint}
    (h : workers[w]? = some p)
    (hp : p.task? = none)
    (hq : q.task? = none) :
    ((workers.set w q).filterMap WorkerPoint.task?).Perm
      (workers.filterMap WorkerPoint.task?) := by
  have hafter := Slots.filterMap_set (f := WorkerPoint.task?) h q
  have hbefore := Slots.filterMap_eraseIdx (f := WorkerPoint.task?) h
  rw [hq] at hafter
  rw [hp] at hbefore
  exact hafter.trans hbefore.symm

/-- A notification changes neither the number of workers nor the tasks they are in. -/
theorem notifyOne_spec
    {workers next : List WorkerPoint}
    {choice : Option Nat}
    (h : notifyOne workers choice = some next) :
    next.length = workers.length ∧
      (next.filterMap WorkerPoint.task?).Perm (workers.filterMap WorkerPoint.task?) := by
  rcases notifyOne_cases h with ⟨-, rfl⟩ | ⟨w, hw, rfl⟩
  · exact ⟨rfl, .rfl⟩
  · exact ⟨List.length_set, running_idle hw rfl rfl⟩

theorem notifyAll_spec
    {choices : List (Option Nat)}
    {workers next : List WorkerPoint}
    (h : notifyAll choices workers = some next) :
    next.length = workers.length ∧
      (next.filterMap WorkerPoint.task?).Perm (workers.filterMap WorkerPoint.task?) := by
  refine notifyAll_rule (fun _ => ⟨rfl, .rfl⟩) ?_ (fun _ _ _ => notifyOne_spec) h
  rintro workers mid next ⟨hlength, hperm⟩ ⟨hlength', hperm'⟩
  exact ⟨hlength'.trans hlength, hperm'.trans hperm⟩

end Pool

/-! ### The account of tasks and threads -/

/-- Every task is queued, running or finished; every counter is exact. -/
structure Accounted (s : Pool) : Prop where
  limit : s.workers.length ≤ THREAD_LIMIT
  threads : s.threadNum = s.workers.length
  numbered : s.committed.map Handle.task = (List.range s.committed.length).map some
  order : s.committed = s.started ++ s.taskQueue
  split : s.started.Perm (s.running ++ s.finished)
  working : s.workingThreadNum = s.running.length
  io : s.ioTaskNum = s.running.countP Handle.isIOTask
  before : s.constructed = false → s.committed = []

theorem accounted_init (config : PoolConfig) : Accounted (Pool.init config) where
  limit := Nat.zero_le _
  threads := rfl
  numbered := rfl
  order := rfl
  split := .rfl
  working := rfl
  io := rfl
  before := fun _ => rfl

namespace Accounted

variable {s t : Pool} {w : Nat}

theorem running_le
    (h : Accounted s) :
    s.running.length ≤ THREAD_LIMIT :=
  (List.length_filterMap_le _ _).trans h.limit

/-- Workers change places outside their tasks; the daemon's and the committers' own
fields change. -/
theorem frame
    {workers : List WorkerPoint}
    {toSpawn destroyed notifying : Nat}
    {ended : Bool}
    (h : Accounted s)
    (hworkers : workers.length = s.workers.length ∧
      (workers.filterMap WorkerPoint.task?).Perm s.running) :
    Accounted { s with
      toSpawn := toSpawn
      destroyedThreadNum := destroyed
      workers := workers
      notifying := notifying
      ended := ended } where
  limit := hworkers.1 ▸ h.limit
  threads := h.threads.trans hworkers.1.symm
  numbered := h.numbered
  order := h.order
  split := h.split.trans (hworkers.2.symm.append_right _)
  working := h.working.trans hworkers.2.length_eq.symm
  io := h.io.trans (hworkers.2.countP_eq _).symm
  before := h.before

theorem place
    {p q : WorkerPoint}
    (h : Accounted s)
    (hw : s.workers[w]? = some p)
    (hp : p.task? = none)
    (hq : q.task? = none) :
    Accounted { s with workers := s.workers.set w q } :=
  h.frame ⟨List.length_set, Pool.running_idle hw hp hq⟩

theorem spawn
    (h : Accounted s)
    (hspawn : s.spawn = some t) :
    Accounted t := by
  obtain ⟨hlt, rfl⟩ := Pool.spawn_eq hspawn
  have hrunning : (s.workers ++ [WorkerPoint.ready]).filterMap WorkerPoint.task? =
      s.running := by
    simp [Pool.running, WorkerPoint.task?]
  constructor
  · simp only [List.length_append, List.length_singleton]
    exact hlt
  · have hthreads := h.threads
    simp only [List.length_append, List.length_singleton]
    rw [hthreads, Nat.mod_eq_of_lt]
    rw [THREAD_LIMIT] at hlt
    omega
  · exact h.numbered
  · exact h.order
  · simpa only [Pool.running, hrunning] using h.split
  · simpa only [Pool.running, hrunning] using h.working
  · simpa only [Pool.running, hrunning] using h.io
  · exact h.before

/-- `expend_thread_pool` adds workers at the head of their loop. -/
theorem expendThreadPool_eq
    {n : Nat}
    (hexpend : Pool.expendThreadPool n s = some t) :
    t = { s with
      workers := s.workers ++ List.replicate n .ready
      threadNum := t.threadNum } := by
  induction n generalizing s with
  | zero =>
      obtain rfl := Option.some.inj hexpend
      simp
  | succ n ih =>
      rw [Pool.expendThreadPool] at hexpend
      cases hspawn : s.spawn with
      | none =>
          rw [hspawn] at hexpend
          cases hexpend
      | some u =>
          rw [hspawn] at hexpend
          obtain ⟨-, rfl⟩ := Pool.spawn_eq hspawn
          have htail := ih hexpend
          simpa [List.replicate_succ, List.append_assoc] using htail

theorem expend
    {n : Nat}
    (h : Accounted s)
    (hexpend : Pool.expendThreadPool n s = some t) :
    Accounted t := by
  induction n generalizing s with
  | zero =>
      obtain rfl := Option.some.inj hexpend
      exact h
  | succ n ih =>
      rw [Pool.expendThreadPool] at hexpend
      cases hspawn : s.spawn with
      | none =>
          rw [hspawn] at hexpend
          cases hexpend
      | some u =>
          rw [hspawn] at hexpend
          exact ih (h.spawn hspawn) hexpend

theorem commit
    (h : Accounted s)
    (hconstructed : s.constructed = true)
    (isIOTask : Bool) :
    Accounted (s.commit isIOTask) where
  limit := h.limit
  threads := h.threads
  numbered := by
    simp [Pool.commit, h.numbered, List.range_succ]
  order := by
    simp [Pool.commit, ← List.append_assoc, ← h.order]
  split := h.split
  working := h.working
  io := h.io
  before := by
    intro hfalse
    rw [show (s.commit isIOTask).constructed = s.constructed from rfl, hconstructed] at hfalse
    cases hfalse

/-- A worker outside its task goes on to the test of the queue. -/
theorem test
    {p : WorkerPoint}
    (h : Accounted s)
    (hw : s.workers[w]? = some p)
    (hp : p.task? = none) :
    Accounted (s.test w) := by
  cases hq : s.taskQueue with
  | nil =>
      have hplace := h.place (q := .waiting) hw hp rfl
      simpa only [Pool.test, hq] using hplace
  | cons front rest =>
      have hset := Slots.filterMap_set (f := WorkerPoint.task?) hw (.running front)
      have herase := Slots.filterMap_eraseIdx (f := WorkerPoint.task?) hw
      rw [hp] at herase
      have hrunning : ((s.workers.set w (.running front)).filterMap WorkerPoint.task?).Perm
          (front :: s.running) :=
        hset.trans (herase.symm.cons front)
      have hlength := h.running_le
      have hcount : s.running.countP Handle.isIOTask ≤ s.running.length :=
        List.countP_le_length
      rw [THREAD_LIMIT] at hlength
      simp only [Pool.test, hq, Handle.move_fst]
      constructor
      · simpa only [List.length_set] using h.limit
      · simpa only [List.length_set] using h.threads
      · exact h.numbered
      · simpa [hq] using h.order
      · have hlast : (s.started ++ [front]).Perm (front :: s.started) :=
          List.perm_append_singleton ..
        have hsplit : (front :: s.started).Perm (front :: s.running ++ s.finished) :=
          h.split.cons front
        exact (hlast.trans hsplit).trans (hrunning.symm.append_right s.finished)
      · show (s.workingThreadNum + 1) % 2 ^ 32 = _
        rw [Pool.running, hrunning.length_eq, h.working, List.length_cons]
        omega
      · show (if front.isIOTask then (s.ioTaskNum + 1) % 2 ^ 32 else s.ioTaskNum) = _
        rw [Pool.running, hrunning.countP_eq, h.io, List.countP_cons]
        cases front.isIOTask with
        | true =>
            simp only [if_true]
            omega
        | false => rfl
      · exact h.before

/-- A worker outside its task goes. -/
theorem leave
    {p : WorkerPoint}
    (h : Accounted s)
    (hw : s.workers[w]? = some p)
    (hp : p.task? = none) :
    Accounted { s with
      workers := s.workers.eraseIdx w
      threadNum := u32Sub s.threadNum 1 } := by
  obtain ⟨hlt, -⟩ := List.getElem?_eq_some_iff.mp hw
  have hlength := List.length_eraseIdx_of_lt hlt
  have hrunning : s.running.Perm ((s.workers.eraseIdx w).filterMap WorkerPoint.task?) := by
    have herase := Slots.filterMap_eraseIdx (f := WorkerPoint.task?) hw
    rw [hp] at herase
    exact herase
  have hlimit := h.limit
  rw [THREAD_LIMIT] at hlimit
  constructor
  · show (s.workers.eraseIdx w).length ≤ THREAD_LIMIT
    rw [THREAD_LIMIT]
    omega
  · show u32Sub s.threadNum 1 = (s.workers.eraseIdx w).length
    rw [h.threads, u32Sub_of_le (by omega), hlength]
  · exact h.numbered
  · exact h.order
  · exact h.split.trans (hrunning.append_right _)
  · exact h.working.trans hrunning.length_eq
  · exact h.io.trans (hrunning.countP_eq _)
  · exact h.before

theorem exit
    (h : Accounted s)
    (hw : s.workers[w]? = some .woken) :
    Accounted (s.exit w) := by
  have hleave := h.leave hw rfl
  exact hleave.frame ⟨rfl, .rfl⟩

theorem finish
    {task : Handle}
    (h : Accounted s)
    (hw : s.workers[w]? = some (.running task)) :
    Accounted (s.finish w task) := by
  have hset : ((s.workers.set w .ready).filterMap WorkerPoint.task?).Perm
      ((s.workers.eraseIdx w).filterMap WorkerPoint.task?) :=
    Slots.filterMap_set hw .ready
  have herase : s.running.Perm
      (task :: (s.workers.eraseIdx w).filterMap WorkerPoint.task?) :=
    Slots.filterMap_eraseIdx hw
  have hrunning : s.running.Perm
      (task :: (s.workers.set w .ready).filterMap WorkerPoint.task?) :=
    herase.trans (hset.symm.cons task)
  have hlength := hrunning.length_eq
  have hcount := hrunning.countP_eq Handle.isIOTask
  have hle := h.running_le
  have hcount_le : s.running.countP Handle.isIOTask ≤ s.running.length :=
    List.countP_le_length
  rw [THREAD_LIMIT] at hle
  rw [List.length_cons] at hlength
  rw [List.countP_cons] at hcount
  simp only [Pool.finish]
  constructor
  · simpa only [List.length_set] using h.limit
  · simpa only [List.length_set] using h.threads
  · exact h.numbered
  · exact h.order
  · have hlast : (s.finished ++ [task]).Perm (task :: s.finished) :=
      List.perm_append_singleton ..
    have hmiddle := hlast.append_left ((s.workers.set w .ready).filterMap WorkerPoint.task?)
    have hsplit := h.split.trans (hrunning.append_right s.finished)
    exact hsplit.trans (List.perm_middle.symm.trans hmiddle.symm)
  · show u32Sub s.workingThreadNum 1 = _
    rw [h.working, u32Sub_of_le (by omega), hlength, Nat.add_sub_cancel, Pool.running]
  · show (if task.isIOTask then u32Sub s.ioTaskNum 1 else s.ioTaskNum) =
      ((s.workers.set w .ready).filterMap WorkerPoint.task?).countP Handle.isIOTask
    rw [h.io]
    cases hio : task.isIOTask with
    | true =>
        rw [hio, if_pos rfl] at hcount
        rw [if_pos rfl, u32Sub_of_le (by omega), hcount, Nat.add_sub_cancel]
    | false =>
        rw [hio] at hcount
        simpa using hcount
  · exact h.before

theorem moves
    {config : PoolConfig}
    {e : PoolEvent}
    (h : Accounted s)
    (hmoves : Pool.Moves config s e t) :
    Accounted t := by
  cases hmoves with
  | spawn _ hspawn => exact (h.frame ⟨rfl, .rfl⟩).spawn hspawn
  | construct => exact { h with before := fun hfalse => by cases hfalse }
  | @commit isIOTask hconstructed => exact h.commit hconstructed isIOTask
  | notify _ hone => exact h.frame (Pool.notifyOne_spec hone)
  | enter hw => exact h.test hw rfl
  | exit hw => exact h.exit hw
  | retest hw => exact h.test hw rfl
  | spurious hw => exact h.place (p := .waiting) (q := .woken) hw rfl rfl
  | threw => exact h.frame ⟨rfl, .rfl⟩
  | finish hw => exact h.finish hw
  | expend _ hexpend => exact h.expend hexpend
  | reduce _ _ hall => exact h.frame (Pool.notifyAll_spec hall)
  | pass => exact h

/-- Every step keeps the account. -/
theorem step
    {config : PoolConfig}
    {e : PoolEvent}
    (h : Accounted s)
    (hstep : Pool.step config s e = some t) :
    Accounted t :=
  h.moves (Pool.step_moves hstep)

end Accounted

end Core
end ZeroRPC
