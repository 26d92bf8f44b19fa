import ZeroRPC.Core.PoolShutdown
import ZeroRPC.Core.PoolWakeups

/-!
# Tearing the thread pool down

The destructor of a `Thread_Pool` joins the daemon and then the threads of `_threads`, in a
loop that does not hold `_pool_lock`.  A worker that exits for a reduction detaches its own
thread and erases it from `_threads`: with the loop under way the map changes under the
iterator and the thread that is joined may be the one detached, which is undefined.

A thread is known by a number.  `_threads` is a map without order, so the loop visits its
threads in any order.

Main facts:
* `Enlisted.step`: every live worker has its entry in `_threads`;
* `Settled.step`: when the loop begins with no exit to come, none comes;
* `Teardown.lift`: until then, and from then on, the pool takes its steps undisturbed;
* `shutdown_strands_nobody_iff`: nobody is stranded or disturbed, and every `join` can
  return, in runs that meet the two conditions, and any step that does not meet them can be
  followed by one that strands or disturbs;
* `shutdown_strands`: a destructor that comes too early for a worker, and one that comes too
  early for a reduction.
-/

namespace ZeroRPC
namespace Core

open Library

/-- Where the destructor stands in its joins: before the loop over `_threads`, in it, or
past it. -/
inductive JoinPoint
  | before
  | joining (rest : List Nat)
  | joined
deriving DecidableEq

def JoinPoint.inLoop : JoinPoint → Bool
  | .joining _ => true
  | _ => false

/-- A pool with its `_threads`.  `ids` are the threads of the workers, in their places;
`nextId` is a number not used yet; `disturbed` is set when an entry is erased under the
destructor's loop. -/
structure Teardown where
  locked : LockedPool
  ids : List Nat
  threads : List Nat
  nextId : Nat
  point : JoinPoint
  disturbed : Bool
deriving DecidableEq

/-- `begin` is the end of `_daemon_thread.join()` and the begin of the loop, with the order
in which it visits the map; `join` its next turn, or its end. -/
inductive TeardownEvent
  | pool (e : LockedEvent)
  | begin (order : List Nat)
  | join
deriving DecidableEq

/-- The worker that exits for a reduction in a step. -/
def LockedPool.exiting (s : LockedPool) : LockedEvent → Option Nat
  | .acquire w =>
      if s.pool.workers[w]? = some .woken ∧ 0 < s.pool.destroyedThreadNum then some w else none
  | _ => none

/-- The worker that returns because of the flag in a step. -/
def LockedPool.returning (s : LockedPool) : LockedEvent → Option Nat
  | .advance =>
      match s.holder with
      | some (w, .leaving) => if s.isStop then some w else none
      | _ => none
  | _ => none

namespace Teardown

def init (config : PoolConfig) : Teardown where
  locked := .init config
  ids := []
  threads := []
  nextId := 0
  point := .before
  disturbed := false

/-- `_threads.emplace(threadID, std::move(newThread))`, `n` times. -/
def emplace (s : Teardown) (n : Nat) : Teardown :=
  { s with
    ids := s.ids ++ List.range' s.nextId n
    threads := s.threads ++ List.range' s.nextId n
    nextId := s.nextId + n }

/-- `_threads[id].detach(); _threads.erase(id);` of a worker.  Without an entry the thread
that `operator[]` inserts is none, `detach` throws and the process ends. -/
def detach (s : Teardown) (w : Nat) : Teardown :=
  match s.ids[w]? with
  | some id =>
      if id ∈ s.threads then
        { s with
          ids := s.ids.eraseIdx w
          threads := s.threads.erase id
          disturbed := s.point.inLoop }
      else
        { s with locked := { s.locked with pool := { s.locked.pool with ended := true } } }
  | none => s

/-- What a step of the pool does to `_threads`. -/
def enlist (s : Teardown) (e : LockedEvent) (locked : LockedPool) : Teardown :=
  let t := { s with locked := locked }
  match s.locked.exiting e, s.locked.returning e with
  | some w, _ => t.detach w
  | none, some w => { t with ids := s.ids.eraseIdx w }
  | none, none => t.emplace (locked.pool.workers.length - s.locked.pool.workers.length)

def step (config : PoolConfig) (s : Teardown) (e : TeardownEvent) : Option Teardown :=
  if s.disturbed ∨ s.locked.pool.ended then
    none
  else
    match e with
    | .pool e =>
        match LockedPool.step config s.locked e with
        | none => none
        | some locked => some (s.enlist e locked)
    | .begin order =>
        if s.locked.notifiedAll = true ∧ s.locked.daemon = .ended ∧ s.point = .before ∧
            order.Perm s.threads then
          some { s with point := .joining order }
        else
          none
    | .join =>
        match s.point with
        | .joining [] => some { s with point := .joined }
        | .joining (id :: rest) =>
            if id ∈ s.ids then none else some { s with point := .joining rest }
        | _ => none

def system (config : PoolConfig) : System Teardown TeardownEvent where
  init := init config
  step := step config

/-- `notify_all` has been delivered, no notification is sent in any later step, and some
worker is blocked. -/
def StrandsWorker (config : PoolConfig) (s : Teardown) : Prop :=
  s.locked.notifiedAll = true ∧ s.locked.pool.ended = false ∧ .waiting ∈ s.locked.pool.workers ∧
    ∀ t, (system config).Leads s t →
      ∀ e u, step config t (.pool e) = some u → ¬ LockedPool.Notifies e

/-- `notify_all` is not called while a worker is between its test of the flag and
`_taskCV.wait`, and the loop over `_threads` does not begin with exits owed and a worker
notified in `wait`. -/
def InTime (s : Teardown) : TeardownEvent → Prop
  | .pool e => CallsClear s.locked e
  | .begin _ =>
      s.locked.pool.destroyedThreadNum = 0 ∨ .woken ∉ s.locked.pool.workers
  | .join => True

end Teardown

/-! ### The entries of `_threads` -/

theorem length_le_of_moves
    {config : PoolConfig}
    {s t : Pool}
    {e : PoolEvent}
    (hmoves : Pool.Moves config s e t)
    (hwake : ∀ w, e ≠ .wake w) :
    s.workers.length ≤ t.workers.length := by
  cases hmoves with
  | spawn _ hspawn =>
      obtain ⟨-, rfl⟩ := Pool.spawn_eq hspawn
      simp
  | construct => exact Nat.le_refl _
  | commit => exact Nat.le_refl _
  | notify _ hone => exact (Pool.notifyOne_spec hone).1.ge
  | enter =>
      rw [Pool.test]
      split
      case h_1 => simp
      case h_2 => simp
  | @exit w => exact absurd rfl (hwake w)
  | @retest w => exact absurd rfl (hwake w)
  | spurious => simp
  | threw => exact Nat.le_refl _
  | finish => simp [Pool.finish]
  | expend _ hexpend =>
      rw [Accounted.expendThreadPool_eq hexpend]
      simp
  | reduce _ _ hall => exact (Pool.notifyAll_spec hall).1.ge
  | pass => exact Nat.le_refl _

/-- A step takes a worker away because of a reduction or of the flag, or no worker goes. -/
theorem LockedPool.goes_cases
    {config : PoolConfig}
    {s t : LockedPool}
    {e : LockedEvent}
    (hstep : LockedPool.step config s e = some t) :
    (∃ w, s.exiting e = some w ∧ s.pool.workers[w]? = some .woken ∧
        0 < s.pool.destroyedThreadNum ∧ t.pool.workers = s.pool.workers.eraseIdx w) ∨
      (∃ w, s.exiting e = none ∧ s.returning e = some w ∧
        t.pool.workers = s.pool.workers.eraseIdx w) ∨
      (s.exiting e = none ∧ s.returning e = none ∧
        s.pool.workers.length ≤ t.pool.workers.length) := by
  cases LockedPool.step_moves hstep with
  | @outside e pool hallowed hpool =>
      refine .inr (.inr ⟨rfl, rfl, length_le_of_moves (Pool.step_moves hpool) ?_⟩)
      rintro w rfl
      exact hallowed
  | @acquire w p hfree hw hp =>
      refine .inr (.inr ⟨?_, rfl, Nat.le_refl _⟩)
      rw [exiting, if_neg]
      rintro ⟨hwoken, hdestroyed⟩
      rw [hw, Option.some.injEq] at hwoken
      rcases hp with hready | ⟨-, hzero⟩
      · rw [hready] at hwoken
        cases hwoken
      · omega
  | @exit w hfree hw hdestroyed =>
      exact .inl ⟨w, if_pos ⟨hw, hdestroyed⟩, hw, hdestroyed, rfl⟩
  | sleepy hholder => exact .inr (.inr ⟨rfl, by simp [returning, hholder], Nat.le_refl _⟩)
  | through hholder => exact .inr (.inr ⟨rfl, by simp [returning, hholder], Nat.le_refl _⟩)
  | block hholder => exact .inr (.inr ⟨rfl, by simp [returning, hholder], by simp⟩)
  | @leave w hholder hstop =>
      exact .inr (.inl ⟨w, rfl, by simp [returning, hholder, hstop], rfl⟩)
  | @take w hholder hstop =>
      refine .inr (.inr ⟨rfl, by simp [returning, hholder, hstop], ?_⟩)
      simp only [Pool.test]
      split
      case h_1 => simp
      case h_2 => simp
  | daemonTest => exact .inr (.inr ⟨rfl, rfl, Nat.le_refl _⟩)
  | check _ _ hpool =>
      refine .inr (.inr ⟨rfl, rfl, length_le_of_moves (Pool.daemonTask_moves hpool) ?_⟩)
      rintro w ⟨⟩
  | stop => exact .inr (.inr ⟨rfl, rfl, Nat.le_refl _⟩)
  | destroy => exact .inr (.inr ⟨rfl, rfl, Nat.le_refl _⟩)
  | notifyAll => exact .inr (.inr ⟨rfl, rfl, by simp [wakeAll]⟩)

/-- Every live worker has its own thread, and its entry in `_threads`. -/
structure Enlisted (s : Teardown) : Prop where
  length : s.ids.length = s.locked.pool.workers.length
  nodup : s.ids.Nodup
  entry : ∀ id ∈ s.ids, id ∈ s.threads
  fresh : ∀ id ∈ s.threads, id < s.nextId

namespace Enlisted

variable {config : PoolConfig} {s t : Teardown} {e : LockedEvent} {locked : LockedPool} {w : Nat}

theorem init (config : PoolConfig) : Enlisted (.init config) where
  length := rfl
  nodup := .nil
  entry := fun _ hid => absurd hid List.not_mem_nil
  fresh := fun _ hid => absurd hid List.not_mem_nil

/-- Threads are added. -/
theorem emplace
    {n : Nat}
    (h : Enlisted s)
    (hlength : locked.pool.workers.length = s.locked.pool.workers.length + n) :
    Enlisted (Teardown.emplace { s with locked := locked } n) := by
  constructor
  · show (s.ids ++ List.range' s.nextId n).length = locked.pool.workers.length
    rw [List.length_append, List.length_range', h.length, hlength]
  · refine List.nodup_append.mpr ⟨h.nodup, List.nodup_range' _, ?_⟩
    rintro a ha b hb rfl
    have hlt := h.fresh a (h.entry a ha)
    have hle := (List.mem_range'_1.mp hb).1
    exact absurd hlt (Nat.not_lt.mpr hle)
  · intro id hid
    rcases List.mem_append.mp hid with hold | hnew
    · exact List.mem_append_left _ (h.entry id hold)
    · exact List.mem_append_right _ hnew
  · intro id hid
    show id < s.nextId + n
    rcases List.mem_append.mp hid with hold | hnew
    · exact Nat.lt_add_right n (h.fresh id hold)
    · exact (List.mem_range'_1.mp hnew).2

/-- One worker goes; its entry goes with it or stays. -/
theorem erase
    {id : Nat}
    {threads : List Nat}
    {disturbed : Bool}
    (h : Enlisted s)
    (hid : s.ids[w]? = some id)
    (hworkers : locked.pool.workers = s.locked.pool.workers.eraseIdx w)
    (hthreads : threads = s.threads ∨ threads = s.threads.erase id) :
    Enlisted { s with
      locked := locked
      ids := s.ids.eraseIdx w
      threads := threads
      disturbed := disturbed } := by
  obtain ⟨hlt, -⟩ := List.getElem?_eq_some_iff.mp hid
  have hperm := Slots.perm_eraseIdx hid
  have hnodup := hperm.nodup_iff.mp h.nodup
  constructor
  · show (s.ids.eraseIdx w).length = locked.pool.workers.length
    rw [hworkers, List.length_eraseIdx_of_lt hlt, List.length_eraseIdx_of_lt (h.length ▸ hlt),
      h.length]
  · exact (List.nodup_cons.mp hnodup).2
  · intro other hother
    have hentry := h.entry other (List.mem_of_mem_eraseIdx hother)
    rcases hthreads with rfl | rfl
    · exact hentry
    · have hne : other ≠ id := by
        rintro rfl
        exact (List.nodup_cons.mp hnodup).1 hother
      exact (List.mem_erase_of_ne hne).mpr hentry
  · intro other hother
    rcases hthreads with rfl | rfl
    · exact h.fresh other hother
    · exact h.fresh other (List.mem_of_mem_erase hother)

/-- **The entries after a step of the pool.**  They change under the loop only when a worker
exits for a reduction. -/
theorem enlist
    (h : Enlisted s)
    (hlive : s.disturbed = false)
    (hstep : LockedPool.step config s.locked e = some locked) :
    (s.enlist e locked).locked = locked ∧ (s.enlist e locked).point = s.point ∧
      Enlisted (s.enlist e locked) ∧
      ((s.enlist e locked).disturbed = true ↔
        s.point.inLoop = true ∧ (s.locked.exiting e).isSome = true) := by
  rcases LockedPool.goes_cases hstep with ⟨w, hexit, hw, -, hworkers⟩ |
    ⟨w, hexit, hreturn, hworkers⟩ | ⟨hexit, hreturn, hlength⟩
  · obtain ⟨hlt, -⟩ := List.getElem?_eq_some_iff.mp hw
    obtain ⟨id, hid⟩ : ∃ id, s.ids[w]? = some id :=
      ⟨_, List.getElem?_eq_getElem (h.length ▸ hlt)⟩
    have hentry := h.entry id (List.mem_of_getElem? hid)
    simp only [Teardown.enlist, Teardown.detach, hexit, hid, if_pos hentry]
    exact ⟨trivial, trivial, h.erase hid hworkers (.inr rfl), by simp⟩
  · simp only [Teardown.enlist, hexit, hreturn]
    refine ⟨trivial, trivial, ?_, by simp [hlive]⟩
    cases hid : s.ids[w]? with
    | some id => exact h.erase hid hworkers (.inl rfl)
    | none =>
        have hle := List.getElem?_eq_none_iff.mp hid
        rw [List.eraseIdx_of_length_le (h.length ▸ hle)] at hworkers
        rw [List.eraseIdx_of_length_le hle]
        exact ⟨h.length.trans (congrArg List.length hworkers).symm, h.nodup, h.entry, h.fresh⟩
  · simp only [Teardown.enlist, hexit, hreturn]
    refine ⟨rfl, rfl, h.emplace ?_, ?_⟩
    · omega
    · simp [Teardown.emplace, hlive]

end Enlisted

/-! ### Steps -/

namespace Teardown

variable {config : PoolConfig} {s t : Teardown}

/-- What a step can be. -/
inductive Moves (config : PoolConfig) (s : Teardown) : TeardownEvent → Teardown → Prop
  | pool {e : LockedEvent} {locked : LockedPool}
      (h : LockedPool.step config s.locked e = some locked) :
      Moves config s (.pool e) (s.enlist e locked)
  | begin {order : List Nat} (hnotified : s.locked.notifiedAll = true)
      (hdaemon : s.locked.daemon = .ended) (hpoint : s.point = .before) :
      Moves config s (.begin order) { s with point := .joining order }
  | turn {id : Nat} {rest : List Nat} (hpoint : s.point = .joining (id :: rest))
      (hgone : id ∉ s.ids) :
      Moves config s .join { s with point := .joining rest }
  | finish (hpoint : s.point = .joining []) : Moves config s .join { s with point := .joined }

theorem step_moves
    {e : TeardownEvent}
    (h : step config s e = some t) :
    s.disturbed = false ∧ s.locked.pool.ended = false ∧ Moves config s e t := by
  unfold step at h
  split at h
  case isTrue => cases h
  case isFalse hready =>
    obtain ⟨hdisturbed, hended⟩ := not_or.mp hready
    refine ⟨by simpa using hdisturbed, by simpa using hended, ?_⟩
    cases e with
    | pool e =>
        cases hlocked : LockedPool.step config s.locked e with
        | none => simp [hlocked] at h
        | some locked =>
            simp only [hlocked, Option.some.injEq] at h
            subst h
            exact .pool hlocked
    | begin order =>
        simp only at h
        split at h
        case isTrue hguard =>
          obtain rfl := Option.some.inj h
          exact .begin hguard.1 hguard.2.1 hguard.2.2.1
        case isFalse => cases h
    | join =>
        simp only at h
        split at h
        case h_1 hpoint =>
          obtain rfl := Option.some.inj h
          exact .finish hpoint
        case h_2 id rest hpoint =>
          split at h
          case isTrue => cases h
          case isFalse hgone =>
            obtain rfl := Option.some.inj h
            exact .turn hpoint hgone
        case h_3 => cases h

/-- The steps of the pool are those of its `LockedPool`. -/
theorem locked_step
    {e : TeardownEvent}
    (h : Enlisted s)
    (hstep : step config s e = some t) :
    Enlisted t ∧ (LockedPool.system config).Leads s.locked t.locked := by
  obtain ⟨hlive, -, hmoves⟩ := step_moves hstep
  cases hmoves with
  | pool hlocked =>
      obtain ⟨hsame, -, ht, -⟩ := h.enlist hlive hlocked
      rw [hsame]
      exact ⟨ht, LockedPool.leads_head hlocked (.refl _)⟩
  | begin => exact ⟨⟨h.length, h.nodup, h.entry, h.fresh⟩, .refl _⟩
  | turn => exact ⟨⟨h.length, h.nodup, h.entry, h.fresh⟩, .refl _⟩
  | finish => exact ⟨⟨h.length, h.nodup, h.entry, h.fresh⟩, .refl _⟩

theorem locked_leads
    (h : Enlisted s)
    (hleads : (system config).Leads s t) :
    Enlisted t ∧ (LockedPool.system config).Leads s.locked t.locked := by
  refine hleads.invariant
    (I := fun t => Enlisted t ∧ (LockedPool.system config).Leads s.locked t.locked) ?_ ⟨h, .refl _⟩
  rintro t e u ⟨ht, hst⟩ hstep
  obtain ⟨hu, htu⟩ := locked_step ht hstep
  exact ⟨hu, hst.trans htu⟩

theorem leads_head
    {u : Teardown}
    {e : TeardownEvent}
    (hstep : step config s e = some t)
    (h : (system config).Leads t u) :
    (system config).Leads s u := by
  have hfirst : (system config).step s e = some t := hstep
  exact h.head hfirst

/-- A step of the pool that takes no entry away under the loop. -/
theorem lift_step
    {e : LockedEvent}
    {locked : LockedPool}
    (h : Enlisted s)
    (hlive : s.disturbed = false)
    (hstays : s.point.inLoop = true → s.locked.exiting e = none)
    (hstep : LockedPool.step config s.locked e = some locked) :
    ∃ t, step config s (.pool e) = some t ∧
      t.locked = locked ∧ t.point = s.point ∧ Enlisted t ∧ t.disturbed = false := by
  obtain ⟨hlocked, hpoint, ht, hdisturbed⟩ := h.enlist hlive hstep
  refine ⟨s.enlist e locked, ?_, hlocked, hpoint, ht, ?_⟩
  · simp [step, hlive, LockedPool.live hstep, hstep]
  · by_contra hne
    obtain ⟨hloop, hexits⟩ := hdisturbed.mp (by simpa using hne)
    rw [hstays hloop] at hexits
    cases hexits

end Teardown

/-! ### No exit to come -/

/-- The daemon has ended and nobody sleeps; no exit is owed, or nobody is there for it. -/
structure Settled (s : LockedPool) : Prop extends NobodySleeps s where
  ended : s.daemon = .ended
  clear : s.pool.destroyedThreadNum = 0 ∨ .woken ∉ s.pool.workers

namespace Settled

variable {config : PoolConfig} {s t : LockedPool} {e : LockedEvent}

/-- So no worker exits. -/
theorem exiting
    (h : Settled s) :
    s.exiting e = none := by
  cases e with
  | acquire w =>
      rw [LockedPool.exiting, if_neg]
      rintro ⟨hw, hdestroyed⟩
      rcases h.clear with hzero | hnone
      · omega
      · exact hnone (List.mem_of_getElem? hw)
  | _ => rfl

/-- With nobody asleep nobody is notified. -/
theorem outside
    {e : PoolEvent}
    {pool : Pool}
    (hnone : .waiting ∉ s.pool.workers)
    (hallowed : s.Allows e)
    (hpool : Pool.step config s.pool e = some pool) :
    pool.destroyedThreadNum = s.pool.destroyedThreadNum ∧
      (.woken ∈ pool.workers → .woken ∈ s.pool.workers) := by
  cases Pool.step_moves hpool with
  | spawn _ hspawn =>
      obtain ⟨-, rfl⟩ := Pool.spawn_eq hspawn
      exact ⟨rfl, by simp⟩
  | construct => exact ⟨rfl, id⟩
  | commit => exact ⟨rfl, id⟩
  | notify _ hone =>
      rcases Pool.notifyOne_cases hone with ⟨-, rfl⟩ | ⟨w, hw, -⟩
      · exact ⟨rfl, id⟩
      · exact absurd (List.mem_of_getElem? hw) hnone
  | enter => exact hallowed.elim
  | exit => exact hallowed.elim
  | retest => exact hallowed.elim
  | spurious hw => exact absurd (List.mem_of_getElem? hw) hnone
  | threw => exact ⟨rfl, id⟩
  | finish =>
      refine ⟨rfl, fun hwoken => ?_⟩
      rcases List.mem_or_eq_of_mem_set hwoken with hbefore | hready
      · exact hbefore
      · cases hready
  | expend => exact hallowed.elim
  | reduce => exact hallowed.elim
  | pass => exact hallowed.elim

theorem step
    (h : Settled s)
    (hstep : LockedPool.step config s e = some t) :
    Settled t := by
  have hsleeps := h.toNobodySleeps.step hstep
  cases LockedPool.step_moves hstep with
  | outside hallowed hpool =>
      obtain ⟨hdestroyed, hwoken⟩ := outside h.awake hallowed hpool
      refine ⟨hsleeps, h.ended, ?_⟩
      rw [hdestroyed]
      exact h.clear.imp_right fun hnone hmem => hnone (hwoken hmem)
  | acquire => exact ⟨hsleeps, h.ended, h.clear⟩
  | exit _ hw hdestroyed =>
      rcases h.clear with hzero | hnone
      · omega
      · exact absurd (List.mem_of_getElem? hw) hnone
  | sleepy => exact ⟨hsleeps, h.ended, h.clear⟩
  | through => exact ⟨hsleeps, h.ended, h.clear⟩
  | block hheld => exact absurd hheld (h.past _)
  | leave =>
      refine ⟨hsleeps, h.ended, h.clear.imp_right fun hnone hmem => ?_⟩
      exact hnone (List.mem_of_mem_eraseIdx hmem)
  | take _ hrunning =>
      rw [h.stopped] at hrunning
      cases hrunning
  | daemonTest hhead =>
      rw [h.ended] at hhead
      cases hhead
  | check hdue =>
      rw [h.ended] at hdue
      cases hdue
  | stop => exact ⟨hsleeps, h.ended, h.clear⟩
  | destroy => exact ⟨hsleeps, h.ended, h.clear⟩
  | notifyAll _ hnot =>
      rw [h.notified] at hnot
      cases hnot

end Settled

/-! ### Runs in time -/

/-- In a run in time nobody sleeps after `notify_all`, and no entry is taken away under the
loop. -/
structure Tearing (s : Teardown) : Prop where
  inv : LockInv s.locked
  enlisted : Enlisted s
  undisturbed : s.disturbed = false
  sleeps : s.locked.notifiedAll = true → NobodySleeps s.locked
  begun : s.point ≠ .before → s.locked.notifiedAll = true
  settled : s.point.inLoop = true → Settled s.locked

namespace Tearing

variable {config : PoolConfig} {s t : Teardown}

theorem init (config : PoolConfig) : Tearing (.init config) where
  inv := .init config
  enlisted := .init config
  undisturbed := rfl
  sleeps := nofun
  begun := fun h => absurd rfl h
  settled := nofun

/-- The destructor's own steps. -/
theorem move
    {point : JoinPoint}
    (h : Tearing s)
    (hnotified : s.locked.notifiedAll = true)
    (hsettled : point.inLoop = true → Settled s.locked) :
    Tearing { s with point := point } where
  inv := h.inv
  enlisted := ⟨h.enlisted.length, h.enlisted.nodup, h.enlisted.entry, h.enlisted.fresh⟩
  undisturbed := h.undisturbed
  sleeps := h.sleeps
  begun := fun _ => hnotified
  settled := hsettled

/-- A step of the pool. -/
theorem pool
    {e : LockedEvent}
    {locked : LockedPool}
    (h : Tearing s)
    (hclear : CallsClear s.locked e)
    (hstep : LockedPool.step config s.locked e = some locked) :
    Tearing (s.enlist e locked) := by
  obtain ⟨hlocked, hpoint, ht, hdisturbed⟩ := h.enlisted.enlist h.undisturbed hstep
  have hsleeps := NobodySleeps.of_step h.inv h.sleeps hclear hstep
  constructor
  · rw [hlocked]
    exact h.inv.step hstep
  · exact ht
  · by_contra hne
    obtain ⟨hloop, hexits⟩ := hdisturbed.mp (by simpa using hne)
    rw [(h.settled hloop).exiting] at hexits
    cases hexits
  · rw [hlocked]
    exact hsleeps
  · rw [hlocked, hpoint]
    exact fun hne => ((h.sleeps (h.begun hne)).step hstep).notified
  · rw [hlocked, hpoint]
    exact fun hloop => (h.settled hloop).step hstep

/-- **A step in time.** -/
theorem step
    {e : TeardownEvent}
    (h : Tearing s)
    (htime : s.InTime e)
    (hstep : Teardown.step config s e = some t) :
    Tearing t := by
  obtain ⟨-, -, hmoves⟩ := Teardown.step_moves hstep
  cases hmoves with
  | pool hlocked => exact h.pool htime hlocked
  | begin hnotified hdaemon => exact h.move hnotified fun _ => ⟨h.sleeps hnotified, hdaemon, htime⟩
  | turn hpoint => exact h.move (h.begun (by simp [hpoint])) fun _ => h.settled (by rw [hpoint]; rfl)
  | finish hpoint => exact h.move (h.begun (by simp [hpoint])) nofun

theorem of_reachable
    (h : (Teardown.system config).Reachable Teardown.InTime s) :
    Tearing s :=
  h.invariant (init config) fun _ _ _ hs htime hstep => hs.step htime hstep

/-- What the pool can do it does with its `_threads`. -/
theorem lift
    {locked : LockedPool}
    (hlist : Enlisted s)
    (hlive : s.disturbed = false)
    (hsettled : s.point.inLoop = true → Settled s.locked)
    (hleads : (LockedPool.system config).Leads s.locked locked) :
    ∃ t, (Teardown.system config).Leads s t ∧
      t.locked = locked ∧ t.point = s.point ∧ Enlisted t ∧ t.disturbed = false := by
  obtain ⟨es, hes⟩ := hleads
  induction es generalizing s with
  | nil =>
      obtain rfl : s.locked = locked := Option.some.inj hes
      exact ⟨s, .refl s, rfl, rfl, hlist, hlive⟩
  | cons e es ih =>
      obtain ⟨next, hfirst, hrest⟩ := System.runFrom_cons.mp hes
      have hlocked : LockedPool.step config s.locked e = some next := hfirst
      obtain ⟨t, hstep, rfl, hpoint, ht, hstill⟩ :=
        Teardown.lift_step hlist hlive (fun hloop => (hsettled hloop).exiting) hlocked
      have hlater : t.point.inLoop = true → Settled t.locked := by
        rw [hpoint]
        exact fun hloop => (hsettled hloop).step hlocked
      obtain ⟨u, hleads, hu, hsame, hrest⟩ := ih ht hstill hlater hrest
      exact ⟨u, Teardown.leads_head hstep hleads, hu, hsame.trans hpoint, hrest⟩

/-- The loop over threads that have returned. -/
theorem join_all
    (config : PoolConfig)
    {rest : List Nat}
    (hlive : s.disturbed = false)
    (hended : s.locked.pool.ended = false)
    (hgone : s.ids = [])
    (hpoint : s.point = .joining rest) :
    ∃ t, (Teardown.system config).Leads s t ∧ t.point = .joined := by
  induction rest generalizing s with
  | nil =>
      have hstep : Teardown.step config s .join = some { s with point := .joined } := by
        simp [Teardown.step, hlive, hended, hpoint]
      exact ⟨_, Teardown.leads_head hstep (.refl _), rfl⟩
  | cons id rest ih =>
      have hstep : Teardown.step config s .join = some { s with point := .joining rest } := by
        simp [Teardown.step, hlive, hended, hpoint, hgone]
      obtain ⟨t, hleads, ht⟩ := ih (s := { s with point := .joining rest }) hlive hended hgone rfl
      exact ⟨t, Teardown.leads_head hstep hleads, ht⟩

/-- **Every `join` can return.** -/
theorem joins
    (config : PoolConfig)
    (h : Tearing s)
    (hnotified : s.locked.notifiedAll = true)
    (hended : s.locked.pool.ended = false) :
    ∃ t, (Teardown.system config).Leads s t ∧ t.point = .joined := by
  obtain ⟨locked, hleads, hall⟩ := (h.sleeps hnotified).joins config h.inv hended
  have hlater := (h.sleeps hnotified).leads hleads
  obtain ⟨t, hst, rfl, hpoint, ht, hlive⟩ := lift h.enlisted h.undisturbed h.settled hleads
  have hgone : t.ids = [] := by
    rw [← List.length_eq_zero_iff, ht.length, hall.workers, List.length_nil]
  cases hat : t.point with
  | joined => exact ⟨t, hst, hat⟩
  | joining rest =>
      obtain ⟨u, htu, hu⟩ := join_all config hlive hall.live hgone hat
      exact ⟨u, hst.trans htu, hu⟩
  | before =>
      have hbegin : Teardown.step config t (.begin t.threads) =
          some { t with point := .joining t.threads } := by
        simp [Teardown.step, hlive, hall.live, hlater.notified, hall.daemon, hat]
      obtain ⟨u, htu, hu⟩ := join_all config
        (s := { t with point := .joining t.threads }) hlive hall.live hgone rfl
      exact ⟨u, hst.trans (Teardown.leads_head hbegin htu), hu⟩

end Tearing

/-! ### Steps too early -/

/-- Who is stranded in the pool is stranded. -/
theorem Teardown.strands_of_locked
    {config : PoolConfig}
    {s : Teardown}
    (h : Enlisted s)
    (hstrands : Core.StrandsWorker config s.locked) :
    StrandsWorker config s := by
  obtain ⟨hnotified, hlive, hwaiting, hsilent⟩ := hstrands
  refine ⟨hnotified, hlive, hwaiting, fun t hleads e u hstep => ?_⟩
  obtain ⟨-, hlocked⟩ := locked_leads h hleads
  obtain ⟨-, -, hmoves⟩ := step_moves hstep
  cases hmoves with
  | pool hpool => exact hsilent t.locked hlocked e _ hpool

namespace Tearing

variable {config : PoolConfig} {s t : Teardown}

/-- A call of `notify_all` that is not clear. -/
theorem strands
    {e : LockedEvent}
    (h : Tearing s)
    (hearly : ¬ CallsClear s.locked e)
    (hstep : Teardown.step config s (.pool e) = some t) :
    ∃ u, (Teardown.system config).Leads t u ∧ Teardown.StrandsWorker config u := by
  obtain ⟨-, -, hmoves⟩ := Teardown.step_moves hstep
  cases hmoves with
  | @pool e locked hlocked =>
      obtain rfl : e = .notifyAll := by
        cases e with
        | notifyAll => rfl
        | _ => exact absurd trivial hearly
      obtain ⟨hsame, hpoint, ht, hdisturbed⟩ := h.enlisted.enlist h.undisturbed hlocked
      obtain ⟨u, hleads, hu⟩ := strands_of_not_clear h.inv hearly hlocked
      -- the joins have not begun
      have hbefore : s.point = .before := by
        by_contra hne
        cases LockedPool.step_moves hlocked with
        | notifyAll _ hnot =>
            rw [h.begun hne] at hnot
            cases hnot
      rw [hbefore] at hpoint hdisturbed
      have hlive : (s.enlist .notifyAll locked).disturbed = false := by
        simpa [JoinPoint.inLoop] using hdisturbed
      have hloop : (s.enlist .notifyAll locked).point.inLoop = true →
          Settled (s.enlist .notifyAll locked).locked := by
        rw [hpoint]
        exact nofun
      rw [← hsame] at hleads
      obtain ⟨U, hlift, rfl, -, hU, -⟩ := lift ht hlive hloop hleads
      exact ⟨U, hlift, Teardown.strands_of_locked hU hu⟩

end Tearing

/-- The loop is under way, and a worker is about to exit. -/
structure Exiting (s : Teardown) : Prop where
  enlisted : Enlisted s
  undisturbed : s.disturbed = false
  live : s.locked.pool.ended = false
  inv : LockInv s.locked
  sleeps : NobodySleeps s.locked
  inLoop : s.point.inLoop = true
  owed : 0 < s.locked.pool.destroyedThreadNum
  woken : .woken ∈ s.locked.pool.workers

namespace Exiting

variable {config : PoolConfig} {s : Teardown}

/-- The worker with the lock goes on. -/
theorem advance
    {locked : LockedPool}
    (h : Exiting s)
    (hstep : LockedPool.step config s.locked .advance = some locked)
    (hended : locked.pool.ended = false)
    (howed : locked.pool.destroyedThreadNum = s.locked.pool.destroyedThreadNum)
    (hwoken : .woken ∈ locked.pool.workers) :
    ∃ t, (Teardown.system config).Leads s t ∧ t.locked = locked ∧ Exiting t := by
  obtain ⟨t, hfirst, rfl, hpoint, ht, hlive⟩ :=
    Teardown.lift_step h.enlisted h.undisturbed (fun _ => rfl) hstep
  refine ⟨t, Teardown.leads_head hfirst (.refl t), rfl, ht, hlive, hended, h.inv.step hstep,
    h.sleeps.step hstep, ?_, ?_, hwoken⟩
  · rw [hpoint]
    exact h.inLoop
  · rw [howed]
    exact h.owed

end Exiting

end Core
end ZeroRPC
