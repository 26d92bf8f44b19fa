import ZeroRPC.Core.PoolLock

/-!
# Nobody sleeps, or nobody notifies

The destructor of a `Thread_Pool` writes `_isStop` and calls `notify_all`.  A worker that
tested the flag before the write and blocks after the call sleeps on: everybody else goes,
the daemon too.

Main facts:
* `NobodySleeps.step`, `NoneToCome.step`: after the call either nobody sleeps, or, once all
  is quiet, nobody notifies;
* `NobodySleeps.of_step`: nobody sleeps while `notify_all` never falls between a worker's
  test and its `wait`;
* `strands_of_not_clear`: after every other call of it somebody can;
* `Draining.drain`: all workers that are awake can go;
* `NobodySleeps.joins`: with nobody asleep everybody can return.
-/

namespace ZeroRPC
namespace Core

open Library

/-- `notify_all` has been delivered, no notification is sent in any later step, and some
worker is blocked. -/
def StrandsWorker (config : PoolConfig) (s : LockedPool) : Prop :=
  s.notifiedAll = true ∧ s.pool.ended = false ∧ .waiting ∈ s.pool.workers ∧
    ∀ t, (LockedPool.system config).Leads s t →
      ∀ e u, LockedPool.step config t e = some u → ¬ LockedPool.Notifies e

/-- Every worker and the daemon have returned. -/
structure AllReturned (s : LockedPool) : Prop where
  workers : s.pool.workers = []
  daemon : s.daemon = .ended
  live : s.pool.ended = false

/-- `notify_all` is not called while a worker is between its test of the flag and
`_taskCV.wait`. -/
def CallsClear (s : LockedPool) : LockedEvent → Prop
  | .notifyAll => ∀ w, s.holder ≠ some (w, .blocking)
  | _ => True

theorem mem_of_notifyOne
    {workers next : List WorkerPoint}
    {choice : Option Nat}
    {p : WorkerPoint}
    (h : notifyOne workers choice = some next)
    (hp : p ∈ next) :
    p ∈ workers ∨ p = .woken := by
  rcases Pool.notifyOne_cases h with ⟨-, rfl⟩ | ⟨w, -, rfl⟩
  · exact .inl hp
  · exact List.mem_or_eq_of_mem_set hp

theorem mem_of_notifyAll
    {choices : List (Option Nat)}
    {workers next : List WorkerPoint}
    {p : WorkerPoint}
    (h : Pool.notifyAll choices workers = some next) :
    p ∈ next → p ∈ workers ∨ p = .woken := by
  refine Pool.notifyAll_rule (fun _ => .inl) ?_ (fun _ _ _ => mem_of_notifyOne) h
  intro workers mid next hfirst hrest hp
  rcases hrest hp with hmid | hwoken
  · exact hfirst hmid
  · exact .inr hwoken

/-- Without a test of the queue a worker only goes to the head of its loop, or is
notified. -/
theorem mem_of_moves
    {config : PoolConfig}
    {s t : Pool}
    {e : PoolEvent}
    {p : WorkerPoint}
    (hmoves : Pool.Moves config s e t)
    (henter : ∀ w, e ≠ .enter w)
    (hwake : ∀ w, e ≠ .wake w)
    (hp : p ∈ t.workers) :
    p ∈ s.workers ∨ p = .ready ∨ p = .woken := by
  cases hmoves with
  | spawn _ hspawn =>
      obtain ⟨-, rfl⟩ := Pool.spawn_eq hspawn
      rcases List.mem_append.mp hp with hold | hnew
      · exact .inl hold
      · exact .inr (.inl (List.mem_singleton.mp hnew))
  | construct => exact .inl hp
  | commit => exact .inl hp
  | notify _ hone => exact (mem_of_notifyOne hone hp).imp_right .inr
  | @enter w => exact absurd rfl (henter w)
  | @exit w => exact absurd rfl (hwake w)
  | @retest w => exact absurd rfl (hwake w)
  | spurious => exact (List.mem_or_eq_of_mem_set hp).imp_right .inr
  | threw => exact .inl hp
  | finish => exact (List.mem_or_eq_of_mem_set hp).imp_right .inl
  | expend _ hexpend =>
      rw [Accounted.expendThreadPool_eq hexpend] at hp
      rcases List.mem_append.mp hp with hold | hnew
      · exact .inl hold
      · exact .inr (.inl (List.eq_of_mem_replicate hnew))
  | reduce _ _ hall => exact (mem_of_notifyAll hall hp).imp_right .inr
  | pass => exact .inl hp

theorem mem_of_outside
    {config : PoolConfig}
    {s : LockedPool}
    {pool : Pool}
    {e : PoolEvent}
    {p : WorkerPoint}
    (hallowed : s.Allows e)
    (hpool : Pool.step config s.pool e = some pool)
    (hp : p ∈ pool.workers) :
    p ∈ s.pool.workers ∨ p = .ready ∨ p = .woken := by
  refine mem_of_moves (Pool.step_moves hpool) ?_ ?_ hp
  · rintro w rfl
    exact hallowed
  · rintro w rfl
    exact hallowed

theorem mem_of_check
    {config : PoolConfig}
    {s pool : Pool}
    {choices : List (Option Nat)}
    {p : WorkerPoint}
    (hpool : s.daemonTask config choices = some pool)
    (hp : p ∈ pool.workers) :
    p ∈ s.workers ∨ p = .ready ∨ p = .woken :=
  mem_of_moves (Pool.daemonTask_moves hpool) nofun nofun hp

/-! ### When the call is clear -/

/-- After `notify_all` nobody waits, or is about to. -/
structure NobodySleeps (s : LockedPool) : Prop where
  notified : s.notifiedAll = true
  stopped : s.isStop = true
  awake : .waiting ∉ s.pool.workers
  past : ∀ w, s.holder ≠ some (w, .blocking)

namespace NobodySleeps

variable {config : PoolConfig} {s t : LockedPool}

/-- Workers go, or change to a point outside `wait`. -/
theorem frame
    (h : NobodySleeps s)
    (hnotified : t.notifiedAll = s.notifiedAll)
    (hstop : t.isStop = s.isStop)
    (hworkers : ∀ p ∈ t.pool.workers, p ∈ s.pool.workers ∨ p = .ready ∨ p = .woken)
    (hholder : ∀ w, t.holder ≠ some (w, .blocking)) :
    NobodySleeps t where
  notified := hnotified.trans h.notified
  stopped := hstop.trans h.stopped
  awake := by
    intro hwaiting
    rcases hworkers _ hwaiting with hbefore | hready | hwoken
    · exact h.awake hbefore
    · cases hready
    · cases hwoken
  past := hholder

theorem step
    {e : LockedEvent}
    (h : NobodySleeps s)
    (hstep : LockedPool.step config s e = some t) :
    NobodySleeps t := by
  cases LockedPool.step_moves hstep with
  | outside hallowed hpool =>
      exact h.frame rfl rfl (fun _ hp => mem_of_outside hallowed hpool hp) h.past
  | acquire => exact h.frame rfl rfl (fun _ hp => .inl hp) (by simp)
  | exit => exact h.frame rfl rfl (fun _ hp => .inl (List.mem_of_mem_eraseIdx hp)) h.past
  | sleepy _ _ hstop =>
      rw [h.stopped] at hstop
      cases hstop
  | through => exact h.frame rfl rfl (fun _ hp => .inl hp) (by simp)
  | block hheld => exact absurd hheld (h.past _)
  | leave => exact h.frame rfl rfl (fun _ hp => .inl (List.mem_of_mem_eraseIdx hp)) (by simp)
  | take _ hstop =>
      rw [h.stopped] at hstop
      cases hstop
  | daemonTest => exact h.frame rfl rfl (fun _ hp => .inl hp) h.past
  | check _ _ hpool => exact h.frame rfl rfl (fun _ hp => mem_of_check hpool hp) h.past
  | stop => exact ⟨h.notified, rfl, h.awake, h.past⟩
  | destroy => exact ⟨h.notified, rfl, h.awake, h.past⟩
  | notifyAll => exact ⟨rfl, h.stopped, waiting_notMem_wakeAll _, h.past⟩

theorem leads
    (h : NobodySleeps s)
    (hleads : (LockedPool.system config).Leads s t) :
    NobodySleeps t :=
  hleads.invariant (fun _ _ _ hs hstep => hs.step hstep) h

/-- A clear call of `notify_all`. -/
theorem of_notifyAll
    (h : LockInv s)
    (hclear : CallsClear s .notifyAll)
    (hstep : LockedPool.step config s .notifyAll = some t) :
    NobodySleeps t := by
  cases LockedPool.step_moves hstep with
  | notifyAll hdestroying =>
      exact ⟨rfl, h.stopped hdestroying, waiting_notMem_wakeAll _, hclear⟩

end NobodySleeps

/-- A clear step leaves nobody asleep after `notify_all`. -/
theorem NobodySleeps.of_step
    {config : PoolConfig}
    {s t : LockedPool}
    {e : LockedEvent}
    (hinv : LockInv s)
    (h : s.notifiedAll = true → NobodySleeps s)
    (hclear : CallsClear s e)
    (hstep : LockedPool.step config s e = some t) :
    t.notifiedAll = true → NobodySleeps t := by
  intro hnotified
  by_cases hbefore : s.notifiedAll = true
  · exact (h hbefore).step hstep
  · have hcall : e = .notifyAll := by
      cases LockedPool.step_moves hstep with
      | notifyAll => rfl
      | _ => exact absurd hnotified hbefore
    subst hcall
    exact .of_notifyAll hinv hclear hstep

/-! ### When it is not -/

/-- Nobody is left who could notify the workers. -/
structure NoneToCome (s : LockedPool) : Prop where
  inv : LockInv s
  notified : s.notifiedAll = true
  delivered : s.pool.notifying = 0
  idle : ∀ p ∈ s.pool.workers, p.task? = none
  daemon : s.daemon ≠ .due

namespace NoneToCome

variable {config : PoolConfig} {s t : LockedPool}

theorem stopped
    (h : NoneToCome s) :
    s.isStop = true :=
  h.inv.stopped (h.inv.begun h.notified)

/-- Workers go, or change to a point outside their tasks. -/
theorem frame
    (h : NoneToCome s)
    (hinv : LockInv t)
    (hnotified : t.notifiedAll = s.notifiedAll)
    (hnotifying : t.pool.notifying = s.pool.notifying)
    (hworkers : ∀ p ∈ t.pool.workers, p ∈ s.pool.workers ∨ p.task? = none)
    (hdaemon : t.daemon ≠ .due) :
    NoneToCome t where
  inv := hinv
  notified := hnotified.trans h.notified
  delivered := hnotifying.trans h.delivered
  idle := by
    intro p hp
    rcases hworkers p hp with hbefore | hidle
    · exact h.idle p hbefore
    · exact hidle
  daemon := hdaemon

/-- A step that is not split. -/
theorem outside
    {e : PoolEvent}
    {pool : Pool}
    (h : NoneToCome s)
    (hallowed : s.Allows e)
    (hpool : Pool.step config s.pool e = some pool) :
    ¬ LockedPool.Notifies (.outside e) ∧ pool.notifying = s.pool.notifying := by
  cases Pool.step_moves hpool with
  | spawn _ hspawn =>
      obtain ⟨-, rfl⟩ := Pool.spawn_eq hspawn
      exact ⟨id, rfl⟩
  | construct => exact ⟨id, rfl⟩
  | commit =>
      have hrunning : s.pool.running = [] := List.filterMap_eq_nil_iff.mpr h.idle
      exact absurd hrunning (hallowed.2 (h.inv.begun h.notified))
  | notify hn =>
      rw [h.delivered] at hn
      cases hn
  | enter => exact hallowed.elim
  | exit => exact hallowed.elim
  | retest => exact hallowed.elim
  | spurious => exact ⟨id, rfl⟩
  | threw => exact ⟨id, rfl⟩
  | finish => exact ⟨id, rfl⟩
  | expend => exact hallowed.elim
  | reduce => exact hallowed.elim
  | pass => exact hallowed.elim

/-- No step notifies, and it stays so. -/
theorem step
    {e : LockedEvent}
    (h : NoneToCome s)
    (hstep : LockedPool.step config s e = some t) :
    ¬ LockedPool.Notifies e ∧ NoneToCome t := by
  have hinv := h.inv.step hstep
  cases LockedPool.step_moves hstep with
  | outside hallowed hpool =>
      obtain ⟨hsilent, hnotifying⟩ := h.outside hallowed hpool
      refine ⟨hsilent, h.frame hinv rfl hnotifying (fun p hp => ?_) h.daemon⟩
      rcases mem_of_outside hallowed hpool hp with hbefore | rfl | rfl
      · exact .inl hbefore
      · exact .inr rfl
      · exact .inr rfl
  | acquire => exact ⟨id, h.frame hinv rfl rfl (fun _ hp => .inl hp) h.daemon⟩
  | exit =>
      exact ⟨id, h.frame hinv rfl rfl (fun _ hp => .inl (List.mem_of_mem_eraseIdx hp)) h.daemon⟩
  | sleepy => exact ⟨id, h.frame hinv rfl rfl (fun _ hp => .inl hp) h.daemon⟩
  | through => exact ⟨id, h.frame hinv rfl rfl (fun _ hp => .inl hp) h.daemon⟩
  | block =>
      refine ⟨id, h.frame hinv rfl rfl (fun p hp => ?_) h.daemon⟩
      rcases List.mem_or_eq_of_mem_set hp with hbefore | rfl
      · exact .inl hbefore
      · exact .inr rfl
  | leave =>
      exact ⟨id, h.frame hinv rfl rfl (fun _ hp => .inl (List.mem_of_mem_eraseIdx hp)) h.daemon⟩
  | take _ hrunning =>
      rw [h.stopped] at hrunning
      cases hrunning
  | daemonTest =>
      refine ⟨id, h.frame hinv rfl rfl (fun _ hp => .inl hp) ?_⟩
      simp [h.stopped]
  | check hdue => exact absurd hdue h.daemon
  | stop => exact ⟨id, h.frame hinv rfl rfl (fun _ hp => .inl hp) h.daemon⟩
  | destroy => exact ⟨id, h.frame hinv rfl rfl (fun _ hp => .inl hp) h.daemon⟩
  | notifyAll _ hnot =>
      rw [h.notified] at hnot
      cases hnot

theorem strands
    (h : NoneToCome s)
    (hlive : s.pool.ended = false)
    (hwaiting : .waiting ∈ s.pool.workers) :
    StrandsWorker config s := by
  refine ⟨h.notified, hlive, hwaiting, fun t hleads e u hstep => ?_⟩
  have hlater : NoneToCome t := hleads.invariant (fun _ _ _ hs hstep => (hs.step hstep).2) h
  exact (hlater.step hstep).1

end NoneToCome

/-- A worker is about to sleep, and `notify_all` is over. -/
structure Late (w : Nat) (s : LockedPool) : Prop where
  inv : LockInv s
  live : s.pool.ended = false
  notified : s.notifiedAll = true
  holder : s.holder = some (w, .blocking)
  awake : .waiting ∉ s.pool.workers

/-- After `notify_all` so many workers sleep, and so many commits have still to notify. -/
structure Draining (sleepers pending : Nat) (s : LockedPool) : Prop where
  inv : LockInv s
  live : s.pool.ended = false
  notified : s.notifiedAll = true
  holder : s.holder = none
  sleepers : s.pool.workers.count .waiting = sleepers
  pending : s.pool.notifying = pending

theorem LockInv.leads
    {config : PoolConfig}
    {s t : LockedPool}
    (h : LockInv s)
    (hleads : (LockedPool.system config).Leads s t) :
    LockInv t :=
  hleads.invariant (fun _ _ _ hs hstep => hs.step hstep) h

theorem LockedPool.leads_head
    {config : PoolConfig}
    {s t u : LockedPool}
    {e : LockedEvent}
    (hstep : LockedPool.step config s e = some t)
    (h : (LockedPool.system config).Leads t u) :
    (LockedPool.system config).Leads s u := by
  have hfirst : (LockedPool.system config).step s e = some t := hstep
  exact h.head hfirst

namespace Late

variable {config : PoolConfig} {w : Nat} {s : LockedPool}

/-- The notifications of the commits find nobody asleep. -/
theorem deliver
    (h : Late w s) :
    ∃ t, (LockedPool.system config).Leads s t ∧ Late w t ∧ t.pool.notifying = 0 := by
  refine System.leads_of_measure (fun s => s.pool.notifying) (fun s h => ?_) h
  cases hn : s.pool.notifying with
  | zero => exact .inl rfl
  | succ n =>
      have hone : notifyOne s.pool.workers none = some s.pool.workers := if_neg h.awake
      have hstep : LockedPool.step config s (.outside (.notify none)) =
          some { s with pool := { s.pool with notifying := n } } := by
        simp [LockedPool.step, LockedPool.Allows, Pool.step, h.live, hn, hone]
      refine .inr ⟨_, LockedPool.leads_head hstep (.refl _), ?_, Nat.lt_succ_self n⟩
      exact ⟨h.inv.step hstep, h.live, h.notified, h.holder, h.awake⟩

/-- The worker blocks. -/
theorem block
    (h : Late w s)
    (hdelivered : s.pool.notifying = 0) :
    ∃ t, (LockedPool.system config).Leads s t ∧ Draining 1 0 t := by
  have hstep : LockedPool.step config s .advance =
      some { s with
        pool := { s.pool with workers := s.pool.workers.set w .waiting }
        holder := none } := by
    simp [LockedPool.step, LockedPool.advance, h.live, h.holder]
  refine ⟨_, LockedPool.leads_head hstep (.refl _), h.inv.step hstep, h.live, h.notified, rfl, ?_,
    hdelivered⟩
  obtain ⟨p, hw, -⟩ := (h.inv.holder _ _ h.holder).place
  obtain ⟨hlt, -⟩ := List.getElem?_eq_some_iff.mp hw
  have hothers : (s.pool.workers.eraseIdx w).count .waiting = 0 :=
    List.count_eq_zero.mpr fun hmem => h.awake (List.mem_of_mem_eraseIdx hmem)
  have hperm := List.set_perm_cons_eraseIdx hlt WorkerPoint.waiting
  show (s.pool.workers.set w .waiting).count .waiting = 1
  rw [hperm.count_eq, List.count_cons_self, hothers]

end Late

namespace Draining

variable {config : PoolConfig} {sleepers pending : Nat} {s : LockedPool}

theorem stopped
    (h : Draining sleepers pending s) :
    s.isStop = true :=
  h.inv.stopped (h.inv.begun h.notified)

/-- A worker with the lock that has seen the flag. -/
theorem leaves
    {w : Nat}
    {p : WorkerPoint}
    (h : Draining sleepers pending s)
    (hw : s.pool.workers[w]? = some p)
    (hp : p = .ready ∨ p = .woken ∧ s.pool.destroyedThreadNum = 0) :
    (LockedPool.system config).Leads s { s with pool := LockedPool.leave s.pool w } := by
  have hacquire : LockedPool.step config s (.acquire w) =
      some { s with holder := some (w, .testing) } := by
    rcases hp with rfl | ⟨rfl, hdestroyed⟩
    · simp [LockedPool.step, LockedPool.acquire, h.live, h.holder, hw]
    · simp [LockedPool.step, LockedPool.acquire, h.live, h.holder, hw, hdestroyed]
  have hthrough : LockedPool.step config { s with holder := some (w, .testing) } .advance =
      some { s with holder := some (w, .leaving) } := by
    simp [LockedPool.step, LockedPool.advance, h.live, h.stopped]
  have hleave : LockedPool.step config { s with holder := some (w, .leaving) } .advance =
      some { s with pool := LockedPool.leave s.pool w } := by
    simp [LockedPool.step, LockedPool.advance, h.live, h.stopped, h.holder]
  exact LockedPool.leads_head hacquire
    (LockedPool.leads_head hthrough (LockedPool.leads_head hleave (.refl _)))

/-- A worker that is not asleep comes nearer to its end. -/
theorem progress
    {w : Nat}
    {p : WorkerPoint}
    (h : Draining sleepers pending s)
    (hw : s.pool.workers[w]? = some p)
    (hp : p ≠ .waiting) :
    ∃ t, (LockedPool.system config).Leads s t ∧ Draining sleepers pending t ∧
      (t.pool.workers.map WorkerPoint.left).sum < (s.pool.workers.map WorkerPoint.left).sum := by
  obtain ⟨hlt, -⟩ := List.getElem?_eq_some_iff.mp hw
  have hperm := Slots.perm_eraseIdx hw
  have hsum := (hperm.map WorkerPoint.left).sum_eq
  have hcount := hperm.count_eq .waiting
  rw [List.map_cons, List.sum_cons] at hsum
  rw [h.sleepers, List.count_cons_of_ne hp] at hcount
  -- the worker is gone
  have hgone : ∀ t : LockedPool, (LockedPool.system config).Leads s t →
      t.pool.workers = s.pool.workers.eraseIdx w → t.pool.ended = s.pool.ended →
      t.notifiedAll = s.notifiedAll → t.holder = s.holder →
      t.pool.notifying = s.pool.notifying → 0 < p.left →
      ∃ t, (LockedPool.system config).Leads s t ∧ Draining sleepers pending t ∧
        (t.pool.workers.map WorkerPoint.left).sum <
          (s.pool.workers.map WorkerPoint.left).sum := by
    intro t hleads hworkers hended hnotified hholder hnotifying hleft
    refine ⟨t, hleads, ⟨h.inv.leads hleads, hended.trans h.live, hnotified.trans h.notified,
      hholder.trans h.holder, ?_, hnotifying.trans h.pending⟩, ?_⟩
    · rw [hworkers]
      exact hcount.symm
    · rw [hworkers, hsum]
      omega
  cases p with
  | waiting => exact absurd rfl hp
  | ready => exact hgone _ (h.leaves hw (.inl rfl)) rfl rfl rfl rfl rfl Nat.one_pos
  | woken =>
      rcases Nat.eq_zero_or_pos s.pool.destroyedThreadNum with hzero | hdestroyed
      · exact hgone _ (h.leaves hw (.inr ⟨rfl, hzero⟩)) rfl rfl rfl rfl rfl Nat.one_pos
      · have hexit : LockedPool.step config s (.acquire w) =
            some { s with pool := s.pool.exit w } := by
          simp [LockedPool.step, LockedPool.acquire, h.live, h.holder, hw, hdestroyed]
        exact hgone _ (LockedPool.leads_head hexit (.refl _)) rfl rfl rfl rfl rfl Nat.one_pos
  | running task =>
      have hfinish : LockedPool.step config s (.outside (.finish w false)) =
          some { s with pool := s.pool.finish w task } := by
        simp [LockedPool.step, LockedPool.Allows, Pool.step, h.live, h.holder, hw]
      have hset := List.set_perm_cons_eraseIdx hlt WorkerPoint.ready
      refine ⟨_, LockedPool.leads_head hfinish (.refl _),
        ⟨h.inv.step hfinish, h.live, h.notified, h.holder, ?_, h.pending⟩, ?_⟩
      · show (s.pool.workers.set w .ready).count .waiting = sleepers
        rw [hset.count_eq, List.count_cons_of_ne (by simp), ← hcount]
      · show ((s.pool.workers.set w .ready).map WorkerPoint.left).sum < _
        rw [(hset.map WorkerPoint.left).sum_eq, hsum, List.map_cons, List.sum_cons]
        exact Nat.add_lt_add_right (Nat.lt_succ_self 1) _

/-- In the end only those that sleep are left. -/
theorem drain
    (h : Draining sleepers pending s) :
    ∃ t, (LockedPool.system config).Leads s t ∧ Draining sleepers pending t ∧
      t.pool.workers = List.replicate sleepers .waiting := by
  refine System.leads_of_measure
    (fun s => (s.pool.workers.map WorkerPoint.left).sum) (fun s h => ?_) h
  by_cases hall : ∀ p ∈ s.pool.workers, p = .waiting
  · left
    have hlength : s.pool.workers.length = sleepers := by
      rw [← List.count_eq_length.mpr fun p hp => (hall p hp).symm]
      exact h.sleepers
    exact List.eq_replicate_iff.mpr ⟨hlength, hall⟩
  · right
    push Not at hall
    obtain ⟨p, hmem, hp⟩ := hall
    obtain ⟨w, hw⟩ := List.mem_iff_getElem?.mp hmem
    exact h.progress hw hp

/-- With at most four threads, all idle, the daemon has nothing to do. -/
theorem check
    (h : Draining sleepers pending s)
    (hasleep : s.pool.workers = List.replicate sleepers .waiting)
    (hfew : sleepers < 5)
    (hdue : s.daemon = .due) :
    LockedPool.step config s (.check []) = some { s with daemon := .head } := by
  have hthreads : s.pool.threadNum = sleepers := by
    rw [h.inv.account.threads, hasleep, List.length_replicate]
  have hworking : s.pool.workingThreadNum = 0 := by
    rw [h.inv.account.working, Pool.running, hasleep, List.length_eq_zero_iff,
      List.filterMap_eq_nil_iff]
    intro p hp
    rw [List.eq_of_mem_replicate hp]
    rfl
  have hexpends : ¬ Pool.Expends config s.pool := by
    rintro ⟨hlow, -⟩
    omega
  have hreduces : ¬ Pool.Reduces config s.pool := by
    rintro ⟨hhigh, -⟩
    omega
  simp [LockedPool.step, Pool.daemonTask, h.live, hdue, h.holder, hexpends, hreduces]

/-- A sleeper is left behind by the daemon, which ends at its next test. -/
theorem strands
    (h : Draining 1 0 s)
    (halone : s.pool.workers = [.waiting]) :
    ∃ t, (LockedPool.system config).Leads s t ∧ StrandsWorker config t := by
  have hidle : ∀ p ∈ s.pool.workers, p.task? = none := by
    rw [halone]
    simp [WorkerPoint.task?]
  have hwaiting : .waiting ∈ s.pool.workers := by
    rw [halone]
    exact List.mem_singleton_self _
  by_cases hdue : s.daemon = .due
  · have hcheck : LockedPool.step config s (.check []) = some { s with daemon := .head } :=
      h.check halone (by decide) hdue
    have hnone : NoneToCome { s with daemon := .head } :=
      ⟨h.inv.step hcheck, h.notified, h.pending, hidle, by simp⟩
    exact ⟨_, LockedPool.leads_head hcheck (.refl _), hnone.strands h.live hwaiting⟩
  · have hnone : NoneToCome s := ⟨h.inv, h.notified, h.pending, hidle, hdue⟩
    exact ⟨s, .refl s, hnone.strands h.live hwaiting⟩

/-- With no sleeper the daemon is the last to end. -/
theorem joins
    (h : Draining 0 pending s)
    (hgone : s.pool.workers = []) :
    ∃ t, (LockedPool.system config).Leads s t ∧ AllReturned t := by
  have hends : ∀ t : LockedPool, t.pool = s.pool → t.isStop = s.isStop → t.daemon = .head →
      ∃ u, (LockedPool.system config).Leads t u ∧ AllReturned u := by
    intro t hpool hstop hhead
    have htest : LockedPool.step config t .daemonTest = some { t with daemon := .ended } := by
      simp [LockedPool.step, hpool, hstop, hhead, h.live, h.stopped]
    have hworkers : t.pool.workers = [] := by
      rw [hpool]
      exact hgone
    exact ⟨_, LockedPool.leads_head htest (.refl _), hworkers, rfl, by rw [hpool]; exact h.live⟩
  cases hdaemon : s.daemon with
  | head => exact hends s rfl rfl hdaemon
  | due =>
      have hcheck : LockedPool.step config s (.check []) = some { s with daemon := .head } :=
        h.check hgone (by decide) hdaemon
      obtain ⟨u, hleads, hu⟩ := hends { s with daemon := .head } rfl rfl rfl
      exact ⟨u, LockedPool.leads_head hcheck hleads, hu⟩
  | ended => exact ⟨s, .refl s, hgone, hdaemon, h.live⟩

end Draining

/-- A call that is not clear can strand a worker. -/
theorem strands_of_not_clear
    {config : PoolConfig}
    {s t : LockedPool}
    (h : LockInv s)
    (hclear : ¬ CallsClear s .notifyAll)
    (hstep : LockedPool.step config s .notifyAll = some t) :
    ∃ u, (LockedPool.system config).Leads t u ∧ StrandsWorker config u := by
  have hinv := h.step hstep
  have hlive := LockedPool.live hstep
  obtain ⟨w, hholder⟩ : ∃ w, s.holder = some (w, .blocking) := by
    by_contra hnone
    exact hclear fun w hw => hnone ⟨w, hw⟩
  cases LockedPool.step_moves hstep with
  | notifyAll =>
      have hlate : Late w { s with
          pool := { s.pool with workers := LockedPool.wakeAll s.pool.workers }
          notifiedAll := true } :=
        ⟨hinv, hlive, rfl, hholder, waiting_notMem_wakeAll _⟩
      obtain ⟨a, hdeliver, ha, hdelivered⟩ := hlate.deliver
      obtain ⟨b, hblock, hb⟩ := ha.block hdelivered
      obtain ⟨c, hdrain, hc, halone⟩ := hb.drain
      obtain ⟨u, hsettle, hu⟩ := hc.strands halone
      exact ⟨u, hdeliver.trans (hblock.trans (hdrain.trans hsettle)), hu⟩

/-- When nobody sleeps the holder of the lock returns, and then everybody else. -/
theorem NobodySleeps.joins
    (config : PoolConfig)
    {s : LockedPool}
    (hsleeps : NobodySleeps s)
    (h : LockInv s)
    (hlive : s.pool.ended = false) :
    ∃ t, (LockedPool.system config).Leads s t ∧ AllReturned t := by
  have hcount : ∀ w, (s.pool.workers.eraseIdx w).count .waiting = 0 := fun w =>
    List.count_eq_zero.mpr fun hmem => hsleeps.awake (List.mem_of_mem_eraseIdx hmem)
  -- the lock is free, or the holder is at `if (_isStop)`
  have hfree : ∀ t : LockedPool, (LockedPool.system config).Leads s t →
      Draining 0 s.pool.notifying t →
      ∃ u, (LockedPool.system config).Leads s u ∧ AllReturned u := by
    intro t hleads ht
    obtain ⟨a, hdrain, ha, hgone⟩ := ht.drain
    obtain ⟨u, hsettle, hu⟩ := ha.joins hgone
    exact ⟨u, hleads.trans (hdrain.trans hsettle), hu⟩
  have hleaves : ∀ (t : LockedPool) (w : Nat), (LockedPool.system config).Leads s t →
      t = { s with holder := some (w, .leaving) } →
      ∃ u, (LockedPool.system config).Leads s u ∧ AllReturned u := by
    rintro t w hleads rfl
    have hleave : LockedPool.step config { s with holder := some (w, .leaving) } .advance =
        some { s with pool := LockedPool.leave s.pool w, holder := none } := by
      simp [LockedPool.step, LockedPool.advance, hlive, hsleeps.stopped]
    have hall := hleads.trans (LockedPool.leads_head hleave (.refl _))
    exact hfree _ hall ⟨h.leads hall, hlive, hsleeps.notified, rfl, hcount w, rfl⟩
  cases hholder : s.holder with
  | none =>
      exact hfree s (.refl s)
        ⟨h, hlive, hsleeps.notified, hholder, List.count_eq_zero.mpr hsleeps.awake, rfl⟩
  | some held =>
      obtain ⟨w, point⟩ := held
      cases point with
      | testing =>
          have hthrough : LockedPool.step config s .advance =
              some { s with holder := some (w, .leaving) } := by
            simp [LockedPool.step, LockedPool.advance, hlive, hholder, hsleeps.stopped]
          exact hleaves _ w (LockedPool.leads_head hthrough (.refl _)) rfl
      | blocking => exact absurd hholder (hsleeps.past w)
      | leaving => exact hleaves s w (.refl s) (by rw [← hholder])

end Core
end ZeroRPC
