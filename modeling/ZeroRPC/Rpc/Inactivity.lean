import ZeroRPC.Library.Since
import ZeroRPC.Rpc.UserManager

/-!
# Who is inactive

The calls of the store one after another, each with what the clock reads.  A descriptor is
registered when it was created and not removed since, and its period starts with the last
`create_user` or `update_heartbeat`.  A check reads the clock once for each user; a check at
one time `t` is one whose readings are all `t`.  Readings need not be monotone.

Main facts:
* `Recorded`: what the store has of a history;
* `Recorded.apply`: one call keeps it, one case a call;
* `inactivity_detected`: a check returns the registered descriptors whose period is over,
  once each.
-/

namespace ZeroRPC
namespace Rpc

open Library

inductive UserOp
  | createUser (fd connection : Nat) (now : Int)
  | updateHeartbeat (fd : Nat) (now : Int)
  | removeUser (fd : Nat)
  | checkInvalidUser (now : Nat → Int)

namespace UserOp

/-- The call starts a period of the descriptor at a time. -/
def StartsAt (fd : Nat) (t : Int) : UserOp → Prop
  | .createUser other _ now => other = fd ∧ now = t
  | .updateHeartbeat other now => other = fd ∧ now = t
  | _ => False

def Starts (fd : Nat) (op : UserOp) : Prop := ∃ t, op.StartsAt fd t

def Creates (fd : Nat) : UserOp → Prop
  | .createUser other _ _ => other = fd
  | _ => False

def Removes (fd : Nat) : UserOp → Prop
  | .removeUser other => other = fd
  | _ => False

end UserOp

namespace RpcUserManager

/-- What a call leaves. -/
def apply (m : RpcUserManager) : UserOp → RpcUserManager
  | .createUser fd connection now => m.createUser fd connection now
  | .updateHeartbeat fd now => m.updateHeartbeat fd now
  | .removeUser fd => m.removeUser fd
  | .checkInvalidUser now =>
      match m.checkInvalidUser now with
      | .ok _ => m
      | .error fault => { m with ended := some fault }

def after (ops : List UserOp) : RpcUserManager := ops.foldl apply init

@[simp]
theorem after_concat
    (ops : List UserOp)
    (op : UserOp) :
    after (ops ++ [op]) = (after ops).apply op := by
  rw [after, List.foldl_append]
  rfl

end RpcUserManager

/-- Created and not removed since. -/
def Registered (ops : List UserOp) (fd : Nat) : Prop :=
  Since (UserOp.Creates fd) (UserOp.Removes fd) ops

/-- The last `create_user` or `update_heartbeat` was at `t`. -/
def LastSeen (ops : List UserOp) (fd : Nat) (t : Int) : Prop :=
  Since (UserOp.StartsAt fd t) (UserOp.Starts fd) ops

/-- Every `update_heartbeat` is for a registered descriptor. -/
def UpdatesRegistered (ops : List UserOp) : Prop :=
  ∀ before fd now rest, ops = before ++ .updateHeartbeat fd now :: rest → Registered before fd

/-! ### Histories -/

section Histories

variable {ops : List UserOp} {op : UserOp} {fd : Nat} {t : Int}

theorem registered_concat :
    Registered (ops ++ [op]) fd ↔ op.Creates fd ∨ (¬ op.Removes fd ∧ Registered ops fd) :=
  since_concat

theorem lastSeen_concat :
    LastSeen (ops ++ [op]) fd t ↔ op.StartsAt fd t ∨ (¬ op.Starts fd ∧ LastSeen ops fd t) :=
  since_concat

theorem UserOp.Creates.starts
    (h : op.Creates fd) :
    op.Starts fd := by
  cases op with
  | createUser other connection now => exact ⟨now, h, rfl⟩
  | updateHeartbeat other now => cases h
  | removeUser other => cases h
  | checkInvalidUser now => cases h

theorem LastSeen.unique
    {u : Int}
    (h : LastSeen ops fd t)
    (h' : LastSeen ops fd u) :
    t = u := by
  obtain ⟨e, ht, hu⟩ := Since.meet (fun _ hp => ⟨t, hp⟩) (fun _ hp => ⟨u, hp⟩) h h'
  cases e with
  | createUser other connection now => exact ht.2.symm.trans hu.2
  | updateHeartbeat other now => exact ht.2.symm.trans hu.2
  | removeUser other => cases ht
  | checkInvalidUser now => cases ht

theorem UpdatesRegistered.init_of_concat
    (h : UpdatesRegistered (ops ++ [op])) :
    UpdatesRegistered ops := by
  rintro before fd now rest rfl
  exact h before fd now (rest ++ [op]) (by simp)

/-- A call that is no update may come next. -/
theorem UpdatesRegistered.concat
    (h : UpdatesRegistered ops)
    (hop : ∀ fd now, op ≠ .updateHeartbeat fd now) :
    UpdatesRegistered (ops ++ [op]) := by
  intro before fd now rest heq
  rcases List.eq_nil_or_concat rest with rfl | ⟨rest, last, rfl⟩
  · obtain ⟨-, hsame⟩ := List.append_inj' heq rfl
    exact absurd (List.singleton_inj.mp hsame) (hop fd now)
  · rw [List.concat_eq_append] at heq
    have hassoc : ops ++ [op] = (before ++ .updateHeartbeat fd now :: rest) ++ [last] := by
      simpa using heq
    exact h before fd now rest (List.append_inj' hassoc rfl).1

theorem UpdatesRegistered.of_append
    {more : List UserOp}
    (h : UpdatesRegistered (ops ++ more)) :
    UpdatesRegistered ops := by
  rintro before fd now rest rfl
  exact h before fd now (rest ++ more) (by simp)

/-- An update of a registered descriptor may come next. -/
theorem UpdatesRegistered.concat_update
    {now : Int}
    (h : UpdatesRegistered ops)
    (hfd : Registered ops fd) :
    UpdatesRegistered (ops ++ [.updateHeartbeat fd now]) := by
  intro before other later rest heq
  rcases List.eq_nil_or_concat rest with rfl | ⟨rest, last, rfl⟩
  · obtain ⟨rfl, hsame⟩ := List.append_inj' heq rfl
    cases hsame
    exact hfd
  · rw [List.concat_eq_append] at heq
    have hassoc : ops ++ [.updateHeartbeat fd now] =
        (before ++ .updateHeartbeat other later :: rest) ++ [last] := by simpa using heq
    exact h before other later rest (List.append_inj' hassoc rfl).1

end Histories

/-! ### The invariant -/

/-- What the store has of a history: no null pointer, and a user for each registered
descriptor, last seen when the history says. -/
structure Recorded (ops : List UserOp) (m : RpcUserManager) : Prop where
  notNull : m.NotNull
  user : ∀ fd user, m.userStore.lookup fd = some (some user) →
    Registered ops fd ∧ LastSeen ops fd user.lastUpdateTime
  registered : ∀ fd, Registered ops fd → ∃ user, m.userStore.lookup fd = some (some user)

section Recorded

variable {ops : List UserOp} {m : RpcUserManager} {fd : Nat}

theorem recorded_init : Recorded [] RpcUserManager.init where
  notNull := by
    intro fd h
    cases h
  user := by
    intro fd user h
    cases h
  registered := by
    intro fd h
    exact absurd h not_since_nil

theorem Recorded.createUser
    (h : Recorded ops m)
    (connection : Nat)
    (now : Int) :
    Recorded (ops ++ [.createUser fd connection now]) (m.createUser fd connection now) where
  notNull := by
    intro other hnull
    rw [RpcUserManager.createUser_lookup] at hnull
    by_cases hother : other = fd
    · rw [if_pos hother] at hnull
      cases hnull
    · rw [if_neg hother] at hnull
      exact h.notNull other hnull
  user := by
    intro other user huser
    rw [RpcUserManager.createUser_lookup] at huser
    rw [registered_concat, lastSeen_concat]
    by_cases hother : other = fd
    · rw [if_pos hother] at huser
      cases huser
      exact ⟨.inl hother.symm, .inl ⟨hother.symm, rfl⟩⟩
    · rw [if_neg hother] at huser
      obtain ⟨hregistered, hseen⟩ := h.user other user huser
      refine ⟨.inr ⟨fun hremoves => hremoves, hregistered⟩, .inr ⟨?_, hseen⟩⟩
      rintro ⟨t, hsame, -⟩
      exact hother hsame.symm
  registered := by
    intro other hregistered
    rw [RpcUserManager.createUser_lookup]
    rcases registered_concat.mp hregistered with hcreates | ⟨-, hbefore⟩
    · exact ⟨_, if_pos hcreates.symm⟩
    · by_cases hother : other = fd
      · exact ⟨_, if_pos hother⟩
      · rw [if_neg hother]
        exact h.registered other hbefore

theorem Recorded.updateHeartbeat
    (h : Recorded ops m)
    (hfd : Registered ops fd)
    (now : Int) :
    Recorded (ops ++ [.updateHeartbeat fd now]) (m.updateHeartbeat fd now) := by
  obtain ⟨user, huser⟩ := h.registered fd hfd
  rw [RpcUserManager.updateHeartbeat_user huser]
  have hself : (m.userStore.insert fd (some (user.updateHeartbeat now))).lookup fd =
      some (some (user.updateHeartbeat now)) := AList.lookup_insert _
  have hothers : ∀ other, other ≠ fd →
      (m.userStore.insert fd (some (user.updateHeartbeat now))).lookup other =
        m.userStore.lookup other := fun other hother => AList.lookup_insert_ne hother
  constructor
  · intro other hnull
    by_cases hother : other = fd
    · subst hother
      rw [hself] at hnull
      cases hnull
    · rw [hothers other hother] at hnull
      exact h.notNull other hnull
  · intro other found hfound
    rw [registered_concat, lastSeen_concat]
    by_cases hother : other = fd
    · subst hother
      rw [hself] at hfound
      cases hfound
      exact ⟨.inr ⟨fun hremoves => hremoves, hfd⟩, .inl ⟨rfl, rfl⟩⟩
    · rw [hothers other hother] at hfound
      obtain ⟨hregistered, hseen⟩ := h.user other found hfound
      refine ⟨.inr ⟨fun hremoves => hremoves, hregistered⟩, .inr ⟨?_, hseen⟩⟩
      rintro ⟨t, hsame, -⟩
      exact hother hsame.symm
  · intro other hregistered
    rcases registered_concat.mp hregistered with hcreates | ⟨-, hbefore⟩
    · cases hcreates
    · by_cases hother : other = fd
      · subst hother
        exact ⟨_, hself⟩
      · rw [hothers other hother]
        exact h.registered other hbefore

theorem Recorded.removeUser
    (h : Recorded ops m) :
    Recorded (ops ++ [.removeUser fd]) (m.removeUser fd) where
  notNull := by
    intro other hnull
    rw [RpcUserManager.removeUser_lookup] at hnull
    by_cases hother : other = fd
    · rw [if_pos hother] at hnull
      cases hnull
    · rw [if_neg hother] at hnull
      exact h.notNull other hnull
  user := by
    intro other user huser
    rw [RpcUserManager.removeUser_lookup] at huser
    rw [registered_concat, lastSeen_concat]
    by_cases hother : other = fd
    · rw [if_pos hother] at huser
      cases huser
    · rw [if_neg hother] at huser
      obtain ⟨hregistered, hseen⟩ := h.user other user huser
      refine ⟨.inr ⟨fun hremoves => hother hremoves.symm, hregistered⟩, .inr ⟨?_, hseen⟩⟩
      rintro ⟨t, hnone⟩
      exact hnone
  registered := by
    intro other hregistered
    rw [RpcUserManager.removeUser_lookup]
    rcases registered_concat.mp hregistered with hcreates | ⟨hkept, hbefore⟩
    · cases hcreates
    · rw [if_neg fun hother => hkept (Eq.symm hother)]
      exact h.registered other hbefore

theorem Recorded.checkInvalidUser
    (h : Recorded ops m)
    (now : Nat → Int) :
    Recorded (ops ++ [.checkInvalidUser now]) (m.apply (.checkInvalidUser now)) := by
  obtain ⟨ret, hret⟩ := RpcUserManager.checkInvalidUser_ok h.notNull now
  have hsame : m.apply (.checkInvalidUser now) = m := by
    rw [RpcUserManager.apply, hret]
  rw [hsame]
  refine ⟨h.notNull, ?_, ?_⟩
  · intro fd user huser
    obtain ⟨hregistered, hseen⟩ := h.user fd user huser
    rw [registered_concat, lastSeen_concat]
    refine ⟨.inr ⟨fun hremoves => hremoves, hregistered⟩, .inr ⟨?_, hseen⟩⟩
    rintro ⟨t, hnone⟩
    exact hnone
  · intro fd hregistered
    rcases registered_concat.mp hregistered with hcreates | ⟨-, hbefore⟩
    · cases hcreates
    · exact h.registered fd hbefore

/-- **Every call records itself.** -/
theorem Recorded.apply
    {op : UserOp}
    (h : Recorded ops m)
    (hvalid : UpdatesRegistered (ops ++ [op])) :
    Recorded (ops ++ [op]) (m.apply op) := by
  cases op with
  | createUser fd connection now => exact h.createUser connection now
  | updateHeartbeat fd now => exact h.updateHeartbeat (hvalid ops fd now [] rfl) now
  | removeUser fd => exact h.removeUser
  | checkInvalidUser now => exact h.checkInvalidUser now

theorem recorded_after
    (hvalid : UpdatesRegistered ops) :
    Recorded ops (RpcUserManager.after ops) := by
  induction ops using List.reverseRecOn with
  | nil => exact recorded_init
  | append_singleton ops op ih =>
      rw [RpcUserManager.after_concat]
      exact (ih hvalid.init_of_concat).apply hvalid

end Recorded

/-! ### The check -/

namespace RpcUserManager

variable {m : RpcUserManager} {fd : Nat} {now : Nat → Int}
  {entries : List (Σ _ : Nat, Option RpcUser)} {ret : List (Nat × Nat)}

/-- What is returned is part of what the loop goes through, in its order. -/
theorem inactiveUsers_sublist
    (h : inactiveUsers now entries = .ok ret) :
    (ret.map Prod.fst).Sublist (entries.map Sigma.fst) := by
  induction entries generalizing ret with
  | nil =>
      cases h
      exact .slnil
  | cons entry entries ih =>
      obtain ⟨other, pointer⟩ := entry
      cases pointer with
      | none => cases h
      | some user =>
          cases hrest : inactiveUsers now entries with
          | error fault =>
              rw [inactiveUsers, hrest] at h
              cases h
          | ok rest =>
              rw [inactiveUsers, hrest] at h
              simp only at h
              by_cases hactive : user.isActive (now other)
              · rw [if_pos hactive] at h
                cases h
                exact (ih hrest).cons _
              · rw [if_neg hactive] at h
                cases h
                exact (ih hrest).cons_cons _

/-- Every inactive user is returned. -/
theorem mem_inactiveUsers
    {user : RpcUser}
    (h : inactiveUsers now entries = .ok ret)
    (hentry : ⟨fd, some user⟩ ∈ entries)
    (hinactive : user.isActive (now fd) = false) :
    fd ∈ ret.map Prod.fst := by
  induction entries generalizing ret with
  | nil => cases hentry
  | cons entry entries ih =>
      obtain ⟨other, pointer⟩ := entry
      cases pointer with
      | none => cases h
      | some found =>
          cases hrest : inactiveUsers now entries with
          | error fault =>
              rw [inactiveUsers, hrest] at h
              cases h
          | ok rest =>
              rw [inactiveUsers, hrest] at h
              simp only at h
              rcases List.mem_cons.mp hentry with heq | hentry
              · cases heq
                rw [hinactive] at h
                cases h
                exact List.mem_cons_self
              · have hmem := ih hrest hentry
                by_cases hactive : found.isActive (now other)
                · rw [if_pos hactive] at h
                  cases h
                  exact hmem
                · rw [if_neg hactive] at h
                  cases h
                  exact List.mem_cons_of_mem _ hmem

theorem checkInvalidUser_nodup
    (h : m.checkInvalidUser now = .ok ret) :
    (ret.map Prod.fst).Nodup :=
  (AList.keys_nodup m.userStore).sublist (inactiveUsers_sublist h)

/-- A descriptor is returned exactly when its user is inactive. -/
theorem mem_checkInvalidUser_iff
    (h : m.checkInvalidUser now = .ok ret) :
    fd ∈ ret.map Prod.fst ↔
      ∃ user, m.userStore.lookup fd = some (some user) ∧ user.isActive (now fd) = false := by
  constructor
  · intro hmem
    obtain ⟨⟨other, connection⟩, hentry, rfl⟩ := List.mem_map.mp hmem
    obtain ⟨user, hlookup, -, hinactive⟩ := checkInvalidUser_mem h hentry
    exact ⟨user, hlookup, hinactive⟩
  · rintro ⟨user, hlookup, hinactive⟩
    exact mem_inactiveUsers h (AList.mem_lookup_iff.mp hlookup) hinactive

end RpcUserManager

theorem RpcUser.isActive_eq_false
    {user : RpcUser}
    {now : Int} :
    user.isActive now = false ↔ user.lastUpdateTime + HEARTBEAT_TIMEOUT * 1000000000 < now := by
  rw [RpcUser.isActive, decide_eq_false_iff_not]
  omega

section Detection

variable {ops : List UserOp} {now : Nat → Int} {ret : List (Nat × Nat)}

theorem mem_inactive_iff
    (hvalid : UpdatesRegistered ops)
    (hret : (RpcUserManager.after ops).checkInvalidUser now = .ok ret)
    (fd : Nat) :
    fd ∈ ret.map Prod.fst ↔
      Registered ops fd ∧
        ∃ t, LastSeen ops fd t ∧ t + HEARTBEAT_TIMEOUT * 1000000000 < now fd := by
  have hrecorded := recorded_after hvalid
  rw [RpcUserManager.mem_checkInvalidUser_iff hret]
  constructor
  · rintro ⟨user, hlookup, hinactive⟩
    obtain ⟨hregistered, hseen⟩ := hrecorded.user fd user hlookup
    exact ⟨hregistered, user.lastUpdateTime, hseen, RpcUser.isActive_eq_false.mp hinactive⟩
  · rintro ⟨hregistered, t, hseen, hover⟩
    obtain ⟨user, hlookup⟩ := hrecorded.registered fd hregistered
    obtain ⟨-, hseen'⟩ := hrecorded.user fd user hlookup
    refine ⟨user, hlookup, RpcUser.isActive_eq_false.mpr ?_⟩
    rwa [hseen'.unique hseen]

/-- A descriptor that has just been created, whatever it was before. -/
theorem mem_inactive_created_iff
    {fd connection : Nat}
    {t : Int}
    (hvalid : UpdatesRegistered ops)
    (hret : (RpcUserManager.after (ops ++ [.createUser fd connection t])).checkInvalidUser now =
      .ok ret) :
    fd ∈ ret.map Prod.fst ↔ t + HEARTBEAT_TIMEOUT * 1000000000 < now fd := by
  have hstarts : LastSeen (ops ++ [.createUser fd connection t]) fd t :=
    lastSeen_concat.mpr (.inl ⟨rfl, rfl⟩)
  have hcreated : Registered (ops ++ [.createUser fd connection t]) fd :=
    registered_concat.mpr (.inl rfl)
  have hnext : UpdatesRegistered (ops ++ [.createUser fd connection t]) :=
    hvalid.concat fun _ _ heq => by cases heq
  rw [mem_inactive_iff hnext hret]
  constructor
  · rintro ⟨-, u, hseen, hover⟩
    rwa [hstarts.unique hseen]
  · intro hover
    exact ⟨hcreated, t, hstarts, hover⟩

end Detection

/-- **A check returns each registered descriptor whose period is over, and no other, once;
a descriptor that is created again starts a fresh period.** -/
theorem inactivity_detected
    (ops : List UserOp)
    (hvalid : UpdatesRegistered ops)
    (now : Nat → Int) :
    (∃ ret, (RpcUserManager.after ops).checkInvalidUser now = .ok ret ∧
      (ret.map Prod.fst).Nodup ∧
      ∀ fd, fd ∈ ret.map Prod.fst ↔
        Registered ops fd ∧
          ∃ t, LastSeen ops fd t ∧ t + HEARTBEAT_TIMEOUT * 1000000000 < now fd) ∧
    ∀ fd connection t, ∃ ret,
      (RpcUserManager.after (ops ++ [.createUser fd connection t])).checkInvalidUser now =
        .ok ret ∧
      (fd ∈ ret.map Prod.fst ↔ t + HEARTBEAT_TIMEOUT * 1000000000 < now fd) := by
  constructor
  · obtain ⟨ret, hret⟩ :=
      RpcUserManager.checkInvalidUser_ok (recorded_after hvalid).notNull now
    exact ⟨ret, hret, RpcUserManager.checkInvalidUser_nodup hret, mem_inactive_iff hvalid hret⟩
  · intro fd connection t
    have hnext : UpdatesRegistered (ops ++ [.createUser fd connection t]) :=
      hvalid.concat fun _ _ heq => by cases heq
    obtain ⟨ret, hret⟩ :=
      RpcUserManager.checkInvalidUser_ok (recorded_after hnext).notNull now
    exact ⟨ret, hret, mem_inactive_created_iff hvalid hret⟩

/-- One descriptor is kept alive, the other is not. -/
def twoUsers : List UserOp :=
  [.createUser 3 0 0, .createUser 4 1 0, .updateHeartbeat 3 10000000000]

theorem twoUsers_valid : UpdatesRegistered twoUsers := by
  have hcreated : Registered [.createUser 3 0 0, .createUser 4 1 0] 3 :=
    ⟨[], .createUser 3 0 0, [.createUser 4 1 0], rfl, rfl, by simp [UserOp.Removes]⟩
  intro before fd now rest heq
  rcases before with _ | ⟨a, _ | ⟨b, _ | ⟨c, before⟩⟩⟩
  · cases heq
  · cases heq
  · cases heq
    exact hcreated
  · cases before <;> cases heq

theorem twoUsers_detected :
    ∃ ret, (RpcUserManager.after twoUsers).checkInvalidUser (fun _ => 20000000000) = .ok ret ∧
      (ret.map Prod.fst).Nodup := by
  obtain ⟨⟨ret, hret, hnodup, -⟩, -⟩ :=
    inactivity_detected twoUsers twoUsers_valid fun _ => 20000000000
  exact ⟨ret, hret, hnodup⟩

end Rpc
end ZeroRPC
