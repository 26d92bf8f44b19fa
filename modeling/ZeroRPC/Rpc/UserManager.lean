import Mathlib.Data.List.AList
import ZeroRPC.Core.ConnectionTables
import ZeroRPC.Rpc.Handler

/-!
# The users of the server

`Rpc_Server` keeps a user for each descriptor.  The accepting thread creates it once the
descriptor is watched and its channel registered; every message of a channel updates the
heartbeat of the user; `close_connection` calls `remove_user` after `close(fd)`; and a
sweep asks `check_invalid_user` for the descriptors of inactive users and closes them one
after another.  The lock of the store covers single calls, so the steps here are these
calls and the parts of `close_connection`, in any order that each thread allows.

`update_heartbeat` and `check_invalid_user` go through whatever pointer the store has.
Readings of the clock come with the events, and are not assumed to be monotone.  A
descriptor number that is not open may be the next one accepted.

Main facts:
* `RpcUserManager.updateHeartbeat_answers`: on a store without null pointers a message is
  answered only for a descriptor with a user;
* `RpcUserManager.checkInvalidUser_mem`: only inactive users are returned;
* `ServerState.step_cases`: the steps one by one, with what allows each.
-/

namespace ZeroRPC
namespace Rpc

open Library ZeroRPC.Core

/-- In seconds. -/
def HEARTBEAT_TIMEOUT : Int := 15

/-- A user, with the number of the connection it was created for. -/
structure RpcUser where
  fd : Nat
  connection : Nat
  lastUpdateTime : Int

namespace RpcUser

/-- `now` is what the clock reads, in nanoseconds. -/
def updateHeartbeat (user : RpcUser) (now : Int) : RpcUser :=
  { user with lastUpdateTime := now }

def isActive (user : RpcUser) (now : Int) : Bool :=
  now - user.lastUpdateTime ≤ HEARTBEAT_TIMEOUT * 1000000000

end RpcUser

/-- `_user_store`, where `none` is the null pointer, and the fault of the last call. -/
structure RpcUserManager where
  userStore : AList fun _ : Nat => Option RpcUser
  ended : Option Serial.Fault

namespace RpcUserManager

def init : RpcUserManager where
  userStore := ∅
  ended := none

def createUser (m : RpcUserManager) (fd connection : Nat) (now : Int) : RpcUserManager :=
  let user : RpcUser := { fd := fd, connection := connection, lastUpdateTime := now }
  { m with userStore := m.userStore.insert fd (some (user.updateHeartbeat now)) }

/-- `_user_store[fd]` inserts a null pointer for a descriptor without a user. -/
def updateHeartbeat (m : RpcUserManager) (fd : Nat) (now : Int) : RpcUserManager :=
  match m.userStore.lookup fd with
  | some (some user) =>
      { m with userStore := m.userStore.insert fd (some (user.updateHeartbeat now)) }
  | _ => { userStore := m.userStore.insert fd none, ended := some .nullPointer }

/-- The loop of `check_invalid_user`.  `now fd` is what the clock reads when it is at
`fd`; a descriptor is returned with the connection of its user. -/
def inactiveUsers (now : Nat → Int) :
    List (Σ _ : Nat, Option RpcUser) → Except Serial.Fault (List (Nat × Nat))
  | [] => .ok []
  | ⟨_, none⟩ :: _ => .error .nullPointer
  | ⟨fd, some user⟩ :: entries =>
      match inactiveUsers now entries with
      | .error fault => .error fault
      | .ok ret =>
          if user.isActive (now fd) then .ok ret else .ok ((fd, user.connection) :: ret)

def checkInvalidUser (m : RpcUserManager) (now : Nat → Int) :
    Except Serial.Fault (List (Nat × Nat)) :=
  inactiveUsers now m.userStore.entries

def removeUser (m : RpcUserManager) (fd : Nat) : RpcUserManager :=
  if fd ∈ m.userStore.keys then
    { m with userStore := m.userStore.erase fd }
  else
    m

/-- The server that a message callback sees. -/
def server (m : RpcUserManager) (manager : HandlerManager) : RpcServer where
  manager := manager
  users := m.userStore.keys.map fun fd => (fd : Int)

end RpcUserManager

/-- How far `handle_new_connections` is with a descriptor and its connection. -/
inductive Accepting
  | idle
  | added (fd connection : Nat)
  | registered (fd connection : Nat)

/-- A worker in `close_connection`, before or after `close(fd)`. -/
structure Closer where
  fd : Nat
  connection : Nat
  closed : Bool

/-- A `create_user` or `remove_user` for a descriptor on account of a connection. -/
inductive UserCall
  | create (fd connection : Nat)
  | remove (fd connection : Nat)
deriving DecidableEq

/-- The server and its workers.  `readers` are the `read_data` tasks with the connection
of their channel, `judged` the descriptors that sweeps have still to close, with the
connection of the user found inactive.  For the statements only: `swept` pairs that
connection with the one the sweep closed, and `calls` are the calls so far, last first. -/
structure ServerState where
  tcp : TcpServer
  users : RpcUserManager
  accepting : Accepting
  readers : List (Nat × Nat)
  closers : List Closer
  judged : List (Nat × Nat)
  swept : List (Nat × Nat)
  calls : List UserCall

inductive ServerEvent
  | accept (fd : Nat)
  | register
  | createUser (now : Int)
  | startRead (fd : Nat)
  | readNull (fd : Nat)
  | message (i : Nat) (now : Int)
  | endRead (i : Nat)
  | close (fd : Nat)
  | sweepClose (i : Nat)
  | closeFd (i : Nat)
  | removeUser (i : Nat)
  | check (now : Nat → Int)

namespace ServerState

def init (reactors : Nat) : ServerState where
  tcp := TcpServer.init reactors
  users := RpcUserManager.init
  accepting := .idle
  readers := []
  closers := []
  judged := []
  swept := []
  calls := []

/-- `close_connection(fd)` up to `close(fd)`; a sweep gives the connection it judged. -/
def startClose (s : ServerState) (fd : Nat) (judged : Option Nat) : ServerState :=
  let tcp := s.tcp.unregister fd
  match s.tcp.connection fd with
  | none => { s with tcp := tcp }
  | some connection =>
      if tcp.ended = none then
        { s with
          tcp := tcp
          closers := ⟨fd, connection, false⟩ :: s.closers
          swept := (judged.map fun user => (user, connection)).toList ++ s.swept }
      else
        { s with tcp := tcp }

def step (s : ServerState) (e : ServerEvent) : Option ServerState :=
  if s.tcp.ended = none ∧ s.users.ended = none then
    match e with
    | .accept fd =>
        match s.accepting, s.tcp.connection fd with
        | .idle, none =>
            let tcp := s.tcp.addFd fd
            if tcp.ended = none then
              some { s with tcp := tcp, accepting := .added fd s.tcp.accepted }
            else
              some { s with tcp := tcp }
        | _, _ => none
    | .register =>
        match s.accepting with
        | .added fd connection =>
            some { s with
              tcp := s.tcp.register fd connection
              accepting := .registered fd connection }
        | _ => none
    | .createUser now =>
        match s.accepting with
        | .registered fd connection =>
            some { s with
              users := s.users.createUser fd connection now
              accepting := .idle
              calls := .create fd connection :: s.calls }
        | _ => none
    | .startRead fd =>
        match s.tcp.lookup fd with
        | (some connection, tcp) =>
            some { s with tcp := tcp, readers := (fd, connection) :: s.readers }
        -- a task without a channel closes the connection, or reads and uses the null pointer
        | (none, tcp) => some { s with tcp := tcp }
    | .readNull fd =>
        match s.tcp.connection fd, s.tcp.lookup fd with
        | some _, (none, tcp) => some { s with tcp := tcp.fail .undefined }
        | _, _ => none
    | .message i now =>
        match s.readers[i]? with
        | some (fd, _) => some { s with users := s.users.updateHeartbeat fd now }
        | none => none
    | .endRead i => some { s with readers := s.readers.eraseIdx i }
    | .close fd => some (s.startClose fd none)
    | .sweepClose i =>
        match s.judged[i]? with
        | some (fd, connection) =>
            some { s.startClose fd (some connection) with judged := s.judged.eraseIdx i }
        | none => none
    | .closeFd i =>
        match s.closers[i]? with
        | some ⟨fd, connection, false⟩ =>
            some { s with
              tcp := s.tcp.closeFd fd
              closers := s.closers.set i ⟨fd, connection, true⟩ }
        | _ => none
    | .removeUser i =>
        match s.closers[i]? with
        | some ⟨fd, connection, true⟩ =>
            some { s with
              users := s.users.removeUser fd
              closers := s.closers.eraseIdx i
              calls := .remove fd connection :: s.calls }
        | _ => none
    | .check now =>
        match s.users.checkInvalidUser now with
        | .ok ret => some { s with judged := s.judged ++ ret }
        | .error fault => some { s with users := { s.users with ended := some fault } }
  else
    none

def system (reactors : Nat) : System ServerState ServerEvent where
  init := init reactors
  step := step

end ServerState

/-! ### The store -/

namespace RpcUserManager

variable {m : RpcUserManager} {fd : Nat}

/-- No pointer in the store is null. -/
def NotNull (m : RpcUserManager) : Prop :=
  ∀ fd, m.userStore.lookup fd ≠ some none

theorem createUser_lookup
    (connection other : Nat)
    (now : Int) :
    (m.createUser fd connection now).userStore.lookup other =
      if other = fd then
        some (some { fd := fd, connection := connection, lastUpdateTime := now })
      else
        m.userStore.lookup other := by
  by_cases hother : other = fd
  · rw [if_pos hother, hother]
    exact AList.lookup_insert _
  · rw [if_neg hother]
    exact AList.lookup_insert_ne hother

theorem updateHeartbeat_user
    {user : RpcUser}
    (h : m.userStore.lookup fd = some (some user))
    (now : Int) :
    m.updateHeartbeat fd now =
      { m with userStore := m.userStore.insert fd (some (user.updateHeartbeat now)) } := by
  rw [updateHeartbeat, h]

theorem updateHeartbeat_absent
    (h : ∀ user, m.userStore.lookup fd ≠ some (some user))
    (now : Int) :
    (m.updateHeartbeat fd now).ended = some .nullPointer := by
  unfold updateHeartbeat
  split
  · next user hlookup => exact absurd hlookup (h user)
  · rfl

theorem removeUser_lookup
    (other : Nat) :
    (m.removeUser fd).userStore.lookup other =
      if other = fd then none else m.userStore.lookup other := by
  rw [removeUser]
  split
  · next hmem =>
      by_cases hother : other = fd
      · rw [if_pos hother, hother]
        exact AList.lookup_erase fd _
      · rw [if_neg hother]
        exact AList.lookup_erase_ne hother
  · next hmem =>
      by_cases hother : other = fd
      · rw [if_pos hother, hother]
        exact AList.lookup_eq_none.mpr hmem
      · rw [if_neg hother]

theorem removeUser_ended : (m.removeUser fd).ended = m.ended := by
  rw [removeUser]
  split <;> rfl

/-- The loop reads every pointer. -/
theorem inactiveUsers_ok
    {now : Nat → Int}
    {entries : List (Σ _ : Nat, Option RpcUser)}
    (h : ∀ entry ∈ entries, entry.2 ≠ none) :
    ∃ ret, inactiveUsers now entries = .ok ret := by
  induction entries with
  | nil => exact ⟨[], rfl⟩
  | cons entry entries ih =>
      obtain ⟨fd, user⟩ := entry
      obtain ⟨ret, hret⟩ := ih fun other hmem => h other (List.mem_cons_of_mem _ hmem)
      cases user with
      | none => exact absurd rfl (h ⟨fd, none⟩ List.mem_cons_self)
      | some user =>
          rw [inactiveUsers, hret]
          simp only
          split
          · exact ⟨_, rfl⟩
          · exact ⟨_, rfl⟩

/-- What is returned is a descriptor with an inactive user. -/
theorem inactiveUsers_mem
    {now : Nat → Int}
    {entries : List (Σ _ : Nat, Option RpcUser)}
    {ret : List (Nat × Nat)}
    {connection : Nat}
    (h : inactiveUsers now entries = .ok ret)
    (hmem : (fd, connection) ∈ ret) :
    ∃ user : RpcUser, ⟨fd, some user⟩ ∈ entries ∧ user.connection = connection ∧
      user.isActive (now fd) = false := by
  induction entries generalizing ret with
  | nil =>
      cases h
      cases hmem
  | cons entry entries ih =>
      obtain ⟨other, pointer⟩ := entry
      cases pointer with
      | none => cases h
      | some user =>
          cases hrest : inactiveUsers now entries with
          | error fault =>
              rw [inactiveUsers, hrest] at h
              cases h
          | ok rest =>
              rw [inactiveUsers, hrest] at h
              simp only at h
              by_cases hactive : user.isActive (now other)
              · rw [if_pos hactive] at h
                cases h
                obtain ⟨found, hfound, hrefl⟩ := ih hrest hmem
                exact ⟨found, List.mem_cons_of_mem _ hfound, hrefl⟩
              · rw [if_neg hactive] at h
                cases h
                rcases List.mem_cons.mp hmem with heq | hmem
                · cases heq
                  exact ⟨user, List.mem_cons_self, rfl, Bool.eq_false_of_not_eq_true hactive⟩
                · obtain ⟨found, hfound, hrefl⟩ := ih hrest hmem
                  exact ⟨found, List.mem_cons_of_mem _ hfound, hrefl⟩

theorem checkInvalidUser_ok
    (h : m.NotNull)
    (now : Nat → Int) :
    ∃ ret, m.checkInvalidUser now = .ok ret := by
  refine inactiveUsers_ok fun entry hmem hnull => h entry.1 ?_
  obtain ⟨fd, pointer⟩ := entry
  rw [← hnull]
  exact AList.mem_lookup_iff.mpr hmem

theorem checkInvalidUser_mem
    {now : Nat → Int}
    {ret : List (Nat × Nat)}
    {connection : Nat}
    (h : m.checkInvalidUser now = .ok ret)
    (hmem : (fd, connection) ∈ ret) :
    ∃ user : RpcUser, m.userStore.lookup fd = some (some user) ∧
      user.connection = connection ∧ user.isActive (now fd) = false := by
  obtain ⟨user, hentry, hrest⟩ := inactiveUsers_mem h hmem
  exact ⟨user, AList.mem_lookup_iff.mpr hentry, hrest⟩

/-- On a store without null pointers the callback of a message finds its user exactly
when `update_heartbeat` does. -/
theorem updateHeartbeat_answers
    (manager : HandlerManager)
    (now : Int)
    (h : m.NotNull)
    (hrunning : m.ended = none) :
    (m.updateHeartbeat fd now).ended = none ↔
      (m.server manager).updateHeartbeat fd = .ok () := by
  have husers : (fd : Int) ∈ (m.server manager).users ↔ fd ∈ m.userStore.keys := by
    simp [server]
  rw [RpcServer.updateHeartbeat]
  cases hlookup : m.userStore.lookup fd with
  | none =>
      have hnot : fd ∉ m.userStore.keys := AList.lookup_eq_none.mp hlookup
      have habsent : ∀ user, m.userStore.lookup fd ≠ some (some user) := by simp [hlookup]
      have hfails := updateHeartbeat_absent habsent now
      rw [if_neg (mt husers.mp hnot), hfails]
      simp
  | some pointer =>
      cases pointer with
      | none => exact absurd hlookup (h fd)
      | some user =>
          have hmem : fd ∈ m.userStore.keys :=
            AList.lookup_isSome.mp (by rw [hlookup]; rfl)
          rw [if_pos (husers.mpr hmem), updateHeartbeat_user hlookup]
          simp [hrunning]

end RpcUserManager

/-! ### The steps -/

/-- The steps one by one, with what allows each. -/
inductive Steps (s : ServerState) : ServerEvent → ServerState → Prop
  | accept {fd : Nat}
      (hidle : s.accepting = .idle)
      (hfree : s.tcp.connection fd = none)
      (hadd : (s.tcp.addFd fd).ended = none) :
      Steps s (.accept fd)
        { s with tcp := s.tcp.addFd fd, accepting := .added fd s.tcp.accepted }
  | acceptFails {fd : Nat}
      (hadd : (s.tcp.addFd fd).ended ≠ none) :
      Steps s (.accept fd) { s with tcp := s.tcp.addFd fd }
  | register {fd connection : Nat}
      (hadded : s.accepting = .added fd connection) :
      Steps s .register
        { s with
          tcp := s.tcp.register fd connection
          accepting := .registered fd connection }
  | createUser {fd connection : Nat} {now : Int}
      (hregistered : s.accepting = .registered fd connection) :
      Steps s (.createUser now)
        { s with
          users := s.users.createUser fd connection now
          accepting := .idle
          calls := .create fd connection :: s.calls }
  | startRead {fd connection : Nat} {tcp : TcpServer}
      (hlookup : s.tcp.lookup fd = (some connection, tcp)) :
      Steps s (.startRead fd) { s with tcp := tcp, readers := (fd, connection) :: s.readers }
  | startReadNull {fd : Nat} {tcp : TcpServer}
      (hlookup : s.tcp.lookup fd = (none, tcp)) :
      Steps s (.startRead fd) { s with tcp := tcp }
  | readNull {fd : Nat} {tcp : TcpServer}
      (hlookup : s.tcp.lookup fd = (none, tcp)) :
      Steps s (.readNull fd) { s with tcp := tcp.fail .undefined }
  | message {i fd connection : Nat} {now : Int}
      (hreader : s.readers[i]? = some (fd, connection)) :
      Steps s (.message i now) { s with users := s.users.updateHeartbeat fd now }
  | endRead {i : Nat} :
      Steps s (.endRead i) { s with readers := s.readers.eraseIdx i }
  | close {fd : Nat} :
      Steps s (.close fd) (s.startClose fd none)
  | sweepClose {i fd connection : Nat}
      (hjudged : s.judged[i]? = some (fd, connection)) :
      Steps s (.sweepClose i)
        { s.startClose fd (some connection) with judged := s.judged.eraseIdx i }
  | closeFd {i fd connection : Nat}
      (hcloser : s.closers[i]? = some ⟨fd, connection, false⟩) :
      Steps s (.closeFd i)
        { s with
          tcp := s.tcp.closeFd fd
          closers := s.closers.set i ⟨fd, connection, true⟩ }
  | removeUser {i fd connection : Nat}
      (hcloser : s.closers[i]? = some ⟨fd, connection, true⟩) :
      Steps s (.removeUser i)
        { s with
          users := s.users.removeUser fd
          closers := s.closers.eraseIdx i
          calls := .remove fd connection :: s.calls }
  | check {now : Nat → Int} {ret : List (Nat × Nat)}
      (hret : s.users.checkInvalidUser now = .ok ret) :
      Steps s (.check now) { s with judged := s.judged ++ ret }
  | checkFails {now : Nat → Int} {fault : Serial.Fault}
      (hret : s.users.checkInvalidUser now = .error fault) :
      Steps s (.check now) { s with users := { s.users with ended := some fault } }

namespace ServerState

variable {s t : ServerState} {e : ServerEvent} {fd : Nat}

theorem step_cases
    (h : s.step e = some t) :
    s.tcp.ended = none ∧ s.users.ended = none ∧ Steps s e t := by
  unfold step at h
  rw [Option.ite_none_right_eq_some] at h
  obtain ⟨⟨htcp, husers⟩, h⟩ := h
  refine ⟨htcp, husers, ?_⟩
  cases e with
  | accept fd =>
      simp only at h
      split at h
      · next hidle hfree =>
          split at h
          · next hadd =>
              cases h
              exact .accept hidle hfree hadd
          · next hadd =>
              cases h
              exact .acceptFails hadd
      · cases h
  | register =>
      simp only at h
      split at h
      · next hadded =>
          cases h
          exact .register hadded
      · cases h
  | createUser now =>
      simp only at h
      split at h
      · next hregistered =>
          cases h
          exact .createUser hregistered
      · cases h
  | startRead fd =>
      simp only at h
      split at h
      · next hlookup =>
          cases h
          exact .startRead hlookup
      · next hlookup =>
          cases h
          exact .startReadNull hlookup
  | readNull fd =>
      simp only at h
      split at h
      · next hlookup =>
          cases h
          exact .readNull hlookup
      · cases h
  | message i now =>
      simp only at h
      split at h
      · next hreader =>
          cases h
          exact .message hreader
      · cases h
  | endRead i =>
      cases h
      exact .endRead
  | close fd =>
      cases h
      exact .close
  | sweepClose i =>
      simp only at h
      split at h
      · next hjudged =>
          cases h
          exact .sweepClose hjudged
      · cases h
  | closeFd i =>
      simp only at h
      split at h
      · next hcloser =>
          cases h
          exact .closeFd hcloser
      · cases h
  | removeUser i =>
      simp only at h
      split at h
      · next hcloser =>
          cases h
          exact .removeUser hcloser
      · cases h
  | check now =>
      simp only at h
      split at h
      · next hret =>
          cases h
          exact .check hret
      · next hret =>
          cases h
          exact .checkFails hret

/-- `close_connection` goes on only for an open descriptor; otherwise it throws. -/
theorem startClose_cases
    (s : ServerState)
    (fd : Nat)
    (judged : Option Nat) :
    s.startClose fd judged = { s with tcp := s.tcp.unregister fd } ∨
      ∃ connection, s.tcp.connection fd = some connection ∧
        s.startClose fd judged =
          { s with
            tcp := s.tcp.unregister fd
            closers := ⟨fd, connection, false⟩ :: s.closers
            swept := (judged.map fun user => (user, connection)).toList ++ s.swept } := by
  unfold startClose
  cases hopen : s.tcp.connection fd with
  | none => exact .inl rfl
  | some connection =>
      simp only
      split
      · exact .inr ⟨connection, rfl, rfl⟩
      · exact .inl rfl

theorem startClose_connection
    {judged : Option Nat} :
    (s.startClose fd judged).tcp.connection = s.tcp.connection := by
  have hconnection := s.tcp.unregister_connection fd
  rcases s.startClose_cases fd judged with heq | ⟨connection, -, heq⟩
  · rw [heq]
    exact hconnection
  · rw [heq]
    exact hconnection

end ServerState

end Rpc
end ZeroRPC
