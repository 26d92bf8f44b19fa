import ZeroRPC.Rpc.UserManager

/-!
# Descriptors with a user

A message may be read as soon as a descriptor is watched and its channel registered,
which is before `create_user`; and a worker that still has messages of a channel may go on
after another one has closed the descriptor and removed the user.  `remove_user` looks
before it erases, but `update_heartbeat` does not look: it inserts a null pointer and goes
through it.

Main facts:
* `StoreFollows.step`: the users are those created and not removed since, as long as no
  message comes for any other descriptor;
* `users_present_iff`: the store is sound all along a run exactly when every message comes
  after a `create_user` with no `remove_user` since;
* `users_present_within_lifetime`: so it is when the messages of a connection come between
  its own two calls and no descriptor is accepted before its last user is removed.
-/

namespace ZeroRPC
namespace Rpc

open Library ZeroRPC.Core

/-- No pointer in the store is null, and no call went through one. -/
structure UsersPresent (s : ServerState) : Prop where
  notNull : s.users.NotNull
  running : s.users.ended = none

/-- `create_user(fd)` has been called, and `remove_user(fd)` not since; the last call
comes first. -/
def CreatedSince (fd : Nat) : List UserCall → Prop
  | [] => False
  | .create other _ :: calls => other = fd ∨ CreatedSince fd calls
  | .remove other _ :: calls => other ≠ fd ∧ CreatedSince fd calls

/-- A message comes after a `create_user` for its descriptor with no `remove_user` since. -/
def AfterCreateUser (s : ServerState) : ServerEvent → Prop
  | .message i _ =>
      ∀ fd connection, s.readers[i]? = some (fd, connection) → CreatedSince fd s.calls
  | _ => True

/-- A message comes between the two calls for its own connection; a descriptor is not
accepted while a worker has still to call `remove_user` for it. -/
def WithinLifetime (s : ServerState) : ServerEvent → Prop
  | .accept fd => ∀ closer ∈ s.closers, closer.fd ≠ fd
  | .message i _ =>
      ∀ fd connection, s.readers[i]? = some (fd, connection) →
        .create fd connection ∈ s.calls ∧ .remove fd connection ∉ s.calls
  | _ => True

/-- The users are those created and not removed since. -/
structure StoreFollows (s : ServerState) : Prop extends UsersPresent s where
  created : ∀ fd,
    CreatedSince fd s.calls ↔ ∃ user, s.users.userStore.lookup fd = some (some user)

namespace StoreFollows

variable {s t : ServerState} {e : ServerEvent}

theorem init (reactors : Nat) : StoreFollows (ServerState.init reactors) where
  notNull := by
    intro fd
    simp [ServerState.init, RpcUserManager.init]
  running := rfl
  created := by
    intro fd
    simp [ServerState.init, RpcUserManager.init, CreatedSince]

/-- What leaves the store and the calls alone. -/
theorem frame
    (h : StoreFollows s)
    (husers : t.users = s.users)
    (hcalls : t.calls = s.calls) :
    StoreFollows t := by
  constructor
  · constructor
    · rw [husers]
      exact h.notNull
    · rw [husers]
      exact h.running
  · rw [husers, hcalls]
    exact h.created

theorem startClose
    (h : StoreFollows s)
    (fd : Nat)
    (judged : Option Nat) :
    StoreFollows (s.startClose fd judged) := by
  rcases s.startClose_cases fd judged with heq | ⟨connection, -, heq⟩
  · rw [heq]
    exact h.frame rfl rfl
  · rw [heq]
    exact h.frame rfl rfl

theorem createUser
    {fd connection : Nat}
    {now : Int}
    {accepting : Accepting}
    (h : StoreFollows s) :
    StoreFollows { s with
      users := s.users.createUser fd connection now
      accepting := accepting
      calls := .create fd connection :: s.calls } := by
  constructor
  · constructor
    · intro other
      simp only [RpcUserManager.createUser_lookup]
      split
      · simp
      · exact h.notNull other
    · exact h.running
  · intro other
    simp only [RpcUserManager.createUser_lookup, CreatedSince]
    by_cases hother : other = fd
    · simp [hother]
    · have hne : fd ≠ other := fun heq => hother heq.symm
      simp only [if_neg hother, hne, false_or]
      exact h.created other

theorem removeUser
    {fd connection : Nat}
    {closers : List Closer}
    (h : StoreFollows s) :
    StoreFollows { s with
      users := s.users.removeUser fd
      closers := closers
      calls := .remove fd connection :: s.calls } := by
  constructor
  · constructor
    · intro other
      simp only [RpcUserManager.removeUser_lookup]
      split
      · simp
      · exact h.notNull other
    · exact RpcUserManager.removeUser_ended.trans h.running
  · intro other
    simp only [RpcUserManager.removeUser_lookup, CreatedSince]
    by_cases hother : other = fd
    · simp [hother]
    · have hne : fd ≠ other := fun heq => hother heq.symm
      simp only [if_neg hother, hne, ne_eq, not_false_eq_true, true_and]
      exact h.created other

/-- `update_heartbeat` for a user that is there. -/
theorem message
    {fd : Nat}
    {now : Int}
    (h : StoreFollows s)
    (hcreated : CreatedSince fd s.calls) :
    StoreFollows { s with users := s.users.updateHeartbeat fd now } := by
  obtain ⟨user, huser⟩ := (h.created fd).mp hcreated
  rw [RpcUserManager.updateHeartbeat_user huser]
  constructor
  · constructor
    · intro other
      by_cases hother : other = fd
      · rw [hother, AList.lookup_insert]
        simp
      · rw [AList.lookup_insert_ne hother]
        exact h.notNull other
    · exact h.running
  · intro other
    by_cases hother : other = fd
    · subst hother
      exact ⟨fun _ => ⟨_, AList.lookup_insert _⟩, fun _ => hcreated⟩
    · simp only [AList.lookup_insert_ne hother]
      exact h.created other

/-- **The store follows the calls.** -/
theorem step
    (h : StoreFollows s)
    (hok : AfterCreateUser s e)
    (hstep : s.step e = some t) :
    StoreFollows t := by
  obtain ⟨-, -, hcase⟩ := ServerState.step_cases hstep
  cases hcase with
  | accept => exact h.frame rfl rfl
  | acceptFails => exact h.frame rfl rfl
  | register => exact h.frame rfl rfl
  | createUser => exact h.createUser
  | startRead => exact h.frame rfl rfl
  | startReadNull => exact h.frame rfl rfl
  | readNull => exact h.frame rfl rfl
  | message hreader => exact h.message (hok _ _ hreader)
  | endRead => exact h.frame rfl rfl
  | close => exact h.startClose _ _
  | sweepClose => exact (h.startClose _ _).frame rfl rfl
  | closeFd => exact h.frame rfl rfl
  | removeUser => exact h.removeUser
  | check => exact h.frame rfl rfl
  | checkFails hret =>
      obtain ⟨ret, hok⟩ := RpcUserManager.checkInvalidUser_ok h.notNull _
      rw [hok] at hret
      cases hret

/-- A message for a descriptor without a user goes through a null pointer. -/
theorem of_message
    (h : StoreFollows s)
    (hstep : s.step e = some t)
    (hpresent : UsersPresent t) :
    AfterCreateUser s e := by
  cases e with
  | message i now =>
      intro fd connection hreader
      by_contra hcreated
      have habsent := mt (h.created fd).mpr hcreated
      push Not at habsent
      obtain ⟨-, -, hcase⟩ := ServerState.step_cases hstep
      cases hcase with
      | message hother =>
          rw [hreader] at hother
          cases hother
          have hfails := RpcUserManager.updateHeartbeat_absent habsent now
          have hrunning := hpresent.running
          simp only at hrunning
          rw [hfails] at hrunning
          cases hrunning
  | _ => trivial

end StoreFollows

/-- **When every user asked for is there.** -/
theorem users_present_iff
    (reactors : Nat)
    (events : List ServerEvent) :
    (ServerState.system reactors).Throughout UsersPresent (ServerState.init reactors) events ↔
      (ServerState.system reactors).Every AfterCreateUser (ServerState.init reactors) events := by
  refine System.throughout_iff_every (I := StoreFollows) (fun _ h => h.toUsersPresent) ?_ ?_
    (.init reactors) events
  · exact fun s e t h hok hstep => h.step hok hstep
  · exact fun s e t h hstep hpresent => h.of_message hstep hpresent

/-- A message is read between the registration of the channel and `create_user`. -/
theorem users_not_present :
    ¬ ∀ (reactors : Nat) (events : List ServerEvent), 0 < reactors →
      (ServerState.system reactors).Throughout UsersPresent (ServerState.init reactors) events := by
  intro h
  have hearly := h 2 [.accept 5, .register, .startRead 5, .message 0 0] (by decide)
  exact absurd hearly.2.2.2.2.running (by decide)

/-! ### Lifetimes of connections -/

/-- A connection has a descriptor until the worker that closes it has removed its user. -/
def Occupies (s : ServerState) (fd connection : Nat) : Prop :=
  s.tcp.connection fd = some connection ∨
    ∃ closer ∈ s.closers, closer.fd = fd ∧ closer.connection = connection

/-- The accepting thread is at a descriptor, before `create_user`. -/
def Accepts (s : ServerState) (fd connection : Nat) : Prop :=
  s.accepting = .added fd connection ∨ s.accepting = .registered fd connection

/-- A descriptor has one connection at a time; it is that of the user or the one being
accepted, unless it is over. -/
structure Lifetimes (s : ServerState) : Prop where
  unique : ∀ fd connection other,
    Occupies s fd connection → Occupies s fd other → connection = other
  accepting : ∀ fd connection,
    Accepts s fd connection → .remove fd connection ∉ s.calls → Occupies s fd connection
  created : ∀ fd connection,
    .create fd connection ∈ s.calls → .remove fd connection ∉ s.calls →
      Occupies s fd connection
  since : ∀ fd connection,
    .create fd connection ∈ s.calls → .remove fd connection ∉ s.calls → CreatedSince fd s.calls

namespace Lifetimes

variable {s t : ServerState} {e : ServerEvent}

theorem init (reactors : Nat) : Lifetimes (ServerState.init reactors) := by
  constructor <;>
    simp [ServerState.init, Core.TcpServer.init, Occupies, Accepts]

/-- What changes neither the calls nor who has a descriptor. -/
theorem frame
    (h : Lifetimes s)
    (hcalls : t.calls = s.calls)
    (haccepts : ∀ fd connection, Accepts t fd connection → Accepts s fd connection)
    (hoccupies : ∀ fd connection, Occupies t fd connection ↔ Occupies s fd connection) :
    Lifetimes t := by
  constructor
  · intro fd connection other hfirst hsecond
    rw [hoccupies] at hfirst hsecond
    exact h.unique fd connection other hfirst hsecond
  · intro fd connection haccept hremoved
    rw [hcalls] at hremoved
    rw [hoccupies]
    exact h.accepting fd connection (haccepts fd connection haccept) hremoved
  · intro fd connection hcreate hremoved
    rw [hcalls] at hcreate hremoved
    rw [hoccupies]
    exact h.created fd connection hcreate hremoved
  · rw [hcalls]
    exact h.since

/-- The descriptor accepted was nobody's. -/
theorem accept
    {fd : Nat}
    (h : Lifetimes s)
    (hfree : s.tcp.connection fd = none)
    (hadd : (s.tcp.addFd fd).ended = none)
    (hok : WithinLifetime s (.accept fd)) :
    Lifetimes { s with tcp := s.tcp.addFd fd, accepting := .added fd s.tcp.accepted } := by
  have hvacant : ∀ connection, ¬ Occupies s fd connection := by
    rintro connection (hopen | ⟨closer, hmem, hfd, -⟩)
    · rw [hfree] at hopen
      cases hopen
    · exact hok closer hmem hfd
  have hconnection := Core.TcpServer.addFd_connection hadd
  have hsame : ∀ other connection, other ≠ fd →
      (Occupies { s with tcp := s.tcp.addFd fd, accepting := .added fd s.tcp.accepted }
        other connection ↔ Occupies s other connection) := by
    intro other connection hother
    simp only [Occupies, hconnection, Function.update_of_ne hother]
  have hnew : ∀ connection,
      Occupies { s with tcp := s.tcp.addFd fd, accepting := .added fd s.tcp.accepted }
        fd connection ↔ connection = s.tcp.accepted := by
    intro connection
    constructor
    · rintro (hopen | hcloser)
      · simp only [hconnection, Function.update_self, Option.some.injEq] at hopen
        exact hopen.symm
      · exact absurd (.inr hcloser) (hvacant connection)
    · rintro rfl
      left
      simp only [hconnection, Function.update_self]
  constructor
  · intro other connection third hfirst hsecond
    by_cases hother : other = fd
    · subst hother
      rw [hnew] at hfirst hsecond
      exact hfirst.trans hsecond.symm
    · rw [hsame _ _ hother] at hfirst hsecond
      exact h.unique other connection third hfirst hsecond
  · rintro other connection (hadded | hregistered) -
    · cases hadded
      exact (hnew _).mpr rfl
    · cases hregistered
  · intro other connection hcreate hremoved
    have hold := h.created other connection hcreate hremoved
    by_cases hother : other = fd
    · subst hother
      exact absurd hold (hvacant connection)
    · exact (hsame _ _ hother).mpr hold
  · exact h.since

theorem createUser
    {fd connection : Nat}
    {users : RpcUserManager}
    (h : Lifetimes s)
    (hregistered : s.accepting = .registered fd connection) :
    Lifetimes { s with
      users := users
      accepting := .idle
      calls := .create fd connection :: s.calls } := by
  have hcreated : ∀ other third,
      UserCall.create other third ∈ UserCall.create fd connection :: s.calls →
        .remove other third ∉ s.calls → Occupies s other third := by
    intro other third hcreate hremoved
    rcases List.mem_cons.mp hcreate with heq | hcreate
    · cases heq
      exact h.accepting fd connection (.inr hregistered) hremoved
    · exact h.created other third hcreate hremoved
  have hkept : ∀ other third,
      .remove other third ∉ UserCall.create fd connection :: s.calls →
        .remove other third ∉ s.calls :=
    fun _ _ hremoved hmem => hremoved (List.mem_cons_of_mem _ hmem)
  constructor
  · exact h.unique
  · rintro other third (hadded | hregistered)
    · cases hadded
    · cases hregistered
  · intro other third hcreate hremoved
    exact hcreated other third hcreate (hkept other third hremoved)
  · intro other third hcreate hremoved
    rcases List.mem_cons.mp hcreate with heq | hcreate
    · cases heq
      exact .inl rfl
    · exact .inr (h.since other third hcreate (hkept other third hremoved))

/-- `close_connection` has begun for the connection of an open descriptor. -/
theorem startClose
    (h : Lifetimes s)
    (fd : Nat)
    (judged : Option Nat) :
    Lifetimes (s.startClose fd judged) := by
  have hconnection := s.tcp.unregister_connection fd
  rcases s.startClose_cases fd judged with heq | ⟨connection, hopen, heq⟩
  · rw [heq]
    refine h.frame rfl (fun _ _ => id) fun other third => ?_
    simp only [Occupies, hconnection]
  · rw [heq]
    refine h.frame rfl (fun _ _ => id) fun other third => ?_
    simp only [Occupies, hconnection]
    constructor
    · rintro (hother | ⟨closer, hmem, hfd, hthird⟩)
      · exact .inl hother
      · rcases List.mem_cons.mp hmem with rfl | hmem
        · subst hfd hthird
          exact .inl hopen
        · exact .inr ⟨closer, hmem, hfd, hthird⟩
    · rintro (hother | ⟨closer, hmem, hfd, hthird⟩)
      · exact .inl hother
      · exact .inr ⟨closer, List.mem_cons_of_mem _ hmem, hfd, hthird⟩

/-- After `close(fd)` the worker still has the descriptor. -/
theorem closeFd
    {i fd connection : Nat}
    (h : Lifetimes s)
    (hcloser : s.closers[i]? = some ⟨fd, connection, false⟩) :
    Lifetimes { s with
      tcp := s.tcp.closeFd fd
      closers := s.closers.set i ⟨fd, connection, true⟩ } := by
  have hmem : ⟨fd, connection, false⟩ ∈ s.closers := List.mem_of_getElem? hcloser
  have hi : i < s.closers.length := (List.getElem?_eq_some_iff.mp hcloser).1
  have hclosers : ∀ other third,
      (∃ closer ∈ s.closers.set i ⟨fd, connection, true⟩,
        closer.fd = other ∧ closer.connection = third) ↔
      ∃ closer ∈ s.closers, closer.fd = other ∧ closer.connection = third := by
    intro other third
    constructor
    · rintro ⟨closer, hset, hother, hthird⟩
      rcases List.mem_or_eq_of_mem_set hset with hold | rfl
      · exact ⟨closer, hold, hother, hthird⟩
      · exact ⟨_, hmem, hother, hthird⟩
    · rintro ⟨closer, hold, hother, hthird⟩
      obtain ⟨j, hj⟩ := List.mem_iff_getElem?.mp hold
      by_cases hij : i = j
      · subst hij
        rw [hcloser] at hj
        cases hj
        exact ⟨_, List.mem_set hi _, hother, hthird⟩
      · have hset : (s.closers.set i ⟨fd, connection, true⟩)[j]? = some closer :=
          (List.getElem?_set_ne hij).trans hj
        exact ⟨closer, List.mem_of_getElem? hset, hother, hthird⟩
  refine h.frame rfl (fun _ _ => id) fun other third => ?_
  simp only [Occupies, hclosers, Core.TcpServer.closeFd]
  by_cases hother : other = fd
  · subst hother
    rw [Function.update_self]
    constructor
    · rintro (hnone | hrest)
      · cases hnone
      · exact .inr hrest
    · intro hold
      have hsame := h.unique other connection third (.inr ⟨_, hmem, rfl, rfl⟩) hold
      exact .inr ⟨_, hmem, rfl, hsame⟩
  · rw [Function.update_of_ne hother]

/-- The connection is over. -/
theorem removeUser
    {i fd connection : Nat}
    {users : RpcUserManager}
    (h : Lifetimes s)
    (hcloser : s.closers[i]? = some ⟨fd, connection, true⟩) :
    Lifetimes { s with
      users := users
      closers := s.closers.eraseIdx i
      calls := .remove fd connection :: s.calls } := by
  have hkept : ∀ other third,
      .remove other third ∉ UserCall.remove fd connection :: s.calls →
        .remove other third ∉ s.calls ∧ ¬ (fd = other ∧ connection = third) := by
    intro other third hremoved
    constructor
    · exact fun hmem => hremoved (List.mem_cons_of_mem _ hmem)
    · rintro ⟨rfl, rfl⟩
      exact hremoved List.mem_cons_self
  have hforth : ∀ other third, ¬ (fd = other ∧ connection = third) → Occupies s other third →
      s.tcp.connection other = some third ∨
        ∃ closer ∈ s.closers.eraseIdx i, closer.fd = other ∧ closer.connection = third := by
    rintro other third hne (hopen | ⟨closer, hmem, hother, hthird⟩)
    · exact .inl hopen
    · obtain ⟨j, hj⟩ := List.mem_iff_getElem?.mp hmem
      have hji : j ≠ i := by
        rintro rfl
        rw [hcloser] at hj
        cases hj
        exact hne ⟨hother, hthird⟩
      exact .inr ⟨closer, List.mem_eraseIdx_iff_getElem?.mpr ⟨j, hji, hj⟩, hother, hthird⟩
  constructor
  · have hback : ∀ other third,
        (s.tcp.connection other = some third ∨
          ∃ closer ∈ s.closers.eraseIdx i, closer.fd = other ∧ closer.connection = third) →
        Occupies s other third := by
      rintro other third (hopen | ⟨closer, hmem, hrest⟩)
      · exact .inl hopen
      · exact .inr ⟨closer, List.mem_of_mem_eraseIdx hmem, hrest⟩
    intro other third fourth hfirst hsecond
    exact h.unique other third fourth (hback _ _ hfirst) (hback _ _ hsecond)
  · intro other third haccepts hremoved
    obtain ⟨hremoved, hne⟩ := hkept other third hremoved
    exact hforth other third hne (h.accepting other third haccepts hremoved)
  · intro other third hcreate hremoved
    obtain ⟨hremoved, hne⟩ := hkept other third hremoved
    have hcreate := (List.mem_cons.mp hcreate).resolve_left (by simp)
    exact hforth other third hne (h.created other third hcreate hremoved)
  · intro other third hcreate hremoved
    obtain ⟨hremoved, hne⟩ := hkept other third hremoved
    have hcreate := (List.mem_cons.mp hcreate).resolve_left (by simp)
    refine ⟨?_, h.since other third hcreate hremoved⟩
    rintro rfl
    -- the worker has the descriptor, so it is the worker's connection that is over
    have hlive := h.created fd third hcreate hremoved
    have hmem := List.mem_of_getElem? hcloser
    exact hne ⟨rfl, h.unique fd connection third (.inr ⟨_, hmem, rfl, rfl⟩) hlive⟩

theorem step
    (h : Lifetimes s)
    (hok : WithinLifetime s e)
    (hstep : s.step e = some t) :
    Lifetimes t := by
  obtain ⟨htcp, -, hcase⟩ := ServerState.step_cases hstep
  cases hcase with
  | accept hidle hfree hadd => exact h.accept hfree hadd hok
  | acceptFails hadd =>
      refine h.frame rfl (fun _ _ => id) fun other third => ?_
      simp only [Occupies, Core.TcpServer.addFd_fails htcp hadd]
  | register hadded =>
      refine h.frame rfl ?_ fun _ _ => Iff.rfl
      rintro other third (hnone | hregistered)
      · cases hnone
      · cases hregistered
        exact .inl hadded
  | createUser hregistered => exact h.createUser hregistered
  | startRead hlookup =>
      refine h.frame rfl (fun _ _ => id) fun other third => ?_
      simp only [Occupies, Core.TcpServer.lookup_connection hlookup]
  | startReadNull hlookup =>
      refine h.frame rfl (fun _ _ => id) fun other third => ?_
      simp only [Occupies, Core.TcpServer.lookup_connection hlookup]
  | readNull hlookup =>
      refine h.frame rfl (fun _ _ => id) fun other third => ?_
      simp only [Occupies, Core.TcpServer.fail, Core.TcpServer.lookup_connection hlookup]
  | message => exact h.frame rfl (fun _ _ => id) fun _ _ => Iff.rfl
  | endRead => exact h.frame rfl (fun _ _ => id) fun _ _ => Iff.rfl
  | close => exact h.startClose _ _
  | sweepClose => exact (h.startClose _ _).frame rfl (fun _ _ => id) fun _ _ => Iff.rfl
  | closeFd hcloser => exact h.closeFd hcloser
  | removeUser hcloser => exact h.removeUser hcloser
  | check => exact h.frame rfl (fun _ _ => id) fun _ _ => Iff.rfl
  | checkFails => exact h.frame rfl (fun _ _ => id) fun _ _ => Iff.rfl

/-- A message within the lifetime of its connection finds a user. -/
theorem afterCreateUser
    (h : Lifetimes s)
    (hok : WithinLifetime s e) :
    AfterCreateUser s e := by
  cases e with
  | message i now =>
      intro fd connection hreader
      obtain ⟨hcreate, hremoved⟩ := hok fd connection hreader
      exact h.since fd connection hcreate hremoved
  | _ => trivial

end Lifetimes

/-- **Users are there for messages within the lifetime of their connection.** -/
theorem users_present_within_lifetime
    (reactors : Nat)
    (s : ServerState)
    (h : (ServerState.system reactors).Reachable WithinLifetime s) :
    UsersPresent s := by
  have hboth : StoreFollows s ∧ Lifetimes s := by
    refine h.invariant (I := fun s => StoreFollows s ∧ Lifetimes s)
      ⟨.init reactors, .init reactors⟩ ?_
    rintro s e t ⟨hfollows, hlifetimes⟩ hok hstep
    exact ⟨hfollows.step (hlifetimes.afterCreateUser hok) hstep, hlifetimes.step hok hstep⟩
  exact hboth.1.toUsersPresent

end Rpc
end ZeroRPC
