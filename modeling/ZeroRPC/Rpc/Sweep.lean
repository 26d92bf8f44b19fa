import ZeroRPC.Rpc.UserManager

/-!
# What a sweep closes

`check_invalid_user` gives descriptor numbers, and the sweep closes them after the lock of
the store is released.  A client may hang up meanwhile, and the next client be accepted
with the same number; or the store may still have the user of a connection whose
descriptor is closed and accepted again.  Either way the sweep closes a connection it knows
nothing about.

Main facts:
* `Sweeping.step`: a number on the list of a sweep is not that of a newer connection,
  unless it is accepted then or was put there for the user of an older one;
* `swept_as_judged`: without such steps a sweep closes what it judged;
* `swept_not_judged`: a client that hangs up during a sweep, and the next one.
-/

namespace ZeroRPC
namespace Rpc

open Library ZeroRPC.Core

/-- Every connection a sweep closed is the one whose user was found inactive. -/
def SweptAsJudged (s : ServerState) : Prop :=
  ∀ judged closed, (judged, closed) ∈ s.swept → judged = closed

/-- No descriptor is accepted that a sweep has still to close, and no user found inactive
is that of another connection than the one its descriptor is open for. -/
def JudgesInTime (s : ServerState) : ServerEvent → Prop
  | .accept fd => ∀ connection, (fd, connection) ∉ s.judged
  | .check now =>
      ∀ fd user connection, s.users.userStore.lookup fd = some (some user) →
        user.isActive (now fd) = false → s.tcp.connection fd = some connection →
          user.connection = connection
  | _ => True

/-- What sweeps have still to close is closed or the connection judged. -/
structure Sweeping (s : ServerState) : Prop where
  judged : ∀ fd judged connection,
    (fd, judged) ∈ s.judged → s.tcp.connection fd = some connection → judged = connection
  swept : SweptAsJudged s

namespace Sweeping

variable {s t : ServerState} {e : ServerEvent}

theorem init (reactors : Nat) : Sweeping (ServerState.init reactors) := by
  constructor <;> simp [ServerState.init, SweptAsJudged]

/-- Nothing was put on the list, accepted or swept. -/
theorem frame
    (h : Sweeping s)
    (hjudged : ∀ entry ∈ t.judged, entry ∈ s.judged)
    (hconnection : ∀ fd connection,
      t.tcp.connection fd = some connection → s.tcp.connection fd = some connection)
    (hswept : t.swept = s.swept) :
    Sweeping t := by
  constructor
  · intro fd judged connection hmem hopen
    exact h.judged fd judged connection (hjudged _ hmem) (hconnection fd connection hopen)
  · rw [SweptAsJudged, hswept]
    exact h.swept

/-- `close_connection` begins; a sweep has judged the connection that is open. -/
theorem startClose
    {fd : Nat}
    {judged : Option Nat}
    (h : Sweeping s)
    (hown : ∀ user connection,
      judged = some user → s.tcp.connection fd = some connection → user = connection) :
    Sweeping (s.startClose fd judged) := by
  have hconnection : (s.startClose fd judged).tcp.connection = s.tcp.connection :=
    ServerState.startClose_connection
  rcases s.startClose_cases fd judged with heq | ⟨connection, hopen, heq⟩
  · refine h.frame ?_ (fun _ _ => ?_) ?_
    · rw [heq]
      exact fun _ => id
    · rw [hconnection]
      exact id
    · rw [heq]
  · constructor
    · rw [hconnection, heq]
      exact h.judged
    · rw [heq]
      intro user closed hmem
      rcases List.mem_append.mp hmem with hnew | hold
      · cases judged with
        | none => cases hnew
        | some judged =>
            obtain ⟨rfl, rfl⟩ := Prod.mk.inj (List.mem_singleton.mp hnew)
            exact hown user closed rfl hopen
      · exact h.swept user closed hold

/-- A number that is accepted is on no list. -/
theorem accept
    {fd : Nat}
    {accepting : Accepting}
    (h : Sweeping s)
    (hadd : (s.tcp.addFd fd).ended = none)
    (hok : JudgesInTime s (.accept fd)) :
    Sweeping { s with tcp := s.tcp.addFd fd, accepting := accepting } := by
  constructor
  · intro other judged connection hmem hopen
    have hother : other ≠ fd := by
      rintro rfl
      exact hok judged hmem
    simp only [Core.TcpServer.addFd_connection hadd, Function.update_of_ne hother] at hopen
    exact h.judged other judged connection hmem hopen
  · exact h.swept

/-- The users found inactive are those of open connections. -/
theorem check
    {now : Nat → Int}
    {ret : List (Nat × Nat)}
    (h : Sweeping s)
    (hok : JudgesInTime s (.check now))
    (hret : s.users.checkInvalidUser now = .ok ret) :
    Sweeping { s with judged := s.judged ++ ret } := by
  constructor
  · intro fd judged connection hmem hopen
    rcases List.mem_append.mp hmem with hold | hnew
    · exact h.judged fd judged connection hold hopen
    · obtain ⟨user, hlookup, rfl, hinactive⟩ :=
        RpcUserManager.checkInvalidUser_mem hret hnew
      exact hok fd user connection hlookup hinactive hopen
  · exact h.swept

/-- **A sweep has on its list what it judged.** -/
theorem step
    (h : Sweeping s)
    (hok : JudgesInTime s e)
    (hstep : s.step e = some t) :
    Sweeping t := by
  obtain ⟨htcp, -, hcase⟩ := ServerState.step_cases hstep
  cases hcase with
  | accept hidle hfree hadd => exact h.accept hadd hok
  | acceptFails hadd =>
      refine h.frame (fun _ => id) (fun _ _ => ?_) rfl
      rw [Core.TcpServer.addFd_fails htcp hadd]
      exact id
  | register => exact h.frame (fun _ => id) (fun _ _ => id) rfl
  | createUser => exact h.frame (fun _ => id) (fun _ _ => id) rfl
  | startRead hlookup =>
      refine h.frame (fun _ => id) (fun _ _ => ?_) rfl
      rw [Core.TcpServer.lookup_connection hlookup]
      exact id
  | startReadNull hlookup =>
      refine h.frame (fun _ => id) (fun _ _ => ?_) rfl
      rw [Core.TcpServer.lookup_connection hlookup]
      exact id
  | readNull hlookup =>
      refine h.frame (fun _ => id) (fun _ _ => ?_) rfl
      simp only [Core.TcpServer.fail, Core.TcpServer.lookup_connection hlookup]
      exact id
  | message => exact h.frame (fun _ => id) (fun _ _ => id) rfl
  | endRead => exact h.frame (fun _ => id) (fun _ _ => id) rfl
  | close =>
      refine h.startClose ?_
      rintro user connection ⟨⟩
  | @sweepClose _ fd judged hjudged =>
      have hmem := List.mem_of_getElem? hjudged
      have hclosed : Sweeping (s.startClose fd (some judged)) := by
        refine h.startClose fun user connection huser hopen => ?_
        cases huser
        exact h.judged fd judged connection hmem hopen
      refine hclosed.frame (fun entry hentry => ?_) (fun _ _ => id) rfl
      have hold : (s.startClose fd (some judged)).judged = s.judged := by
        rcases s.startClose_cases fd (some judged) with heq | ⟨connection, -, heq⟩
        · rw [heq]
        · rw [heq]
      rw [hold]
      exact List.mem_of_mem_eraseIdx hentry
  | @closeFd _ fd connection hcloser =>
      refine h.frame (fun _ => id) (fun other connection hopen => ?_) rfl
      by_cases hother : other = fd
      · simp [Core.TcpServer.closeFd, hother] at hopen
      · simpa only [Core.TcpServer.closeFd, Function.update_of_ne hother] using hopen
  | removeUser => exact h.frame (fun _ => id) (fun _ _ => id) rfl
  | check hret => exact h.check hok hret
  | checkFails => exact h.frame (fun _ => id) (fun _ _ => id) rfl

end Sweeping

/-- **A sweep closes the connections it judged.** -/
theorem swept_as_judged
    (reactors : Nat)
    (s : ServerState)
    (h : (ServerState.system reactors).Reachable JudgesInTime s) :
    SweptAsJudged s := by
  have hsweeping : Sweeping s :=
    h.invariant (.init reactors) fun _ _ _ hs hok hstep => hs.step hok hstep
  exact hsweeping.swept

/-- A client is accepted, and a sweep 16 seconds later finds its user inactive. -/
def silentClient : List ServerEvent :=
  [.accept 5, .register, .createUser 0, .check fun _ => 16000000000]

def sweptServer : ServerState :=
  ((ServerState.system 2).run (silentClient ++ [.sweepClose 0])).getD (ServerState.init 2)

theorem silent_client_swept :
    sweptServer.swept = [(0, 0)] ∧ SweptAsJudged sweptServer := by
  refine ⟨by decide, ?_⟩
  have hok : (ServerState.system 2).Every JudgesInTime (ServerState.init 2)
      (silentClient ++ [.sweepClose 0]) := by
    refine ⟨nofun, trivial, trivial, ?_, trivial, trivial⟩
    intro fd user connection hlookup _ hopen
    by_cases hfd : fd = 5
    · subst hfd
      cases hlookup
      cases hopen
      rfl
    · let store : AList fun _ : Nat => Option RpcUser := AList.insert 5 (some ⟨5, 0, 0⟩) ∅
      have habsent : store.lookup fd = none := AList.lookup_insert_ne hfd
      cases habsent.symm.trans hlookup
  exact swept_as_judged 2 sweptServer (hok.reachable .init rfl)

/-- The client hangs up before the sweep closes it, and the next one has its number. -/
theorem swept_not_judged :
    ¬ ∀ (reactors : Nat) (s : ServerState),
      (ServerState.system reactors).Reachable System.anyStep s → SweptAsJudged s := by
  intro h
  let events : List ServerEvent := silentClient ++ [.close 5, .closeFd 0, .removeUser 0,
    .accept 5, .register, .createUser 16000000000, .sweepClose 0]
  let reused := ((ServerState.system 2).run events).getD (ServerState.init 2)
  have hreused : (ServerState.system 2).Reachable System.anyStep reused :=
    System.run_reachable (show (ServerState.system 2).run events = some reused from rfl)
  have hsame : 0 = 1 := h 2 reused hreused 0 1 (by decide)
  cases hsame

end Rpc
end ZeroRPC
