import ZeroRPC.Core.ParseLoop
import ZeroRPC.Library.Transition

/-!
# The tables of the server

`_channels` and `_fd_location` are looked up with `operator[]`, which inserts a null
pointer or 0 for a key that is not there.  A task for a descriptor may run after another
one has closed it; `close_connection` then enters the descriptor into `_fd_location` and
throws when it cannot be taken out of an epoll instance.  `enqueue`, `parse_message` and
the callback on a message may throw while the descriptor is open.  An exception that leaves
a step ends the process, as does an operation the language does not define.

A descriptor is open from `accept4` to `close`, and known by the number of its connection
meanwhile.  Closing it takes it out of every epoll instance.  A step in which
`parse_message` does not come back is not taken.

Main facts:
* `Consistent.closeConnection`, `Consistent.onReadMessages_eq`: what the operations do for
  an open descriptor;
* `parseMessage_outcome`: how a call of `parse_message` ends;
* `Tidy.readLoop_iff`: when `read_data` goes well on an open descriptor;
* `tables_consistent_iff`: the tables are consistent all along a run exactly when every
  step is for an open descriptor, there is a sub-reactor, and what is read fits, is whole
  frames, and is replied to without an exception or a connection lost.
-/

namespace ZeroRPC
namespace Core

open Library

/-- The tables of a `Tcp_Server` with the sub-reactors `0` to `reactors - 1`.
`connection` gives the connection of an open descriptor, `watched` the reactor that has
it; a channel is known by its connection, and `none` is the null pointer. -/
structure TcpServer where
  reactors : Nat
  accepted : Nat
  connection : Nat → Option Nat
  watched : Nat → Option Nat
  channels : Nat → Option (Option Nat)
  fdLocation : Nat → Option Nat
  ended : Option Fault

/-- How `try_send` ends: the queue is empty, `send` met `EAGAIN`, or it failed. -/
inductive TrySend
  | sent
  | again
  | failed
deriving DecidableEq

/-- What `_on_read_message` does with a message: the answers it sends, and what it throws
after them. -/
structure Reply where
  answers : List TrySend
  thrown : Option Fault

/-- What one call of `read` brings, and the replies to the messages it completes. -/
structure Chunk where
  bytes : Bytes
  replies : List Reply

/-- How the loop of `read_data` ends: `read` meets `EAGAIN`, and `parse_message` is called
once more, or `read` returns 0 or an error. -/
inductive ReadEnd
  | again (replies : List Reply)
  | closed

namespace TcpServer

def init (reactors : Nat) : TcpServer where
  reactors := reactors
  accepted := 0
  connection := fun _ => none
  watched := fun _ => none
  channels := fun _ => none
  fdLocation := fun _ => none
  ended := none

/-- `throw`, or an operation that is not defined. -/
def fail (s : TcpServer) (fault : Fault) : TcpServer := { s with ended := some fault }

/-- `_fd_location[fd]`. -/
def locate (s : TcpServer) (fd : Nat) : Nat × TcpServer :=
  match s.fdLocation fd with
  | some loc => (loc, s)
  | none => (0, { s with fdLocation := Function.update s.fdLocation fd (some 0) })

/-- `_channels[fd]`. -/
def lookup (s : TcpServer) (fd : Nat) : Option Nat × TcpServer :=
  match s.channels fd with
  | some channel => (channel, s)
  | none => (none, { s with channels := Function.update s.channels fd (some none) })

/-- Whether `epoll_ctl` finds a descriptor in the instance of a reactor. -/
def Watches (s : TcpServer) (loc fd : Nat) : Prop :=
  s.connection fd ≠ none ∧ s.watched fd = some loc

instance (s : TcpServer) (loc fd : Nat) : Decidable (s.Watches loc fd) :=
  inferInstanceAs (Decidable (_ ∧ _))

/-- `accept4` returns a descriptor, and `add_fd` has it watched. -/
def addFd (s : TcpServer) (fd : Nat) : TcpServer :=
  if s.reactors = 0 then
    s.fail .undefined
  else
    { s with
      accepted := s.accepted + 1
      connection := Function.update s.connection fd (some s.accepted)
      watched := Function.update s.watched fd (some (fd % s.reactors)) }

/-- The rest of `handle_new_connections`, for a connection. -/
def register (s : TcpServer) (fd connection : Nat) : TcpServer :=
  { s with
    fdLocation := Function.update s.fdLocation fd (some (fd % s.reactors))
    channels := Function.update s.channels fd (some (some connection)) }

/-- `close_connection` up to `close(fd)`. -/
def unregister (s : TcpServer) (fd : Nat) : TcpServer :=
  let (loc, t) := s.locate fd
  if t.reactors ≤ loc then
    t.fail .undefined
  else if t.Watches loc fd then
    { t with
      watched := Function.update t.watched fd none
      fdLocation := Function.update t.fdLocation fd none
      channels := Function.update t.channels fd none }
  else
    t.fail (.runtimeError "Failed to remove _fd from epoll")

/-- `close(fd)`. -/
def closeFd (s : TcpServer) (fd : Nat) : TcpServer :=
  { s with
    connection := Function.update s.connection fd none
    watched := Function.update s.watched fd none }

def closeConnection (s : TcpServer) (fd : Nat) : TcpServer :=
  let t := s.unregister fd
  if t.ended = none then t.closeFd fd else t

/-- `_sub_reactors[_fd_location[fd]]->modify_fd(fd, …)`. -/
def modifyFd (s : TcpServer) (fd : Nat) : TcpServer :=
  let (loc, t) := s.locate fd
  if t.reactors ≤ loc then
    t.fail .undefined
  else if t.Watches loc fd then
    t
  else
    t.fail (.runtimeError "Failed to modify _fd in epoll")

/-- The send message callback, with `try_send`. -/
def sendMessage (s : TcpServer) (fd : Nat) (outcome : TrySend) : TcpServer :=
  let t := s.modifyFd fd
  if t.ended = none then
    match outcome with
    | .sent => t.modifyFd fd
    | .again => t
    | .failed => t.closeConnection fd
  else
    t

/-- The answers to the messages of one `parse_message`. -/
def answer (s : TcpServer) (fd : Nat) : List TrySend → TcpServer
  | [] => s
  | outcome :: outcomes =>
      let t := s.sendMessage fd outcome
      if t.ended = none then t.answer fd outcomes else t

/-- The callbacks on the messages of one `parse_message`. -/
def onReadMessages (s : TcpServer) (fd : Nat) : List Reply → TcpServer
  | [] => s
  | reply :: replies =>
      let t := s.answer fd reply.answers
      if t.ended = none then
        match reply.thrown with
        | some fault => t.fail fault
        | none => t.onReadMessages fd replies
      else
        t

end TcpServer

/-- The tables, with the channel of each connection. -/
structure TableServer where
  tables : TcpServer
  channelOf : Nat → SocketChannel

/-- `operations` is how many a call of `parse_message` makes in its loop, at most. -/
inductive TableEvent
  | accept (fd : Nat)
  | acceptFails
  | readData (fd : Nat) (chunks : List Chunk) (ending : ReadEnd) (operations : Nat)
  | sendMessage (fd : Nat) (outcome : TrySend)
  | closeConnection (fd : Nat)

namespace TableServer

def init (type : CompressionType) (data : Nat → UInt8) (reactors : Nat) : TableServer where
  tables := .init reactors
  channelOf := fun _ => .init type data

/-- One turn of `handle_new_connections`. -/
def accept (type : CompressionType) (data : Nat → UInt8) (s : TableServer) (fd : Nat) :
    TableServer :=
  let t := s.tables.addFd fd
  if t.ended = none then
    { tables := t.register fd s.tables.accepted
      channelOf := Function.update s.channelOf s.tables.accepted (.init type data) }
  else
    { s with tables := t }

/-- `parse_message`: its loop, and the callback on every message there is then. -/
def parseMessage (host : Endian) (brotli : Brotli) (operations fd connection : Nat)
    (s : TableServer) (replies : List Reply) : Option TableServer :=
  match runLoop host brotli operations (s.channelOf connection, .head) with
  | none => none
  | some (.error e) => some { s with tables := s.tables.fail e }
  | some (.ok channel) =>
      if channel.readMessages.length = replies.length then
        some
          { tables := s.tables.onReadMessages fd replies
            channelOf :=
              Function.update s.channelOf connection { channel with readMessages := [] } }
      else
        none

/-- `enqueue` of what `read` has put in the array, and `parse_message`. -/
def receive (host : Endian) (brotli : Brotli) (operations fd connection : Nat)
    (s : TableServer) (chunk : Chunk) : Option TableServer :=
  if 0 < chunk.bytes.length ∧ chunk.bytes.length ≤ BUFFER_SIZE then
    match (s.channelOf connection).readBuffer.enqueue chunk.bytes with
    | .error e => some { s with tables := s.tables.fail e }
    | .ok buffer =>
        parseMessage host brotli operations fd connection
          { s with
            channelOf :=
              Function.update s.channelOf connection
                { s.channelOf connection with readBuffer := buffer } }
          chunk.replies
  else
    none

/-- The loop of `read_data` on a channel.  `read` of a descriptor that is not open is an
error. -/
def readLoop (host : Endian) (brotli : Brotli) (operations fd : Nat) (channel : Option Nat)
    (ending : ReadEnd) (s : TableServer) : List Chunk → Option TableServer
  | [] =>
      if s.tables.connection fd = none then
        some { s with tables := s.tables.closeConnection fd }
      else
        match ending, channel with
        | .closed, _ => some { s with tables := s.tables.closeConnection fd }
        | .again _, none => some { s with tables := s.tables.fail .undefined }
        | .again replies, some connection =>
            s.parseMessage host brotli operations fd connection replies
  | chunk :: chunks =>
      if s.tables.connection fd = none then
        some { s with tables := s.tables.closeConnection fd }
      else
        match channel with
        | none => some { s with tables := s.tables.fail .undefined }
        | some connection =>
            match s.receive host brotli operations fd connection chunk with
            | none => none
            | some t =>
                if t.tables.ended = none then
                  readLoop host brotli operations fd channel ending t chunks
                else
                  some t

def readData (host : Endian) (brotli : Brotli) (operations fd : Nat) (s : TableServer)
    (chunks : List Chunk) (ending : ReadEnd) : Option TableServer :=
  let (channel, t) := s.tables.lookup fd
  readLoop host brotli operations fd channel ending { s with tables := t } chunks

def step (host : Endian) (brotli : Brotli) (type : CompressionType) (data : Nat → UInt8)
    (s : TableServer) (e : TableEvent) : Option TableServer :=
  if s.tables.ended = none then
    match e with
    | .accept fd => if s.tables.connection fd = none then some (s.accept type data fd) else none
    | .acceptFails =>
        some { s with tables := s.tables.fail (.runtimeError "Failed to accept connection") }
    | .readData fd chunks ending operations =>
        s.readData host brotli operations fd chunks ending
    | .sendMessage fd outcome => some { s with tables := s.tables.sendMessage fd outcome }
    | .closeConnection fd => some { s with tables := s.tables.closeConnection fd }
  else
    none

def system (host : Endian) (brotli : Brotli) (type : CompressionType) (data : Nat → UInt8)
    (reactors : Nat) : System TableServer TableEvent where
  init := init type data reactors
  step := step host brotli type data

/-- The bytes in the read buffer of a descriptor's channel. -/
def buffered (s : TableServer) (fd : Nat) : Bytes :=
  match s.tables.channels fd with
  | some (some connection) => (s.channelOf connection).readBuffer.elements
  | _ => []

end TableServer

/-- The keys of both tables are the open descriptors, no channel is null, every location
is the reactor that watches the descriptor, and nothing went wrong. -/
structure Consistent (s : TcpServer) : Prop where
  channels : ∀ fd, s.channels fd ≠ none ↔ s.connection fd ≠ none
  fdLocation : ∀ fd, s.fdLocation fd ≠ none ↔ s.connection fd ≠ none
  notNull : ∀ fd, s.channels fd ≠ some none
  watched : ∀ fd loc, s.fdLocation fd = some loc → s.watched fd = some loc ∧ loc < s.reactors
  running : s.ended = none

/-- No answer ends the connection, and nothing is thrown. -/
def Reply.GoesWell (reply : Reply) : Prop := .failed ∉ reply.answers ∧ reply.thrown = none

/-- Every chunk fits behind what is in the buffer, there are whole frames then, and every
reply goes well. -/
def Digestible (host : Endian) (brotli : Brotli) : Bytes → List Chunk → Prop
  | _, [] => True
  | content, chunk :: chunks =>
      content.length + chunk.bytes.length ≤ BUFFER_SIZE ∧
        (∀ reply ∈ chunk.replies, reply.GoesWell) ∧
        ∃ rest, Frames host brotli (content ++ chunk.bytes) rest ∧
          Digestible host brotli rest chunks

/-- There is a reactor for an accepted descriptor; every other step is for an open one, and
what it reads can be parsed and replied to. -/
def OnOpenFd (host : Endian) (brotli : Brotli) (s : TableServer) : TableEvent → Prop
  | .accept _ => 0 < s.tables.reactors
  | .acceptFails => False
  | .readData fd chunks _ _ =>
      s.tables.connection fd ≠ none ∧ Digestible host brotli (s.buffered fd) chunks
  | .sendMessage fd _ => s.tables.connection fd ≠ none
  | .closeConnection fd => s.tables.connection fd ≠ none

/-! ### A descriptor that is not open -/

section Absent

variable {s : TcpServer} {fd : Nat}

theorem TcpServer.locate_connection (s : TcpServer) (fd : Nat) :
    (s.locate fd).2.connection = s.connection := by
  rw [locate]
  split <;> rfl

theorem TcpServer.lookup_connection
    {t : TcpServer}
    {channel : Option Nat}
    (h : s.lookup fd = (channel, t)) :
    t.connection = s.connection := by
  rw [lookup] at h
  split at h <;> cases h <;> rfl

theorem TcpServer.addFd_connection
    (h : (s.addFd fd).ended = none) :
    (s.addFd fd).connection = Function.update s.connection fd (some s.accepted) := by
  by_cases hreactors : s.reactors = 0
  · rw [addFd, if_pos hreactors] at h
    cases h
  · rw [addFd, if_neg hreactors]

theorem TcpServer.addFd_channels (s : TcpServer) (fd : Nat) :
    (s.addFd fd).channels = s.channels := by
  rw [addFd]
  split <;> rfl

theorem TcpServer.addFd_fails
    (hrunning : s.ended = none)
    (h : (s.addFd fd).ended ≠ none) :
    (s.addFd fd).connection = s.connection := by
  by_cases hreactors : s.reactors = 0
  · rw [addFd, if_pos hreactors, fail]
  · rw [addFd, if_neg hreactors] at h
    exact absurd hrunning h

/-- Leaving the tables does not close the descriptor. -/
theorem TcpServer.unregister_connection (s : TcpServer) (fd : Nat) :
    (s.unregister fd).connection = s.connection := by
  have hlocate := s.locate_connection fd
  rw [unregister]
  simp only
  split
  · exact hlocate
  · split <;> exact hlocate

theorem TcpServer.not_watches
    {t : TcpServer}
    {loc : Nat}
    (h : t.connection fd = none) :
    ¬ t.Watches loc fd :=
  fun hwatches => hwatches.1 h

theorem TcpServer.unregister_absent
    (h : s.connection fd = none) :
    (s.unregister fd).ended ≠ none := by
  have hconnection : (s.locate fd).2.connection fd = none := by
    rw [locate_connection]
    exact h
  rw [unregister]
  simp only [if_neg (not_watches hconnection)]
  split <;> simp [fail]

theorem TcpServer.modifyFd_absent
    (h : s.connection fd = none) :
    (s.modifyFd fd).ended ≠ none := by
  have hconnection : (s.locate fd).2.connection fd = none := by
    rw [locate_connection]
    exact h
  rw [modifyFd]
  simp only [if_neg (not_watches hconnection)]
  split <;> simp [fail]

theorem TcpServer.closeConnection_absent
    (h : s.connection fd = none) :
    (s.closeConnection fd).ended ≠ none := by
  have hfails := unregister_absent h
  rw [closeConnection]
  simp only [if_neg hfails]
  exact hfails

theorem TcpServer.sendMessage_absent
    {outcome : TrySend}
    (h : s.connection fd = none) :
    (s.sendMessage fd outcome).ended ≠ none := by
  have hfails := modifyFd_absent h
  unfold sendMessage
  simp only [if_neg hfails]
  exact hfails

/-- Nothing is sent, or it fails. -/
theorem TcpServer.answer_absent
    (outcomes : List TrySend)
    (h : s.connection fd = none) :
    (s.answer fd outcomes).ended ≠ none ∨ s.answer fd outcomes = s := by
  cases outcomes with
  | nil => exact .inr rfl
  | cons outcome outcomes =>
      have hfails : (s.sendMessage fd outcome).ended ≠ none := sendMessage_absent h
      rw [answer]
      simp only [if_neg hfails]
      exact .inl hfails

theorem TcpServer.onReadMessages_absent
    {replies : List Reply}
    (h : s.connection fd = none) :
    (s.onReadMessages fd replies).ended ≠ none ∨
      (s.onReadMessages fd replies).connection fd = none := by
  induction replies with
  | nil => exact .inr h
  | cons reply replies ih =>
      rw [onReadMessages]
      rcases answer_absent reply.answers h with hended | hsame
      · rw [if_neg hended]
        exact .inl hended
      · rw [hsame]
        by_cases hended : s.ended = none
        · rw [if_pos hended]
          cases reply.thrown with
          | none => exact ih
          | some fault => exact .inl (by simp [fail])
        · rw [if_neg hended]
          exact .inl hended

theorem TableServer.readLoop_absent
    {host : Endian}
    {brotli : Brotli}
    {operations : Nat}
    {channel : Option Nat}
    {ending : ReadEnd}
    {s t : TableServer}
    {chunks : List Chunk}
    (h : s.tables.connection fd = none)
    (hread : readLoop host brotli operations fd channel ending s chunks = some t) :
    t.tables.ended ≠ none := by
  have hfails : (s.tables.closeConnection fd).ended ≠ none := TcpServer.closeConnection_absent h
  cases chunks with
  | nil =>
      unfold readLoop at hread
      rw [if_pos h] at hread
      cases hread
      exact hfails
  | cons chunk chunks =>
      unfold readLoop at hread
      rw [if_pos h] at hread
      cases hread
      exact hfails

end Absent

/-! ### An open descriptor -/

namespace Consistent

variable {s : TcpServer} {fd : Nat}

theorem init (reactors : Nat) : Consistent (TcpServer.init reactors) := by
  constructor <;> simp [TcpServer.init]

/-- The tables change at one descriptor only, and are right there. -/
theorem of_elsewhere
    {t : TcpServer}
    (h : Consistent s)
    (fd : Nat)
    (hsame : ∀ other, other ≠ fd →
      t.connection other = s.connection other ∧ t.watched other = s.watched other ∧
        t.channels other = s.channels other ∧ t.fdLocation other = s.fdLocation other)
    (hreactors : t.reactors = s.reactors)
    (hrunning : t.ended = none)
    (hchannels : t.channels fd ≠ none ↔ t.connection fd ≠ none)
    (hlocation : t.fdLocation fd ≠ none ↔ t.connection fd ≠ none)
    (hnull : t.channels fd ≠ some none)
    (hwatched : ∀ loc, t.fdLocation fd = some loc → t.watched fd = some loc ∧ loc < t.reactors) :
    Consistent t := by
  constructor
  · intro other
    by_cases hother : other = fd
    · subst hother
      exact hchannels
    · obtain ⟨hconnection, -, hchannel, -⟩ := hsame other hother
      rw [hconnection, hchannel]
      exact h.channels other
  · intro other
    by_cases hother : other = fd
    · subst hother
      exact hlocation
    · obtain ⟨hconnection, -, -, hloc⟩ := hsame other hother
      rw [hconnection, hloc]
      exact h.fdLocation other
  · intro other
    by_cases hother : other = fd
    · subst hother
      exact hnull
    · obtain ⟨-, -, hchannel, -⟩ := hsame other hother
      rw [hchannel]
      exact h.notNull other
  · intro other loc
    by_cases hother : other = fd
    · subst hother
      exact hwatched loc
    · obtain ⟨-, hwatch, -, hloc⟩ := hsame other hother
      rw [hwatch, hloc, hreactors]
      exact h.watched other loc
  · exact hrunning

/-- A connection is accepted. -/
theorem accept
    (h : Consistent s)
    (fd : Nat)
    (hreactors : 0 < s.reactors) :
    (s.addFd fd).ended = none ∧ Consistent ((s.addFd fd).register fd s.accepted) := by
  have hadd : s.addFd fd = { s with
      accepted := s.accepted + 1
      connection := Function.update s.connection fd (some s.accepted)
      watched := Function.update s.watched fd (some (fd % s.reactors)) } :=
    if_neg hreactors.ne'
  rw [hadd]
  refine ⟨h.running, h.of_elsewhere fd ?_ rfl h.running ?_ ?_ ?_ ?_⟩
  · intro other hother
    simp only [TcpServer.register, Function.update_of_ne hother, and_self]
  · simp [TcpServer.register]
  · simp [TcpServer.register]
  · simp [TcpServer.register]
  · simp only [TcpServer.register, Function.update_self, Option.some.injEq]
    rintro loc rfl
    exact ⟨rfl, Nat.mod_lt _ hreactors⟩

/-- `_fd_location[fd]` is the reactor that watches the descriptor. -/
theorem locate
    (h : Consistent s)
    (hopen : s.connection fd ≠ none) :
    ∃ loc, s.locate fd = (loc, s) ∧ loc < s.reactors ∧ s.Watches loc fd := by
  obtain ⟨loc, hloc⟩ := Option.ne_none_iff_exists'.mp ((h.fdLocation fd).mpr hopen)
  obtain ⟨hwatched, hlt⟩ := h.watched fd loc hloc
  refine ⟨loc, ?_, hlt, hopen, hwatched⟩
  rw [TcpServer.locate, hloc]

theorem modifyFd
    (h : Consistent s)
    (hopen : s.connection fd ≠ none) :
    s.modifyFd fd = s := by
  obtain ⟨loc, hlocate, hlt, hwatches⟩ := h.locate hopen
  rw [TcpServer.modifyFd, hlocate]
  simp only
  rw [if_neg (by omega), if_pos hwatches]

theorem closeConnection_eq
    (h : Consistent s)
    (hopen : s.connection fd ≠ none) :
    s.closeConnection fd = { s with
      connection := Function.update s.connection fd none
      watched := Function.update s.watched fd none
      channels := Function.update s.channels fd none
      fdLocation := Function.update s.fdLocation fd none } := by
  obtain ⟨loc, hlocate, hlt, hwatches⟩ := h.locate hopen
  have hunregister : s.unregister fd = { s with
      watched := Function.update s.watched fd none
      fdLocation := Function.update s.fdLocation fd none
      channels := Function.update s.channels fd none } := by
    rw [TcpServer.unregister, hlocate]
    simp only
    rw [if_neg (by omega), if_pos hwatches]
  rw [TcpServer.closeConnection, hunregister]
  simp only [if_pos h.running, TcpServer.closeFd, Function.update_idem]

/-- The descriptor leaves the tables, and is closed. -/
theorem closeConnection
    (h : Consistent s)
    (hopen : s.connection fd ≠ none) :
    Consistent (s.closeConnection fd) := by
  rw [h.closeConnection_eq hopen]
  refine h.of_elsewhere fd ?_ rfl h.running ?_ ?_ ?_ ?_
  · intro other hother
    simp only [Function.update_of_ne hother, and_self]
  all_goals simp

theorem sendMessage_eq
    {outcome : TrySend}
    (h : Consistent s)
    (hopen : s.connection fd ≠ none) :
    s.sendMessage fd outcome = if outcome = .failed then s.closeConnection fd else s := by
  have hmodify := h.modifyFd hopen
  unfold TcpServer.sendMessage
  rw [hmodify]
  simp only [if_pos h.running]
  cases outcome with
  | sent => exact hmodify
  | again => rfl
  | failed => rfl

/-- Answers that do not fail leave the tables alone. -/
theorem answer_eq
    {outcomes : List TrySend}
    (h : Consistent s)
    (hopen : s.connection fd ≠ none)
    (hsent : .failed ∉ outcomes) :
    s.answer fd outcomes = s := by
  induction outcomes with
  | nil => rfl
  | cons outcome outcomes ih =>
      have hfirst : outcome ≠ .failed := fun heq => hsent (heq ▸ List.mem_cons_self)
      have hrest : .failed ∉ outcomes := fun hmem => hsent (List.mem_cons_of_mem _ hmem)
      rw [TcpServer.answer, h.sendMessage_eq hopen, if_neg hfirst]
      simp only [if_pos h.running]
      exact ih hrest

/-- An answer that fails closes the descriptor, and one after it finds it closed. -/
theorem answer_failed
    {outcomes : List TrySend}
    (h : Consistent s)
    (hopen : s.connection fd ≠ none)
    (hfailed : .failed ∈ outcomes) :
    (s.answer fd outcomes).ended ≠ none ∨ (s.answer fd outcomes).connection fd = none := by
  induction outcomes with
  | nil => cases hfailed
  | cons outcome outcomes ih =>
      rw [TcpServer.answer, h.sendMessage_eq hopen]
      by_cases hfirst : outcome = .failed
      · have hclosed := h.closeConnection hopen
        have hconnection : (s.closeConnection fd).connection fd = none := by
          rw [h.closeConnection_eq hopen]
          exact Function.update_self ..
        rw [if_pos hfirst]
        simp only [if_pos hclosed.running]
        cases outcomes with
        | nil => exact .inr hconnection
        | cons next outcomes =>
            have hfails : ((s.closeConnection fd).sendMessage fd next).ended ≠ none :=
              TcpServer.sendMessage_absent hconnection
            rw [TcpServer.answer]
            simp only [if_neg hfails]
            exact .inl hfails
      · have hrest : .failed ∈ outcomes := by
          rcases List.mem_cons.mp hfailed with heq | hmem
          · exact absurd heq.symm hfirst
          · exact hmem
        rw [if_neg hfirst]
        simp only [if_pos h.running]
        exact ih hrest

/-- Replies that go well leave the tables alone. -/
theorem onReadMessages_eq
    {replies : List Reply}
    (h : Consistent s)
    (hopen : s.connection fd ≠ none)
    (hwell : ∀ reply ∈ replies, reply.GoesWell) :
    s.onReadMessages fd replies = s := by
  induction replies with
  | nil => rfl
  | cons reply replies ih =>
      obtain ⟨hsent, hthrown⟩ := hwell reply List.mem_cons_self
      rw [TcpServer.onReadMessages, h.answer_eq hopen hsent]
      simp only [if_pos h.running, hthrown]
      exact ih fun rest hrest => hwell rest (List.mem_cons_of_mem _ hrest)

/-- A reply that does not go well throws, or leaves the descriptor closed. -/
theorem onReadMessages_failed
    {replies : List Reply}
    (h : Consistent s)
    (hopen : s.connection fd ≠ none)
    (hbad : ¬ ∀ reply ∈ replies, reply.GoesWell) :
    (s.onReadMessages fd replies).ended ≠ none ∨
      (s.onReadMessages fd replies).connection fd = none := by
  induction replies with
  | nil => exact absurd (by simp) hbad
  | cons reply replies ih =>
      rw [TcpServer.onReadMessages]
      by_cases hsent : .failed ∈ reply.answers
      · by_cases hended : (s.answer fd reply.answers).ended = none
        · have hclosed : (s.answer fd reply.answers).connection fd = none :=
            (h.answer_failed hopen hsent).resolve_left (not_not.mpr hended)
          rw [if_pos hended]
          cases reply.thrown with
          | none => exact TcpServer.onReadMessages_absent hclosed
          | some fault => exact .inl (by simp [TcpServer.fail])
        · rw [if_neg hended]
          exact .inl hended
      · rw [h.answer_eq hopen hsent, if_pos h.running]
        cases hthrown : reply.thrown with
        | some fault => exact .inl (by simp [TcpServer.fail])
        | none =>
            refine ih fun hrest => hbad ?_
            intro other hother
            rcases List.mem_cons.mp hother with rfl | hother
            · exact ⟨hsent, hthrown⟩
            · exact hrest other hother

/-- `_channels[fd]` is the channel of the open descriptor. -/
theorem lookup
    (h : Consistent s)
    (hopen : s.connection fd ≠ none) :
    ∃ connection, s.channels fd = some (some connection) ∧ s.lookup fd = (some connection, s) := by
  obtain ⟨channel, hchannel⟩ := Option.ne_none_iff_exists'.mp ((h.channels fd).mpr hopen)
  cases channel with
  | none => exact absurd hchannel (h.notNull fd)
  | some connection =>
      refine ⟨connection, hchannel, ?_⟩
      rw [TcpServer.lookup, hchannel]

end Consistent

/-! ### Reading from an open descriptor -/

/-- No length is noted, no message waits, and at most a header's worth of bytes is left. -/
structure Drained (channel : SocketChannel) (content : Bytes) : Prop where
  holds : channel.readBuffer.Holds content
  few : content.length ≤ HEAD_LENGTH
  length : channel.readBufferLength = 0
  messages : channel.readMessages = []

/-- The tables are consistent, and no channel in them has anything left to parse. -/
structure Tidy (s : TableServer) : Prop where
  tables : Consistent s.tables
  channels : ∀ fd connection, s.tables.channels fd = some (some connection) →
    ∃ content, Drained (s.channelOf connection) content

theorem Frames.few_rest
    {host : Endian}
    {brotli : Brotli}
    {content rest : Bytes}
    (h : Frames host brotli content rest) :
    rest.length ≤ HEAD_LENGTH := by
  induction h with
  | few hfew => exact hfew
  | frame _ _ _ _ ih => exact ih

section Read

variable {host : Endian} {brotli : Brotli} {operations fd connection : Nat}
  {s t : TableServer} {content : Bytes}

/-- How `parse_message` ends: with the whole frames taken and every reply gone well, or with
an exception or the descriptor closed. -/
inductive ParseOutcome (host : Endian) (brotli : Brotli) (fd connection : Nat)
    (s : TableServer) (content : Bytes) (replies : List Reply) : TableServer → Prop
  | well {rest : Bytes} {after : SocketChannel}
      (hrest : ∀ other, Frames host brotli content other ↔ other = rest)
      (hwell : ∀ reply ∈ replies, reply.GoesWell) (hafter : Drained after rest) :
      ParseOutcome host brotli fd connection s content replies
        { s with channelOf := Function.update s.channelOf connection after }
  | badly {t : TableServer}
      (hbad : ¬ ((∃ rest, Frames host brotli content rest) ∧
        ∀ reply ∈ replies, reply.GoesWell))
      (ht : t.tables.ended ≠ none ∨ t.tables.connection fd = none) :
      ParseOutcome host brotli fd connection s content replies t

/-- **`parse_message` on an open descriptor.** -/
theorem parseMessage_outcome
    {replies : List Reply}
    (h : Consistent s.tables)
    (hopen : s.tables.connection fd ≠ none)
    (hholds : (s.channelOf connection).readBuffer.Holds content)
    (hlength : (s.channelOf connection).readBufferLength = 0)
    (hparse : s.parseMessage host brotli operations fd connection replies = some t) :
    ParseOutcome host brotli fd connection s content replies t := by
  rw [TableServer.parseMessage] at hparse
  cases hrun : runLoop host brotli operations (s.channelOf connection, .head) with
  | none =>
      rw [hrun] at hparse
      cases hparse
  | some result =>
      have hleaves := runLoop_leaves hholds hlength hrun
      rw [hrun] at hparse
      cases result with
      | error e =>
          cases hparse
          refine .badly ?_ (.inl (by simp [TcpServer.fail]))
          rintro ⟨⟨rest, hframes⟩, -⟩
          exact hleaves rest hframes
      | ok channel =>
          obtain ⟨hzero, rest, hrest, hother⟩ := hleaves
          simp only [Option.ite_none_right_eq_some, Option.some.injEq] at hparse
          obtain ⟨-, rfl⟩ := hparse
          by_cases hwell : ∀ reply ∈ replies, reply.GoesWell
          · have hframes : Frames host brotli content rest := (hother rest).mpr rfl
            rw [h.onReadMessages_eq hopen hwell]
            exact .well hother hwell ⟨hrest, hframes.few_rest, hzero, rfl⟩
          · exact .badly (fun hgood => hwell hgood.2) (h.onReadMessages_failed hopen hwell)

/-- With nothing left to parse `parse_message` does nothing. -/
theorem Drained.parseMessage
    {replies : List Reply}
    (h : Drained (s.channelOf connection) content)
    (hparse : s.parseMessage host brotli operations fd connection replies = some t) :
    t = s := by
  rw [TableServer.parseMessage] at hparse
  cases hrun : runLoop host brotli operations (s.channelOf connection, .head) with
  | none =>
      rw [hrun] at hparse
      cases hparse
  | some result =>
      have hsame := runLoop_few h.holds h.length h.few hrun
      rw [hrun, hsame] at hparse
      simp only [h.messages, Option.ite_none_right_eq_some, Option.some.injEq] at hparse
      obtain ⟨hnone, rfl⟩ := hparse
      obtain rfl := List.length_eq_zero_iff.mp hnone.symm
      rw [← h.messages]
      simp only [TcpServer.onReadMessages, Function.update_eq_self]

/-- A channel that has nothing left to parse takes the place of one that had not. -/
theorem Tidy.update
    (connection : Nat)
    {after : SocketChannel}
    (h : Tidy s)
    (hafter : Drained after content) :
    Tidy { s with channelOf := Function.update s.channelOf connection after } where
  tables := h.tables
  channels := by
    intro other number hchannel
    by_cases heq : number = connection
    · subst heq
      simp only [Function.update_self]
      exact ⟨content, hafter⟩
    · simp only [Function.update_of_ne heq]
      exact h.channels other number hchannel

theorem Tidy.closeConnection
    (h : Tidy s)
    (hopen : s.tables.connection fd ≠ none) :
    Tidy { s with tables := s.tables.closeConnection fd } where
  tables := h.tables.closeConnection hopen
  channels := by
    intro other number hchannel
    rw [h.tables.closeConnection_eq hopen] at hchannel
    by_cases heq : other = fd
    · subst heq
      simp at hchannel
    · simp only [Function.update_of_ne heq] at hchannel
      exact h.channels other number hchannel

/-- A chunk that has no room ends the process, and one that has is parsed. -/
theorem receive_outcome
    {chunk : Chunk}
    (h : Consistent s.tables)
    (hopen : s.tables.connection fd ≠ none)
    (hdrained : Drained (s.channelOf connection) content)
    (hreceive : s.receive host brotli operations fd connection chunk = some t) :
    (BUFFER_SIZE < content.length + chunk.bytes.length ∧ t.tables.ended ≠ none) ∨
      (content.length + chunk.bytes.length ≤ BUFFER_SIZE ∧
        ParseOutcome host brotli fd connection s (content ++ chunk.bytes) chunk.replies t) := by
  rw [TableServer.receive] at hreceive
  simp only [Option.ite_none_right_eq_some] at hreceive
  obtain ⟨-, hreceive⟩ := hreceive
  by_cases hroom : content.length + chunk.bytes.length ≤ BUFFER_SIZE
  · obtain ⟨buffer, henqueue, hbuffer⟩ := hdrained.holds.enqueue hroom
    rw [henqueue] at hreceive
    refine .inr ⟨hroom, ?_⟩
    let filled : TableServer :=
      { s with
        channelOf :=
          Function.update s.channelOf connection
            { s.channelOf connection with readBuffer := buffer } }
    have hholds : (filled.channelOf connection).readBuffer.Holds (content ++ chunk.bytes) := by
      simpa only [filled, Function.update_self] using hbuffer
    have hlength : (filled.channelOf connection).readBufferLength = 0 := by
      simpa only [filled, Function.update_self] using hdrained.length
    have hfilled : Consistent filled.tables := h
    have houtcome := parseMessage_outcome hfilled hopen hholds hlength hreceive
    cases houtcome with
    | well hrest hwell hafter =>
        simp only [filled, Function.update_idem]
        exact .well hrest hwell hafter
    | badly hbad ht => exact .badly hbad ht
  · rw [hdrained.holds.enqueue_overflow (by omega)] at hreceive
    cases hreceive
    exact .inl ⟨by omega, by simp [TcpServer.fail]⟩

/-- The next turn of the loop of `read_data`. -/
theorem readLoop_cons
    {ending : ReadEnd}
    {chunk : Chunk}
    {chunks : List Chunk}
    (hopen : s.tables.connection fd ≠ none)
    (hread : TableServer.readLoop host brotli operations fd (some connection) ending s
      (chunk :: chunks) = some t) :
    ∃ next, s.receive host brotli operations fd connection chunk = some next ∧
      ((next.tables.ended ≠ none ∧ t = next) ∨
        (next.tables.ended = none ∧
          TableServer.readLoop host brotli operations fd (some connection) ending next chunks =
            some t)) := by
  unfold TableServer.readLoop at hread
  rw [if_neg hopen] at hread
  simp only at hread
  cases hreceive : s.receive host brotli operations fd connection chunk with
  | none =>
      rw [hreceive] at hread
      cases hread
  | some next =>
      rw [hreceive] at hread
      simp only at hread
      refine ⟨next, rfl, ?_⟩
      by_cases hended : next.tables.ended = none
      · rw [if_pos hended] at hread
        exact .inr ⟨hended, hread⟩
      · rw [if_neg hended] at hread
        exact .inl ⟨hended, (Option.some.inj hread).symm⟩

/-- **When `read_data` goes well** on an open descriptor. -/
theorem Tidy.readLoop_iff
    {ending : ReadEnd}
    {chunks : List Chunk}
    (h : Tidy s)
    (hopen : s.tables.connection fd ≠ none)
    (hdrained : Drained (s.channelOf connection) content)
    (hread : TableServer.readLoop host brotli operations fd (some connection) ending s chunks =
      some t) :
    (Digestible host brotli content chunks → Tidy t) ∧
      (t.tables.ended = none → Digestible host brotli content chunks) := by
  induction chunks generalizing s content with
  | nil =>
      refine ⟨fun _ => ?_, fun _ => trivial⟩
      unfold TableServer.readLoop at hread
      rw [if_neg hopen] at hread
      cases ending with
      | closed =>
          cases hread
          exact h.closeConnection hopen
      | again replies =>
          rw [hdrained.parseMessage hread]
          exact h
  | cons chunk chunks ih =>
      obtain ⟨next, hreceive, hrest⟩ := readLoop_cons hopen hread
      rw [Digestible]
      have hreceived := receive_outcome h.tables hopen hdrained hreceive
      rcases hreceived with ⟨hfull, hended⟩ | ⟨hroom, hparsed⟩
      · obtain rfl : t = next := (hrest.resolve_right fun hmore => hended hmore.1).2
        refine ⟨fun hdigestible => ?_, fun hnone => absurd hnone hended⟩
        exact absurd hdigestible.1 (by omega)
      · cases hparsed with
        | @well rest after hframes hwell hafter =>
            have htidy := h.update connection hafter
            have hread := (hrest.resolve_left fun hstop => hstop.1 h.tables.running).2
            have hnext := ih htidy hopen (by simpa only [Function.update_self] using hafter) hread
            constructor
            · rintro ⟨-, -, other, hother, hdigestible⟩
              obtain rfl := (hframes other).mp hother
              exact hnext.1 hdigestible
            · intro hended
              exact ⟨hroom, hwell, rest, (hframes rest).mpr rfl, hnext.2 hended⟩
        | badly hbad hlost =>
            have hended : t.tables.ended ≠ none := by
              rcases hrest with ⟨hended, rfl⟩ | ⟨hnone, hread⟩
              · exact hended
              · exact TableServer.readLoop_absent (hlost.resolve_left (not_not.mpr hnone)) hread
            refine ⟨?_, fun hnone => absurd hnone hended⟩
            rintro ⟨-, hwell, rest, hframes, -⟩
            exact absurd ⟨⟨rest, hframes⟩, hwell⟩ hbad

/-- Blocks of bytes that `read` can bring, each of which completes whole frames. -/
def Blocks (host : Endian) (brotli : Brotli) : Bytes → List Bytes → Prop
  | _, [] => True
  | content, block :: blocks =>
      0 < block.length ∧ content.length + block.length ≤ BUFFER_SIZE ∧
        ∃ rest, Frames host brotli (content ++ block) rest ∧ Blocks host brotli rest blocks

/-- A block of whole frames is parsed, when the callback does nothing. -/
theorem Drained.receives
    {block rest : Bytes}
    (h : Consistent s.tables)
    (hopen : s.tables.connection fd ≠ none)
    (hdrained : Drained (s.channelOf connection) content)
    (hsome : 0 < block.length)
    (hroom : content.length + block.length ≤ BUFFER_SIZE)
    (hframes : Frames host brotli (content ++ block) rest) :
    ∃ enough replies after,
      Drained after rest ∧
        ∀ operations, enough ≤ operations →
          s.receive host brotli operations fd connection ⟨block, replies⟩ =
            some { s with channelOf := Function.update s.channelOf connection after } := by
  obtain ⟨buffer, henqueue, hbuffer⟩ := hdrained.holds.enqueue hroom
  let filled : SocketChannel := { s.channelOf connection with readBuffer := buffer }
  have hfilled : filled.readBuffer.Holds (content ++ block) := hbuffer
  obtain ⟨enough, left, hrun⟩ := runLoop_returns hfilled hdrained.length hframes
  obtain ⟨hzero, other, hother, hunique⟩ := runLoop_leaves hfilled hdrained.length hrun
  obtain rfl := (hunique rest).mp hframes
  have hnothing : ∀ reply ∈ List.replicate left.readMessages.length (Reply.mk [] none),
      reply.GoesWell := by
    intro reply hreply
    rw [List.eq_of_mem_replicate hreply]
    exact ⟨by simp, rfl⟩
  refine ⟨enough, List.replicate left.readMessages.length ⟨[], none⟩,
    { left with readMessages := [] }, ⟨hother, hframes.few_rest, hzero, rfl⟩, ?_⟩
  intro operations hoperations
  have hmore : runLoop host brotli operations
      ({ s.channelOf connection with readBuffer := buffer }, .head) = some (.ok left) :=
    runLoop_mono hoperations hrun
  have hsize : block.length ≤ BUFFER_SIZE := by omega
  rw [TableServer.receive, if_pos ⟨hsome, hsize⟩]
  simp only [henqueue, TableServer.parseMessage, Function.update_self,
    hmore, List.length_replicate, if_true,
    h.onReadMessages_eq hopen hnothing, Function.update_idem]

/-- **Blocks of whole frames can be read**, with enough operations. -/
theorem Tidy.reads
    {blocks : List Bytes}
    (h : Tidy s)
    (hopen : s.tables.connection fd ≠ none)
    (hdrained : Drained (s.channelOf connection) content)
    (hblocks : Blocks host brotli content blocks) :
    ∃ chunks : List Chunk, chunks.map (·.bytes) = blocks ∧
      ∃ enough, ∀ operations, enough ≤ operations →
        ∃ t, TableServer.readLoop host brotli operations fd (some connection) .closed s chunks =
          some t := by
  induction blocks generalizing s content with
  | nil =>
      refine ⟨[], rfl, 0, fun operations _ => ?_⟩
      refine ⟨{ s with tables := s.tables.closeConnection fd }, ?_⟩
      unfold TableServer.readLoop
      rw [if_neg hopen]
  | cons block blocks ih =>
      obtain ⟨hsome, hroom, rest, hframes, hblocks⟩ := hblocks
      obtain ⟨first, replies, after, hafter, hreceive⟩ :=
        hdrained.receives h.tables hopen hsome hroom hframes
      have htidy := h.update connection hafter
      obtain ⟨chunks, hbytes, second, hread⟩ := ih htidy hopen
        (by simpa only [Function.update_self] using hafter) hblocks
      refine ⟨⟨block, replies⟩ :: chunks, by rw [List.map_cons, hbytes], max first second, ?_⟩
      intro operations hoperations
      obtain ⟨t, ht⟩ := hread operations (le_of_max_le_right hoperations)
      refine ⟨t, ?_⟩
      unfold TableServer.readLoop
      rw [if_neg hopen]
      simp only [hreceive operations (le_of_max_le_left hoperations), if_pos h.tables.running]
      exact ht

end Read

/-! ### Any step -/

section Steps

variable {host : Endian} {brotli : Brotli} {type : CompressionType} {data : Nat → UInt8}
  {s t : TableServer}

theorem Tidy.init (reactors : Nat) : Tidy (TableServer.init type data reactors) where
  tables := .init reactors
  channels := by
    intro fd connection hchannel
    cases hchannel

/-- A connection is accepted, with a new channel. -/
theorem Tidy.accept
    (h : Tidy s)
    (fd : Nat)
    (hreactors : 0 < s.tables.reactors) :
    Tidy (s.accept type data fd) := by
  obtain ⟨hended, htables⟩ := h.tables.accept fd hreactors
  rw [TableServer.accept]
  simp only [if_pos hended]
  refine ⟨htables, ?_⟩
  intro other connection hchannel
  by_cases heq : connection = s.tables.accepted
  · subst heq
    simp only [Function.update_self]
    exact ⟨[], Buffer.init_holds data (by decide), by decide, rfl, rfl⟩
  · simp only [Function.update_of_ne heq]
    simp only [TcpServer.register, TcpServer.addFd_channels] at hchannel
    by_cases hother : other = fd
    · subst hother
      rw [Function.update_self] at hchannel
      exact absurd (Option.some.inj (Option.some.inj hchannel)).symm heq
    · rw [Function.update_of_ne hother] at hchannel
      exact h.channels other connection hchannel

/-- On an open descriptor, `read_data` is its loop on the channel. -/
theorem Tidy.readData
    {fd operations : Nat}
    {chunks : List Chunk}
    {ending : ReadEnd}
    (h : Tidy s)
    (hopen : s.tables.connection fd ≠ none)
    (hread : s.readData host brotli operations fd chunks ending = some t) :
    (Digestible host brotli (s.buffered fd) chunks → Tidy t) ∧
      (t.tables.ended = none → Digestible host brotli (s.buffered fd) chunks) := by
  obtain ⟨connection, hchannel, hlookup⟩ := h.tables.lookup hopen
  obtain ⟨content, hdrained⟩ := h.channels fd connection hchannel
  have hbuffered : s.buffered fd = content := by
    rw [TableServer.buffered, hchannel]
    exact hdrained.holds.content
  rw [TableServer.readData, hlookup] at hread
  rw [hbuffered]
  exact h.readLoop_iff hopen hdrained hread

/-- **Every step that meets the condition keeps the tables consistent.** -/
theorem Tidy.step
    {e : TableEvent}
    (h : Tidy s)
    (hok : OnOpenFd host brotli s e)
    (hstep : s.step host brotli type data e = some t) :
    Tidy t := by
  unfold TableServer.step at hstep
  rw [if_pos h.tables.running] at hstep
  cases e with
  | accept fd =>
      simp only [Option.ite_none_right_eq_some, Option.some.injEq] at hstep
      obtain ⟨-, rfl⟩ := hstep
      exact h.accept fd hok
  | acceptFails => cases hok
  | readData fd chunks ending operations => exact (h.readData hok.1 hstep).1 hok.2
  | sendMessage fd outcome =>
      cases hstep
      rw [h.tables.sendMessage_eq hok]
      by_cases hfailed : outcome = .failed
      · rw [if_pos hfailed]
        exact h.closeConnection hok
      · rw [if_neg hfailed]
        exact h
  | closeConnection fd =>
      cases hstep
      exact h.closeConnection hok

end Steps

end Core
end ZeroRPC
