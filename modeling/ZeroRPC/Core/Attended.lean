import ZeroRPC.Core.Readers
import ZeroRPC.Library.Holders

/-!
# What has arrived is seen to

A descriptor is reported readable once for what has arrived, and a task that finds the
socket empty reads no more.  A task that finds less than a frame in the buffer, or no
message in the queue, goes on to the next part of `parse_message` and returns.  Each of
these tests may be out of date when the task acts on it, whichever other tasks there are.

Main facts:
* `Connection.step_moves`: what a step of a connection can be;
* `Attends.parse`: what an operation of `parse_message` leaves to be done is left to the
  task itself or to one that had it to do before;
* `Attended.step`: every step of every interleaving keeps this, cutting in or not;
* `nothing_unattended`: so with no report pending and no task under way, nothing that has
  arrived is unread, unparsed or not handed over, but for the beginning of a frame.
-/

namespace ZeroRPC
namespace Core

open Library

namespace Connection

/-- What a step can be. -/
inductive Moves (host : Endian) (brotli : Brotli) (s : Connection) :
    ConnectionEvent → Connection → Prop
  | arrive {n : Nat} :
      Moves host brotli s (.arrive n)
        { s with
          wire := s.wire.drop n
          socket := s.socket ++ s.wire.take n
          ready := true }
  | modify : Moves host brotli s .modify { s with ready := true }
  | dispatch {t : Nat} (ht : s.tasks t = .absent) :
      Moves host brotli s (.dispatch t)
        { s with ready := false, tasks := Function.update s.tasks t .reading }
  | readNone {t n : Nat} (ht : s.tasks t = .reading) (hempty : s.socket = []) :
      Moves host brotli s (.advance t n)
        { s with tasks := Function.update s.tasks t (.parsing .head true) }
  | read {t n : Nat} (ht : s.tasks t = .reading) :
      Moves host brotli s (.advance t n)
        { s with
          socket := s.socket.drop n
          tasks := Function.update s.tasks t (.enqueuing (s.socket.take n))
          readOrder := s.readOrder ++ [(t, s.socket.take n)] }
  | enqueue {t n : Nat} {chunk : Bytes} {buffer : Buffer UInt8 BUFFER_SIZE}
      (ht : s.tasks t = .enqueuing chunk)
      (hbuffer : s.channel.readBuffer.enqueue chunk = .ok buffer) :
      Moves host brotli s (.advance t n)
        { s with
          channel := { s.channel with readBuffer := buffer }
          tasks := Function.update s.tasks t (.parsing .head false)
          readOrder := leave t s.readOrder }
  | parse {t n : Nat} {point : Point} {last : Bool} {p : Parsed}
      (ht : s.tasks t = .parsing point last)
      (hp : parseStep host brotli true s.channel point = .ok p) :
      Moves host brotli s (.advance t n)
        (reorder t point p.point
          { s with
            channel := p.channel
            tasks := Function.update s.tasks t (proceed p.point last)
            pushed := s.pushed ++ p.pushed
            handed := s.handed ++ p.handed })
  | throws {t n : Nat} {e : Fault} :
      Moves host brotli s (.advance t n) { s with ended := some e }
  | hangUp {t : Nat} (ht : s.tasks t = .reading) (hempty : s.socket = []) :
      Moves host brotli s (.hangUp t)
        { s with tasks := Function.update s.tasks t .finished }

theorem advance_moves
    {host : Endian}
    {brotli : Brotli}
    {s s' : Connection}
    {t n : Nat}
    (h : s.advance host brotli t n = some s') :
    Moves host brotli s (.advance t n) s' := by
  cases ht : s.tasks t with
  | absent =>
      simp only [advance, ht] at h
      cases h
  | finished =>
      simp only [advance, ht] at h
      cases h
  | reading =>
      simp only [advance, ht] at h
      by_cases hempty : s.socket = []
      · rw [if_pos hempty] at h
        cases h
        exact .readNone ht hempty
      · simp only [if_neg hempty, Option.ite_none_right_eq_some, Option.some.injEq] at h
        obtain ⟨-, rfl⟩ := h
        exact .read ht
  | enqueuing chunk =>
      simp only [advance, ht] at h
      cases hbuffer : s.channel.readBuffer.enqueue chunk with
      | error e =>
          rw [hbuffer] at h
          cases h
          exact .throws
      | ok buffer =>
          rw [hbuffer] at h
          cases h
          exact .enqueue ht hbuffer
  | parsing point last =>
      simp only [advance, ht] at h
      cases hp : parseStep host brotli true s.channel point with
      | error e =>
          rw [hp] at h
          cases h
          exact .throws
      | ok p =>
          rw [hp] at h
          cases h
          exact .parse ht hp

theorem step_moves
    {host : Endian}
    {brotli : Brotli}
    {s s' : Connection}
    {e : ConnectionEvent}
    (h : step host brotli s e = some s') :
    s.ended = none ∧ Moves host brotli s e s' := by
  simp only [step, Option.ite_none_left_eq_some] at h
  obtain ⟨hended, h⟩ := h
  refine ⟨not_not.mp hended, ?_⟩
  cases e with
  | arrive n =>
      simp only [Option.ite_none_right_eq_some, Option.some.injEq] at h
      obtain ⟨-, rfl⟩ := h
      exact .arrive
  | modify =>
      simp only [Option.ite_none_left_eq_some, Option.some.injEq] at h
      obtain ⟨-, rfl⟩ := h
      exact .modify
  | dispatch t =>
      simp only [Option.ite_none_right_eq_some, Option.some.injEq] at h
      obtain ⟨⟨-, ht⟩, rfl⟩ := h
      exact .dispatch ht
  | advance t n => exact advance_moves h
  | hangUp t =>
      simp only [Option.ite_none_right_eq_some, Option.some.injEq] at h
      obtain ⟨⟨ht, hempty, -⟩, rfl⟩ := h
      exact .hangUp ht hempty

/-- The orders are not what the rest of the state depends on. -/
theorem reorder_rest (t : Nat) (before after : Point) (s : Connection) :
    (reorder t before after s).channel = s.channel ∧
      (reorder t before after s).tasks = s.tasks ∧
      (reorder t before after s).socket = s.socket ∧
      (reorder t before after s).ready = s.ready ∧
      (reorder t before after s).readOrder = s.readOrder ∧
      (reorder t before after s).ended = s.ended ∧
      (reorder t before after s).wire = s.wire ∧
      (reorder t before after s).handed = s.handed := by
  unfold reorder
  split <;> exact ⟨rfl, rfl, rfl, rfl, rfl, rfl, rfl, rfl⟩

end Connection

/-! ### Who sees to what -/

/-- In the loop of `parse_message` that takes frames. -/
def Point.looping : Point → Bool
  | .drain => false
  | .pop => false
  | .handOver _ => false
  | .returned => false
  | _ => true

/-- About to look at the length that is noted, or about to clear it. -/
def Point.minds : Point → Bool
  | .head => true
  | .sizeBody => true
  | .takeBody => true
  | .clearLength _ => true
  | _ => false

/-- Still to find the queue empty. -/
def Point.runs : Point → Bool
  | .returned => false
  | _ => true

/-- At such a point of `parse_message`. -/
def Task.at (good : Point → Bool) : Task → Bool
  | .parsing point _ => good point
  | _ => false

/-- Still to find the socket empty. -/
def Task.willRead : Task → Bool
  | .reading => true
  | .enqueuing _ => true
  | .parsing _ last => !last
  | _ => false

/-- A task in one of these states is at work or has work to do. -/
def Task.underWay : Task → Bool
  | .absent => false
  | .finished => false
  | _ => true

/-- After an operation there is a need only if the task sees to it, or there was a need
before and the task sees to it if it did. -/
def Handles (needs : SocketChannel → Prop) (good : Point → Bool) : Prop :=
  ∀ host brotli onReadMessage channel point p,
    ParseMoves host brotli onReadMessage channel point p → needs p.channel →
      good p.point = true ∨ (needs channel ∧ (good point = true → good p.point = true))

/-- A length that is noted is looked at again. -/
theorem handles_noted :
    Handles (fun channel => channel.readBufferLength ≠ 0) Point.minds := by
  intro host brotli onReadMessage channel point p hmoves hneeds
  cases hmoves with
  | storeLength _ => exact .inl rfl
  | noLength hzero => exact absurd hzero hneeds
  | noted _ => exact .inl rfl
  | wholeBody _ => exact .inl rfl
  | startOver _ => exact .inl rfl
  | takeBody _ => exact .inl rfl
  | pushMessage _ => exact .inl rfl
  | clearLength => exact absurd rfl hneeds
  | _ => exact .inr ⟨hneeds, fun hminds => by cases hminds⟩

/-- More than a header in the buffer is found by the loop. -/
theorem handles_buffered :
    Handles (fun channel => HEAD_LENGTH < channel.readBuffer.size) Point.looping := by
  intro host brotli onReadMessage channel point p hmoves hneeds
  cases hmoves with
  | noHeader hless => exact absurd hneeds (Nat.not_lt_of_le hless)
  | testEmpty _ => exact .inr ⟨hneeds, fun hloops => by cases hloops⟩
  | testFound _ => exact .inr ⟨hneeds, fun hloops => by cases hloops⟩
  | pop _ => exact .inr ⟨hneeds, fun hloops => by cases hloops⟩
  | handOver => exact .inr ⟨hneeds, fun hloops => by cases hloops⟩
  | returned => exact .inr ⟨hneeds, fun hloops => hloops⟩
  | _ => exact .inl rfl

/-- A message in the queue is found before the call returns. -/
theorem handles_queued :
    Handles (fun channel => channel.readMessages ≠ []) Point.runs := by
  intro host brotli onReadMessage channel point p hmoves hneeds
  cases hmoves with
  | testEmpty hempty => exact absurd hempty hneeds
  | returned => exact .inr ⟨hneeds, fun hruns => hruns⟩
  | _ => exact .inl rfl

/-- What the channel needs done is seen to. -/
def Attends (needs : SocketChannel → Prop) (good : Point → Bool) (s : Connection) : Prop :=
  needs s.channel → SeenTo (Task.at good) s.tasks

section Attends

variable {needs : SocketChannel → Prop} {good : Point → Bool} {s : Connection} {t : Nat}

theorem proceed_at
    {point : Point}
    (last : Bool)
    (hreturned : good .returned = false)
    (h : good point = true) :
    (Connection.proceed point last).at good = true := by
  have hne : point ≠ .returned := by
    rintro rfl
    rw [hreturned] at h
    cases h
  rw [Connection.proceed, if_neg hne]
  exact h

/-- A task that is not parsing goes on. -/
theorem Attends.move
    {task : Task}
    (h : Attends needs good s)
    (ht : (s.tasks t).at good = false) :
    needs s.channel → SeenTo (Task.at good) (Function.update s.tasks t task) := by
  intro hneeds
  refine (h hneeds).update ?_
  intro hgood
  rw [ht] at hgood
  cases hgood

/-- An operation of `parse_message`. -/
theorem Attends.parse
    {host : Endian}
    {brotli : Brotli}
    {point : Point}
    {last : Bool}
    {p : Parsed}
    (hhandles : Handles needs good)
    (hreturned : good .returned = false)
    (h : Attends needs good s)
    (ht : s.tasks t = .parsing point last)
    (hp : parseStep host brotli true s.channel point = .ok p) :
    needs p.channel →
      SeenTo (Task.at good) (Function.update s.tasks t (Connection.proceed p.point last)) := by
  intro hneeds
  rcases hhandles host brotli true s.channel point p (parseStep_moves hp) hneeds with
    hself | ⟨hbefore, hkeep⟩
  · exact .self (proceed_at last hreturned hself)
  · refine (h hbefore).update ?_
    intro hgood
    rw [ht] at hgood
    exact proceed_at last hreturned (hkeep hgood)

end Attends

/-! ### The invariant -/

/-- The chunk a task has read and not enqueued. -/
def Task.chunk? : Task → Option Bytes
  | .enqueuing chunk => some chunk
  | _ => none

/-- The body a task has dequeued and not pushed. -/
def Task.body? : Task → Option Bytes
  | .parsing (.clearLength body) _ => some body
  | .parsing (.pushMessage body) _ => some body
  | _ => none

/-- The message a task has popped and not handed over. -/
def Task.message? : Task → Option Bytes
  | .parsing (.handOver message) _ => some message
  | _ => none

/-- Whatever has arrived is seen to, and what the tasks hold is in the orders. -/
structure Attended (s : Connection) : Prop where
  unread : s.socket ≠ [] → s.ready = true ∨ SeenTo Task.willRead s.tasks
  noted : Attends (fun channel => channel.readBufferLength ≠ 0) Point.minds s
  buffered : Attends (fun channel => HEAD_LENGTH < channel.readBuffer.size) Point.looping s
  queued : Attends (fun channel => channel.readMessages ≠ []) Point.runs s
  reads : Holders Task.chunk? s.tasks s.readOrder
  takes : Holders Task.body? s.tasks s.takeOrder
  pops : Holders Task.message? s.tasks s.popOrder

theorem attended_init (type : CompressionType) (data : Nat → UInt8) (stream : Bytes) :
    Attended (Connection.init type data stream) where
  unread := fun h => absurd rfl h
  noted := fun h => absurd rfl h
  buffered := fun h => absurd h (Nat.not_lt_zero _)
  queued := fun h => absurd rfl h
  reads := .nil fun _ => rfl
  takes := .nil fun _ => rfl
  pops := .nil fun _ => rfl

section Steps

variable {host : Endian} {brotli : Brotli} {s s' : Connection} {t : Nat} {task : Task}

/-- A task that holds nothing and is not parsing goes on to such a state. -/
theorem Attended.move
    {ready : Bool}
    (h : Attended s)
    (hbefore : ∀ good, (s.tasks t).at good = false)
    (hchunk : task.chunk? = (s.tasks t).chunk?)
    (hbody : task.body? = (s.tasks t).body?)
    (hmessage : task.message? = (s.tasks t).message?)
    (hunread : s.socket ≠ [] →
      ready = true ∨ SeenTo Task.willRead (Function.update s.tasks t task)) :
    Attended { s with ready := ready, tasks := Function.update s.tasks t task } where
  unread := hunread
  noted := h.noted.move (hbefore _)
  buffered := h.buffered.move (hbefore _)
  queued := h.queued.move (hbefore _)
  reads := h.reads.keep hchunk
  takes := h.takes.keep hbody
  pops := h.pops.keep hmessage

theorem Attended.read
    {n : Nat}
    (h : Attended s)
    (ht : s.tasks t = .reading) :
    Attended
      { s with
        socket := s.socket.drop n
        tasks := Function.update s.tasks t (.enqueuing (s.socket.take n))
        readOrder := s.readOrder ++ [(t, s.socket.take n)] } where
  unread := fun _ => .inr (.self rfl)
  noted := h.noted.move (by rw [ht]; rfl)
  buffered := h.buffered.move (by rw [ht]; rfl)
  queued := h.queued.move (by rw [ht]; rfl)
  reads := h.reads.add (by rw [ht]; rfl) rfl
  takes := h.takes.keep (by rw [ht]; rfl)
  pops := h.pops.keep (by rw [ht]; rfl)

/-- The task that enqueued a chunk parses next. -/
theorem Attended.enqueue
    {chunk : Bytes}
    {buffer : Buffer UInt8 BUFFER_SIZE}
    (h : Attended s)
    (ht : s.tasks t = .enqueuing chunk) :
    Attended
      { s with
        channel := { s.channel with readBuffer := buffer }
        tasks := Function.update s.tasks t (.parsing .head false)
        readOrder := leave t s.readOrder } where
  unread := fun _ => .inr (.self rfl)
  noted := fun _ => .self rfl
  buffered := fun _ => .self rfl
  queued := fun _ => .self rfl
  reads := h.reads.remove rfl
  takes := h.takes.keep (by rw [ht]; rfl)
  pops := h.pops.keep (by rw [ht]; rfl)

/-- The orders of bodies and messages after an operation. -/
theorem Attended.orders
    {point : Point}
    {last : Bool}
    {p : Parsed}
    (h : Attended s)
    (ht : s.tasks t = .parsing point last)
    (hp : parseStep host brotli true s.channel point = .ok p) :
    let after := Connection.reorder t point p.point
      { s with
        channel := p.channel
        tasks := Function.update s.tasks t (Connection.proceed p.point last)
        pushed := s.pushed ++ p.pushed
        handed := s.handed ++ p.handed }
    Holders Task.body? after.tasks after.takeOrder ∧
      Holders Task.message? after.tasks after.popOrder := by
  intro after
  have hmoves := parseStep_moves hp
  -- what the task holds before and after decides which order changes
  cases hmoves with
  | takeBody _ => exact ⟨h.takes.add (by rw [ht]; rfl) rfl, h.pops.keep (by rw [ht]; rfl)⟩
  | clearLength => exact ⟨h.takes.keep (by rw [ht]; rfl), h.pops.keep (by rw [ht]; rfl)⟩
  | pushMessage _ => exact ⟨h.takes.remove rfl, h.pops.keep (by rw [ht]; rfl)⟩
  | pop _ => exact ⟨h.takes.keep (by rw [ht]; rfl), h.pops.add (by rw [ht]; rfl) rfl⟩
  | handOver => exact ⟨h.takes.keep (by rw [ht]; rfl), h.pops.remove rfl⟩
  | testEmpty _ =>
      refine ⟨h.takes.keep ?_, h.pops.keep ?_⟩
      all_goals rw [ht]; cases last <;> rfl
  | returned =>
      refine ⟨h.takes.keep ?_, h.pops.keep ?_⟩
      all_goals rw [ht]; cases last <;> rfl
  | _ => exact ⟨h.takes.keep (by rw [ht]; rfl), h.pops.keep (by rw [ht]; rfl)⟩

theorem Attended.parse
    {point : Point}
    {last : Bool}
    {p : Parsed}
    (h : Attended s)
    (ht : s.tasks t = .parsing point last)
    (hp : parseStep host brotli true s.channel point = .ok p) :
    Attended (Connection.reorder t point p.point
      { s with
        channel := p.channel
        tasks := Function.update s.tasks t (Connection.proceed p.point last)
        pushed := s.pushed ++ p.pushed
        handed := s.handed ++ p.handed }) := by
  obtain ⟨htakes, hpops⟩ := h.orders ht hp
  obtain ⟨hchannel, htasks, hsocket, hready, hreads, -⟩ :=
    Connection.reorder_rest t point p.point
      { s with
        channel := p.channel
        tasks := Function.update s.tasks t (Connection.proceed p.point last)
        pushed := s.pushed ++ p.pushed
        handed := s.handed ++ p.handed }
  have hchunk : (Connection.proceed p.point last).chunk? = (s.tasks t).chunk? := by
    rw [ht, Connection.proceed]
    split
    · cases last <;> rfl
    · rfl
  refine ⟨?_, ?_, ?_, ?_, ?_, htakes, hpops⟩
  · rw [hsocket, hready, htasks]
    intro hne
    refine (h.unread hne).imp id fun hseen => hseen.update ?_
    intro hreads
    rw [ht] at hreads
    rw [Connection.proceed]
    cases last with
    | true => cases hreads
    | false => split <;> rfl
  · rw [Attends, hchannel, htasks]
    exact h.noted.parse handles_noted rfl ht hp
  · rw [Attends, hchannel, htasks]
    exact h.buffered.parse handles_buffered rfl ht hp
  · rw [Attends, hchannel, htasks]
    exact h.queued.parse handles_queued rfl ht hp
  · rw [hreads, htasks]
    exact h.reads.keep hchunk

/-- **Every step keeps it, whatever it cuts into.** -/
theorem Attended.step
    {e : ConnectionEvent}
    (h : Attended s)
    (hstep : Connection.step host brotli s e = some s') :
    Attended s' := by
  obtain ⟨-, hmoves⟩ := Connection.step_moves hstep
  cases hmoves with
  | arrive =>
      exact ⟨fun _ => .inl rfl, h.noted, h.buffered, h.queued, h.reads, h.takes, h.pops⟩
  | modify =>
      exact ⟨fun _ => .inl rfl, h.noted, h.buffered, h.queued, h.reads, h.takes, h.pops⟩
  | dispatch ht =>
      refine h.move ?_ ?_ ?_ ?_ fun _ => .inr (.self rfl)
      · intro good
        rw [ht]
        rfl
      all_goals rw [ht]; rfl
  | readNone ht hempty =>
      refine h.move ?_ ?_ ?_ ?_ fun hne => absurd hempty hne
      · intro good
        rw [ht]
        rfl
      all_goals rw [ht]; rfl
  | read ht => exact h.read ht
  | enqueue ht _ => exact h.enqueue ht
  | parse ht hp => exact h.parse ht hp
  | throws => exact ⟨h.unread, h.noted, h.buffered, h.queued, h.reads, h.takes, h.pops⟩
  | hangUp ht hempty =>
      refine h.move ?_ ?_ ?_ ?_ fun hne => absurd hempty hne
      · intro good
        rw [ht]
        rfl
      all_goals rw [ht]; rfl

end Steps

/-! ### At rest -/

section Rest

variable {s : Connection}

/-- No task is under way and no report is pending. -/
def Idle (s : Connection) : Prop :=
  s.ready = false ∧ ∀ t, (s.tasks t).underWay = false

/-- With no task under way nobody sees to anything or holds anything. -/
theorem Idle.none
    {good : Task → Bool}
    (h : Idle s)
    (hgood : ∀ task : Task, good task = true → task.underWay = true) :
    ∀ t, good (s.tasks t) = false := by
  intro t
  cases hseen : good (s.tasks t) with
  | false => rfl
  | true =>
      have hway := hgood _ hseen
      rw [h.2 t] at hway
      cases hway

theorem Idle.holdsNone
    {holds : Task → Option Bytes}
    (h : Idle s)
    (hholds : ∀ task : Task, task.underWay = false → holds task = Option.none) :
    ∀ t, holds (s.tasks t) = Option.none :=
  fun t => hholds _ (h.2 t)

theorem at_underWay
    (good : Point → Bool)
    (task : Task)
    (h : task.at good = true) :
    task.underWay = true := by
  cases task with
  | parsing point last => rfl
  | _ => cases h

theorem willRead_underWay
    (task : Task)
    (h : task.willRead = true) :
    task.underWay = true := by
  cases task with
  | absent => cases h
  | finished => cases h
  | _ => rfl

/-- At rest everything that has arrived was read and parsed, but for less than a header and
a byte, and handed over. -/
structure AllDone (s : Connection) : Prop where
  socket : s.socket = []
  length : s.channel.readBufferLength = 0
  buffer : s.channel.readBuffer.size ≤ HEAD_LENGTH
  messages : s.channel.readMessages = []
  reads : s.readOrder = []
  takes : s.takeOrder = []
  pops : s.popOrder = []

theorem Attended.allDone
    (h : Attended s)
    (hidle : Idle s) :
    AllDone s where
  socket := by
    by_contra hne
    rcases h.unread hne with hready | hseen
    · rw [hidle.1] at hready
      cases hready
    · exact SeenTo.not_of_none (hidle.none willRead_underWay) hseen
  length := by
    by_contra hne
    exact SeenTo.not_of_none (hidle.none (at_underWay _)) (h.noted hne)
  buffer := by
    by_contra hmore
    exact SeenTo.not_of_none (hidle.none (at_underWay _)) (h.buffered (Nat.lt_of_not_le hmore))
  messages := by
    by_contra hne
    exact SeenTo.not_of_none (hidle.none (at_underWay _)) (h.queued hne)
  reads := by
    refine h.reads.eq_nil (hidle.holdsNone ?_)
    intro task htask
    cases task with
    | enqueuing chunk => cases htask
    | _ => rfl
  takes := by
    refine h.takes.eq_nil (hidle.holdsNone ?_)
    intro task htask
    cases task with
    | parsing point last => cases htask
    | _ => rfl
  pops := by
    refine h.pops.eq_nil (hidle.holdsNone ?_)
    intro task htask
    cases task with
    | parsing point last => cases htask
    | _ => rfl

end Rest

/-- **Nothing that has arrived is left behind**, however the tasks cut into one another,
as long as none of them throws. -/
theorem nothing_unattended
    (host : Endian)
    (brotli : Brotli)
    (type : CompressionType)
    (data : Nat → UInt8)
    (stream : Bytes)
    (s : Connection)
    (h : (Connection.system host brotli type data stream).Reachable System.anyStep s) :
    (s.socket ≠ [] → s.ready = true ∨ ∃ t, (s.tasks t).willRead = true) ∧
      (Idle s → AllDone s) := by
  have hattended : Attended s :=
    h.invariant (attended_init type data stream) fun _ _ _ hs _ hstep => hs.step hstep
  exact ⟨hattended.unread, hattended.allDone⟩

/-! ### A run -/

/-- The second task overtakes the first one, and both go on to the end. -/
def overtaking : List ConnectionEvent :=
  [.arrive 7, .dispatch 0, .advance 0 7, .arrive 8, .dispatch 1, .advance 1 8] ++
    List.replicate 19 (.advance 1 0) ++ List.replicate 19 (.advance 0 0)

def overtaken : Connection := (twoReaders.run overtaking).getD twoReaders.init

theorem overtaken_idle : Idle overtaken := by
  refine ⟨rfl, ?_⟩
  intro t
  rcases t with _ | _ | t <;> rfl

theorem overtaken_done :
    overtaken.handed = [parting.plain, greeting.plain] ∧ AllDone overtaken := by
  have hreachable : twoReaders.Reachable System.anyStep overtaken :=
    System.run_reachable (show twoReaders.run overtaking = some overtaken from rfl)
  exact ⟨rfl, (nothing_unattended .little .identity .none (fun _ => 0)
    (wire .little [greeting, parting]) overtaken hreachable).2 overtaken_idle⟩

end Core
end ZeroRPC
