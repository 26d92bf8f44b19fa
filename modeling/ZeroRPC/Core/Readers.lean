import ZeroRPC.Core.Reassembly

/-!
# Several readers of one connection

The sub-reactor commits a task `read_data(fd)` whenever the descriptor is reported
readable.  Reports are edge-triggered, and nothing waits for a task to end, so several
tasks may stand in the same channel.  Each operation on the socket and each locked
operation on the buffer and the queue is one step; what lies between two of them is
not locked.

An exception that leaves a task ends the process; after an operation the language does
not define, nothing can be said about it.

Main facts:
* `Orderly`: the steps that do not cut into what another task has begun;
* `Reading.step`: such a step keeps the line of frames;
* `readers_in_order`: in a run of such steps the messages come in order, once each;
* `two_readers_not_in_order`: two tasks that read one chunk each can hand over the
  second message first.
-/

namespace ZeroRPC
namespace Core

open Library

/-- Where a `read_data` task stands; `last` is set in the `parse_message` after the
loop. -/
inductive Task
  | absent
  | reading
  | enqueuing (chunk : Bytes)
  | parsing (point : Point) (last : Bool)
  | finished
deriving DecidableEq

/-- One descriptor of the server, what the client has sent on it, and its tasks.  The
order in which chunks were read, bodies dequeued and messages popped is kept for the
statements, as are the messages pushed and handed over. -/
structure Connection where
  channel : SocketChannel
  wire : Bytes
  socket : Bytes
  ready : Bool
  tasks : Nat → Task
  ended : Option Fault
  readOrder : List (Nat × Bytes)
  takeOrder : List (Nat × Bytes)
  popOrder : List (Nat × Bytes)
  pushed : List Bytes
  handed : List Bytes

inductive ConnectionEvent
  | arrive (n : Nat)
  | modify
  | dispatch (t : Nat)
  | advance (t n : Nat)
  | hangUp (t : Nat)

/-- The entry of a task, and what it holds, leave an order. -/
def leave (t : Nat) (order : List (Nat × Bytes)) : List (Nat × Bytes) :=
  order.eraseP fun entry => entry.1 = t

namespace Connection

def init (type : CompressionType) (data : Nat → UInt8) (stream : Bytes) : Connection where
  channel := .init type data
  wire := stream
  socket := []
  ready := false
  tasks := fun _ => .absent
  ended := none
  readOrder := []
  takeOrder := []
  popOrder := []
  pushed := []
  handed := []

/-- What `read_data` does after an operation of `parse_message`. -/
def proceed (point : Point) (last : Bool) : Task :=
  if point = .returned then
    if last then .finished else .reading
  else
    .parsing point last

/-- The orders after an operation of `parse_message`. -/
def reorder (t : Nat) (before after : Point) (s : Connection) : Connection :=
  match before, after with
  | .takeBody, .clearLength body => { s with takeOrder := s.takeOrder ++ [(t, body)] }
  | .pushMessage _, _ => { s with takeOrder := leave t s.takeOrder }
  | .pop, .handOver message => { s with popOrder := s.popOrder ++ [(t, message)] }
  | .handOver _, _ => { s with popOrder := leave t s.popOrder }
  | _, _ => s

/-- The next step of a task: a `read` of at most `n` bytes, an `enqueue`, or an
operation of `parse_message`. -/
def advance (host : Endian) (brotli : Brotli) (s : Connection) (t n : Nat) :
    Option Connection :=
  match s.tasks t with
  | .absent => none
  | .finished => none
  | .reading =>
      if s.socket = [] then
        some { s with tasks := Function.update s.tasks t (.parsing .head true) }
      else if 0 < n ∧ n ≤ min BUFFER_SIZE s.socket.length then
        some { s with
          socket := s.socket.drop n
          tasks := Function.update s.tasks t (.enqueuing (s.socket.take n))
          readOrder := s.readOrder ++ [(t, s.socket.take n)] }
      else
        none
  | .enqueuing chunk =>
      match s.channel.readBuffer.enqueue chunk with
      | .error e => some { s with ended := some e }
      | .ok buffer =>
          some { s with
            channel := { s.channel with readBuffer := buffer }
            tasks := Function.update s.tasks t (.parsing .head false)
            readOrder := leave t s.readOrder }
  | .parsing point last =>
      match parseStep host brotli true s.channel point with
      | .error e => some { s with ended := some e }
      | .ok p =>
          some (reorder t point p.point
            { s with
              channel := p.channel
              tasks := Function.update s.tasks t (proceed p.point last)
              pushed := s.pushed ++ p.pushed
              handed := s.handed ++ p.handed })

/-- Bytes arrive and are reported, once; `modify_fd` has them reported again; a report
becomes a task; a task goes on, or finds the connection closed. -/
def step (host : Endian) (brotli : Brotli) (s : Connection) (e : ConnectionEvent) :
    Option Connection :=
  if s.ended ≠ none then
    none
  else
    match e with
    | .arrive n =>
        if 0 < n ∧ n ≤ s.wire.length then
          some { s with
            wire := s.wire.drop n
            socket := s.socket ++ s.wire.take n
            ready := true }
        else
          none
    | .modify => if s.socket = [] then none else some { s with ready := true }
    | .dispatch t =>
        if s.ready ∧ s.tasks t = .absent then
          some { s with ready := false, tasks := Function.update s.tasks t .reading }
        else
          none
    | .advance t n => s.advance host brotli t n
    | .hangUp t =>
        if s.tasks t = .reading ∧ s.socket = [] ∧ s.wire = [] then
          some { s with tasks := Function.update s.tasks t .finished }
        else
          none

def system (host : Endian) (brotli : Brotli) (type : CompressionType) (data : Nat → UInt8)
    (stream : Bytes) : System Connection ConnectionEvent where
  init := init type data stream
  step := step host brotli

end Connection

/-! ### Steps that do not cut in -/

/-- Between a `dequeue` and the assignment to `_read_buffer_length` that goes with it. -/
def Task.claims : Task → Bool
  | .parsing (.storeLength _) _ => true
  | .parsing (.clearLength _) _ => true
  | _ => false

/-- A chunk is enqueued after those read before it; a header is taken while no length is
noted, a body while one is, and either while no task is about to note a length; bodies
are pushed, and messages handed over, in the order they were taken; nothing is popped
from an empty queue. -/
def Orderly (s : Connection) : ConnectionEvent → Prop
  | .advance t _ =>
      match s.tasks t with
      | .enqueuing chunk => s.readOrder.head? = some (t, chunk)
      | .parsing .takeHeader _ =>
          s.channel.readBufferLength = 0 ∧ ∀ u, (s.tasks u).claims = false
      | .parsing .takeBody _ =>
          s.channel.readBufferLength ≠ 0 ∧ ∀ u, (s.tasks u).claims = false
      | .parsing (.pushMessage body) _ => s.takeOrder.head? = some (t, body)
      | .parsing .pop _ => s.channel.readMessages ≠ []
      | .parsing (.handOver message) _ => s.popOrder.head? = some (t, message)
      | _ => True
  | _ => True

/-- At most one task is about to note a length. -/
inductive Claims (tasks : Nat → Task) : Hand UInt8 → Prop
  | none (h : ∀ u, (tasks u).claims = false) : Claims tasks .empty
  | header {t : Nat} {temp : Bytes} {last : Bool}
      (ht : tasks t = .parsing (.storeLength temp) last)
      (h : ∀ u, u ≠ t → (tasks u).claims = false) : Claims tasks (.header temp)
  | body {t : Nat} {body : Bytes} {last : Bool}
      (ht : tasks t = .parsing (.clearLength body) last)
      (h : ∀ u, u ≠ t → (tasks u).claims = false) : Claims tasks .body

namespace Claims

variable {tasks : Nat → Task} {hand : Hand UInt8} {t : Nat} {task : Task}

theorem eq_empty
    (h : Claims tasks hand)
    (hnone : ∀ u, (tasks u).claims = false) :
    hand = .empty := by
  cases h with
  | none => rfl
  | @header t temp last ht _ =>
      have := hnone t
      rw [ht] at this
      cases this
  | @body t b last ht _ =>
      have := hnone t
      rw [ht] at this
      cases this

theorem update_others
    (h : ∀ u, u ≠ t → (tasks u).claims = false) :
    ∀ u, u ≠ t → ((Function.update tasks t task) u).claims = false := by
  intro u hu
  rw [Function.update_of_ne hu]
  exact h u hu

/-- A task that claims nothing before and after a step leaves the claims alone. -/
theorem keep
    (h : Claims tasks hand)
    (hbefore : (tasks t).claims = false)
    (hafter : task.claims = false) :
    Claims (Function.update tasks t task) hand := by
  have hupdate : ∀ u, (tasks u).claims = false →
      ((Function.update tasks t task) u).claims = false := by
    intro u hu
    by_cases hut : u = t
    · subst hut
      rwa [Function.update_self]
    · rwa [Function.update_of_ne hut]
  cases h with
  | none h => exact .none fun u => hupdate u (h u)
  | @header v temp last hv h =>
      have hvt : v ≠ t := by
        rintro rfl
        rw [hv] at hbefore
        cases hbefore
      refine .header (t := v) (by rwa [Function.update_of_ne hvt]) ?_
      exact fun u hu => hupdate u (h u hu)
  | @body v b last hv h =>
      have hvt : v ≠ t := by
        rintro rfl
        rw [hv] at hbefore
        cases hbefore
      refine .body (t := v) (by rwa [Function.update_of_ne hvt]) ?_
      exact fun u hu => hupdate u (h u hu)

theorem claimHeader
    (hnone : ∀ u, (tasks u).claims = false)
    (temp : Bytes)
    (last : Bool) :
    Claims (Function.update tasks t (.parsing (.storeLength temp) last)) (.header temp) :=
  .header (t := t) (Function.update_self ..) (update_others fun u _ => hnone u)

theorem claimBody
    (hnone : ∀ u, (tasks u).claims = false)
    (body : Bytes)
    (last : Bool) :
    Claims (Function.update tasks t (.parsing (.clearLength body) last)) .body :=
  .body (t := t) (Function.update_self ..) (update_others fun u _ => hnone u)

theorem others_of_ne
    {u : Nat}
    (ht : (tasks t).claims = true)
    (h : ∀ v, v ≠ u → (tasks v).claims = false) :
    t = u := by
  by_contra hne
  rw [h t hne] at ht
  cases ht

/-- The one task that claims something is done with it. -/
theorem release
    (hothers : ∀ u, u ≠ t → (tasks u).claims = false)
    (hafter : task.claims = false) :
    Claims (Function.update tasks t task) .empty := by
  refine .none ?_
  intro u
  by_cases hut : u = t
  · subst hut
    rwa [Function.update_self]
  · rw [Function.update_of_ne hut]
    exact hothers u hut

theorem of_storeLength
    {temp : Bytes}
    {last : Bool}
    (h : Claims tasks hand)
    (ht : tasks t = .parsing (.storeLength temp) last) :
    hand = .header temp ∧ ∀ u, u ≠ t → (tasks u).claims = false := by
  have hclaims : (tasks t).claims = true := by rw [ht]; rfl
  cases h with
  | none h =>
      rw [h t] at hclaims
      cases hclaims
  | header hu h =>
      obtain rfl := others_of_ne hclaims h
      rw [ht] at hu
      cases hu
      exact ⟨rfl, h⟩
  | body hu h =>
      obtain rfl := others_of_ne hclaims h
      rw [ht] at hu
      cases hu

theorem of_clearLength
    {body : Bytes}
    {last : Bool}
    (h : Claims tasks hand)
    (ht : tasks t = .parsing (.clearLength body) last) :
    hand = .body ∧ ∀ u, u ≠ t → (tasks u).claims = false := by
  have hclaims : (tasks t).claims = true := by rw [ht]; rfl
  cases h with
  | none h =>
      rw [h t] at hclaims
      cases hclaims
  | header hu h =>
      obtain rfl := others_of_ne hclaims h
      rw [ht] at hu
      cases hu
  | body hu h =>
      obtain rfl := others_of_ne hclaims h
      exact ⟨rfl, h⟩

end Claims

theorem leave_cons
    (t : Nat)
    (held : Bytes)
    (order : List (Nat × Bytes)) :
    leave t ((t, held) :: order) = order := by
  simp [leave]

/-! ### The invariant -/

section Invariant

variable {sender receiver : Endian} {brotli : Brotli} {messages : List (Sent brotli)}

/-- The chunks that were read and not enqueued, and what is still to be read. -/
def Connection.upcoming (s : Connection) : Bytes :=
  (s.readOrder.map Prod.snd).flatten ++ (s.socket ++ s.wire)

/-- The line of frames, from the network to the callback. -/
structure Reading (sender : Endian) (messages : List (Sent brotli)) (s : Connection)
    (content : Bytes) : Prop where
  buffer : s.channel.readBuffer.Holds content
  line : ∃ hand, Claims s.tasks hand ∧
    Line (header sender) Sent.encoded Sent.plain messages hand s.channel.readBufferLength
      (content ++ s.upcoming) (s.takeOrder.map Prod.snd) s.pushed
  queue : s.pushed = s.handed ++ s.popOrder.map Prod.snd ++ s.channel.readMessages
  defined : s.ended ≠ some .undefined

theorem Reading.handed_prefix
    {s : Connection}
    {content : Bytes}
    (h : Reading sender messages s content) :
    s.handed <+: messages.map Sent.plain := by
  obtain ⟨hand, _, hline⟩ := h.line
  refine List.IsPrefix.trans ?_ hline.pushed_prefix
  rw [h.queue, List.append_assoc]
  exact List.prefix_append _ _

theorem reading_init
    (type : CompressionType)
    (data : Nat → UInt8) :
    Reading sender messages (Connection.init type data (wire sender messages)) [] where
  buffer := Buffer.init_holds data (by decide)
  line := by
    refine ⟨.empty, .none fun _ => rfl, ?_⟩
    rw [wire_eq]
    exact Line.init
  queue := rfl
  defined := by
    intro h
    cases h

/-- Nothing but a task changes, and that takes nothing. -/
theorem Reading.move
    {s : Connection}
    {content : Bytes}
    {t : Nat}
    (h : Reading sender messages s content)
    (hbefore : (s.tasks t).claims = false)
    (task : Task)
    (hafter : task.claims = false) :
    Reading sender messages { s with tasks := Function.update s.tasks t task } content := by
  obtain ⟨hbuffer, ⟨hand, hclaims, hline⟩, hqueue, hdefined⟩ := h
  exact ⟨hbuffer, ⟨hand, hclaims.keep hbefore hafter, hline⟩, hqueue, hdefined⟩

theorem Reading.arrive
    {s : Connection}
    {content : Bytes}
    {ready : Bool}
    (h : Reading sender messages s content)
    (n : Nat) :
    Reading sender messages
      { s with wire := s.wire.drop n, socket := s.socket ++ s.wire.take n, ready := ready }
      content := by
  obtain ⟨hbuffer, ⟨hand, hclaims, hline⟩, hqueue, hdefined⟩ := h
  refine ⟨hbuffer, ⟨hand, hclaims, ?_⟩, hqueue, hdefined⟩
  simpa [Connection.upcoming] using hline

theorem Reading.read
    {s : Connection}
    {content : Bytes}
    {t : Nat}
    (h : Reading sender messages s content)
    (ht : s.tasks t = .reading)
    (n : Nat) :
    Reading sender messages
      { s with
        socket := s.socket.drop n
        tasks := Function.update s.tasks t (.enqueuing (s.socket.take n))
        readOrder := s.readOrder ++ [(t, s.socket.take n)] }
      content := by
  have hbefore : (s.tasks t).claims = false := by rw [ht]; rfl
  obtain ⟨hbuffer, ⟨hand, hclaims, hline⟩, hqueue, hdefined⟩ := h
  refine ⟨hbuffer, ⟨hand, hclaims.keep hbefore rfl, ?_⟩, hqueue, hdefined⟩
  have hsame : ((s.readOrder ++ [(t, s.socket.take n)]).map Prod.snd).flatten ++
      (s.socket.drop n ++ s.wire) = s.upcoming := by
    simp only [Connection.upcoming, List.map_append, List.map_cons, List.map_nil,
      List.flatten_append, List.flatten_cons, List.flatten_nil, List.append_nil,
      List.append_assoc]
    rw [← List.append_assoc (s.socket.take n), List.take_append_drop]
  rw [← hsame] at hline
  exact hline

theorem Reading.enqueue
    {s : Connection}
    {content chunk : Bytes}
    {t : Nat}
    {buffer : Buffer UInt8 BUFFER_SIZE}
    (h : Reading sender messages s content)
    (ht : s.tasks t = .enqueuing chunk)
    (hfirst : s.readOrder.head? = some (t, chunk))
    (hbuffer : s.channel.readBuffer.enqueue chunk = .ok buffer) :
    Reading sender messages
      { s with
        channel := { s.channel with readBuffer := buffer }
        tasks := Function.update s.tasks t (.parsing .head false)
        readOrder := leave t s.readOrder }
      (content ++ chunk) := by
  have hbefore : (s.tasks t).claims = false := by rw [ht]; rfl
  obtain ⟨rest, hrest⟩ := List.head?_eq_some_iff.mp hfirst
  obtain ⟨hholds, ⟨hand, hclaims, hline⟩, hqueue, hdefined⟩ := h
  refine ⟨hholds.of_enqueue hbuffer, ⟨hand, hclaims.keep hbefore rfl, ?_⟩, hqueue, hdefined⟩
  rw [Connection.upcoming, hrest] at hline
  simpa [Connection.upcoming, hrest, leave_cons] using hline

/-- The next operation of a call of `parse_message` keeps the line, or throws. -/
def KeepsLine (receiver sender : Endian) (messages : List (Sent brotli)) (s : Connection)
    (t : Nat) (point : Point) (last : Bool) : Prop :=
  match parseStep receiver brotli true s.channel point with
  | .error e => e ≠ .undefined
  | .ok p =>
      ∃ content, Reading sender messages
        (Connection.reorder t point p.point
          { s with
            channel := p.channel
            tasks := Function.update s.tasks t (Connection.proceed p.point last)
            pushed := s.pushed ++ p.pushed
            handed := s.handed ++ p.handed }) content

theorem proceed_claims
    {point : Point}
    {last : Bool}
    (h : (Task.parsing point last).claims = false) :
    (Connection.proceed point last).claims = false := by
  rw [Connection.proceed]
  by_cases hreturned : point = .returned
  · rw [if_pos hreturned]
    cases last <;> rfl
  · rwa [if_neg hreturned]

variable {s : Connection} {content : Bytes} {t : Nat} {last : Bool}

/-- A test may send the call anywhere; it takes nothing. -/
theorem Reading.test
    {point : Point}
    (h : Reading sender messages s content)
    (ht : s.tasks t = .parsing point last)
    (next : Point)
    (hstep : parseStep receiver brotli true s.channel point = .ok ⟨s.channel, next, [], []⟩)
    (hbefore : (Task.parsing point last).claims = false)
    (hafter : (Task.parsing next last).claims = false)
    (horder : ∀ s', Connection.reorder t point next s' = s') :
    KeepsLine receiver sender messages s t point last := by
  rw [KeepsLine, hstep]
  simp only [horder, List.append_nil]
  exact ⟨content, h.move (by rw [ht]; exact hbefore) _ (proceed_claims hafter)⟩

theorem Reading.head
    (h : Reading sender messages s content)
    (ht : s.tasks t = .parsing .head last) :
    KeepsLine receiver sender messages s t .head last := by
  by_cases hzero : s.channel.readBufferLength = 0
  · exact h.test ht .sizeHeader (ParseMoves.noLength hzero).parseStep_eq rfl rfl fun _ => rfl
  · exact h.test ht .sizeBody (ParseMoves.noted hzero).parseStep_eq rfl rfl fun _ => rfl

theorem Reading.sizeHeader
    (h : Reading sender messages s content)
    (ht : s.tasks t = .parsing .sizeHeader last) :
    KeepsLine receiver sender messages s t .sizeHeader last := by
  by_cases hmore : s.channel.readBuffer.size > HEAD_LENGTH
  · exact h.test ht .takeHeader (ParseMoves.moreThanHeader hmore).parseStep_eq rfl rfl fun _ => rfl
  · exact h.test ht .drain (ParseMoves.noHeader (Nat.le_of_not_gt hmore)).parseStep_eq rfl rfl fun _ => rfl

theorem Reading.sizeBody
    (h : Reading sender messages s content)
    (ht : s.tasks t = .parsing .sizeBody last) :
    KeepsLine receiver sender messages s t .sizeBody last := by
  by_cases hmore : s.channel.readBuffer.size ≥ s.channel.readBufferLength
  · exact h.test ht .takeBody (ParseMoves.wholeBody hmore).parseStep_eq rfl rfl fun _ => rfl
  · exact h.test ht .head (ParseMoves.startOver (Nat.lt_of_not_ge hmore)).parseStep_eq rfl rfl fun _ => rfl

theorem Reading.drain
    (h : Reading sender messages s content)
    (ht : s.tasks t = .parsing .drain last) :
    KeepsLine receiver sender messages s t .drain last := by
  by_cases hempty : s.channel.readMessages = []
  · exact h.test ht .returned (ParseMoves.testEmpty hempty).parseStep_eq rfl rfl fun _ => rfl
  · exact h.test ht .pop (ParseMoves.testFound hempty).parseStep_eq rfl rfl fun _ => rfl

theorem Reading.takeHeader
    (h : Reading sender messages s content)
    (hzero : s.channel.readBufferLength = 0)
    (hnone : ∀ u, (s.tasks u).claims = false) :
    KeepsLine receiver sender messages s t .takeHeader last := by
  obtain ⟨hholds, ⟨hand, hclaims, hline⟩, hqueue, hdefined⟩ := h
  obtain rfl := hclaims.eq_empty hnone
  by_cases hthere : HEAD_LENGTH ≤ content.length
  · obtain ⟨buffer, hbuffer, hstep⟩ := parseStep_takeHeader receiver brotli true hholds hthere
    rw [hzero] at hline
    have hline := hline.takeHeader (by decide) (fun m _ => m.header_length sender)
      (fun m _ => m.encoded_ne_nil) hthere
    rw [KeepsLine, hstep]
    refine ⟨content.drop HEAD_LENGTH, hbuffer, ⟨_, .claimHeader hnone _ last, ?_⟩, ?_, hdefined⟩
    · simpa [Connection.reorder, Connection.upcoming, hzero] using hline
    · simpa [Connection.reorder] using hqueue
  · rw [KeepsLine, parseStep_takeHeader_short receiver brotli true hholds (by omega)]
    exact Fault.noConfusion

theorem Reading.storeLength
    {temp : Bytes}
    (h : Reading sender messages s content)
    (ht : s.tasks t = .parsing (.storeLength temp) last) :
    KeepsLine receiver sender messages s t (.storeLength temp) last := by
  obtain ⟨hholds, ⟨hand, hclaims, hline⟩, hqueue, hdefined⟩ := h
  obtain ⟨rfl, hothers⟩ := hclaims.of_storeLength ht
  obtain ⟨length, hread, -, hline⟩ := hline.store fun m _ => m.readLength_header sender receiver
  simp only [KeepsLine, parseStep, hread]
  refine ⟨content, hholds, ⟨.empty, .release hothers rfl, ?_⟩, ?_, hdefined⟩
  · simpa [Connection.reorder, Connection.upcoming] using hline
  · simpa [Connection.reorder] using hqueue

theorem Reading.takeBody
    (h : Reading sender messages s content)
    (hlength : s.channel.readBufferLength ≠ 0)
    (hnone : ∀ u, (s.tasks u).claims = false) :
    KeepsLine receiver sender messages s t .takeBody last := by
  obtain ⟨hholds, ⟨hand, hclaims, hline⟩, hqueue, hdefined⟩ := h
  obtain rfl := hclaims.eq_empty hnone
  by_cases hthere : s.channel.readBufferLength ≤ content.length
  · obtain ⟨buffer, hbuffer, hstep⟩ := parseStep_takeBody receiver brotli true hholds hthere
    have hline := hline.takeBody hlength hthere
    rw [KeepsLine, hstep]
    refine ⟨content.drop s.channel.readBufferLength, hbuffer,
      ⟨_, .claimBody hnone _ last, ?_⟩, ?_, hdefined⟩
    · simpa [Connection.reorder, Connection.upcoming] using hline
    · simpa [Connection.reorder] using hqueue
  · rw [KeepsLine, parseStep_takeBody_short receiver brotli true hholds (by omega)]
    exact Fault.noConfusion

theorem Reading.clearLength
    {body : Bytes}
    (h : Reading sender messages s content)
    (ht : s.tasks t = .parsing (.clearLength body) last) :
    KeepsLine receiver sender messages s t (.clearLength body) last := by
  obtain ⟨hholds, ⟨hand, hclaims, hline⟩, hqueue, hdefined⟩ := h
  obtain ⟨rfl, hothers⟩ := hclaims.of_clearLength ht
  simp only [KeepsLine, parseStep]
  refine ⟨content, hholds, ⟨.empty, .release hothers rfl, ?_⟩, ?_, hdefined⟩
  · simpa [Connection.reorder, Connection.upcoming] using hline.clear
  · simpa [Connection.reorder] using hqueue

theorem Reading.pushMessage
    (hlossless : brotli.Lossless)
    {body : Bytes}
    (h : Reading sender messages s content)
    (ht : s.tasks t = .parsing (.pushMessage body) last)
    (hfirst : s.takeOrder.head? = some (t, body)) :
    KeepsLine receiver sender messages s t (.pushMessage body) last := by
  have hbefore : (s.tasks t).claims = false := by rw [ht]; rfl
  obtain ⟨rest, hrest⟩ := List.head?_eq_some_iff.mp hfirst
  obtain ⟨hholds, ⟨hand, hclaims, hline⟩, hqueue, hdefined⟩ := h
  rw [hrest, List.map_cons] at hline
  obtain ⟨message, hdecode, hline⟩ := hline.push fun m _ => m.decodes hlossless
  simp only [KeepsLine, parseStep, hdecode]
  refine ⟨content, hholds, ⟨hand, hclaims.keep hbefore rfl, ?_⟩, ?_, hdefined⟩
  · simpa [Connection.reorder, Connection.upcoming, hrest, leave_cons] using hline
  · simp [Connection.reorder, hqueue]

theorem Reading.pop
    (h : Reading sender messages s content)
    (ht : s.tasks t = .parsing .pop last)
    (hne : s.channel.readMessages ≠ []) :
    KeepsLine receiver sender messages s t .pop last := by
  have hbefore : (s.tasks t).claims = false := by rw [ht]; rfl
  obtain ⟨hholds, ⟨hand, hclaims, hline⟩, hqueue, hdefined⟩ := h
  obtain ⟨message, rest, hmessages⟩ := List.exists_cons_of_ne_nil hne
  simp only [KeepsLine, parseStep, hmessages]
  refine ⟨content, hholds, ⟨hand, hclaims.keep hbefore rfl, ?_⟩, ?_, hdefined⟩
  · simpa [Connection.reorder, Connection.upcoming] using hline
  · simp [Connection.reorder, hqueue, hmessages]

theorem Reading.handOver
    {message : Bytes}
    (h : Reading sender messages s content)
    (ht : s.tasks t = .parsing (.handOver message) last)
    (hfirst : s.popOrder.head? = some (t, message)) :
    KeepsLine receiver sender messages s t (.handOver message) last := by
  have hbefore : (s.tasks t).claims = false := by rw [ht]; rfl
  obtain ⟨rest, hrest⟩ := List.head?_eq_some_iff.mp hfirst
  obtain ⟨hholds, ⟨hand, hclaims, hline⟩, hqueue, hdefined⟩ := h
  simp only [KeepsLine, parseStep, if_true]
  refine ⟨content, hholds, ⟨hand, hclaims.keep hbefore rfl, ?_⟩, ?_, hdefined⟩
  · simpa [Connection.reorder, Connection.upcoming] using hline
  · simp [Connection.reorder, hqueue, hrest, leave_cons]

/-- An operation of `parse_message` that does not cut in keeps the line. -/
theorem Reading.parse
    (hlossless : brotli.Lossless)
    {point : Point}
    {n : Nat}
    (h : Reading sender messages s content)
    (ht : s.tasks t = .parsing point last)
    (hok : Orderly s (.advance t n)) :
    KeepsLine receiver sender messages s t point last := by
  simp only [Orderly, ht] at hok
  cases point with
  | head => exact h.head ht
  | sizeHeader => exact h.sizeHeader ht
  | takeHeader => exact h.takeHeader hok.1 hok.2
  | storeLength temp => exact h.storeLength ht
  | sizeBody => exact h.sizeBody ht
  | takeBody => exact h.takeBody hok.1 hok.2
  | clearLength body => exact h.clearLength ht
  | pushMessage body => exact h.pushMessage hlossless ht hok
  | drain => exact h.drain ht
  | pop => exact h.pop ht hok
  | handOver message => exact h.handOver ht hok
  | returned => exact h.test ht .returned rfl rfl rfl fun _ => rfl

theorem Reading.throws
    {e : Fault}
    (h : Reading sender messages s content)
    (he : e ≠ .undefined) :
    Reading sender messages { s with ended := some e } content where
  buffer := h.buffer
  line := h.line
  queue := h.queue
  defined := fun hsome => he (Option.some.inj hsome)

theorem enqueue_error
    {buffer : Buffer UInt8 BUFFER_SIZE}
    {chunk : Bytes}
    {e : Fault}
    (h : buffer.enqueue chunk = .error e) :
    e ≠ .undefined := by
  simp only [Buffer.enqueue] at h
  split at h
  · cases h
    exact Fault.noConfusion
  · cases h

/-- **A step that does not cut in keeps the line.** -/
theorem Reading.step
    (hlossless : brotli.Lossless)
    {s' : Connection}
    {e : ConnectionEvent}
    (h : Reading sender messages s content)
    (hok : Orderly s e)
    (hstep : Connection.step receiver brotli s e = some s') :
    ∃ content', Reading sender messages s' content' := by
  simp only [Connection.step, Option.ite_none_left_eq_some] at hstep
  obtain ⟨-, hstep⟩ := hstep
  cases e with
  | arrive n =>
      simp only [Option.ite_none_right_eq_some, Option.some.injEq] at hstep
      obtain ⟨-, rfl⟩ := hstep
      exact ⟨content, h.arrive n⟩
  | modify =>
      simp only [Option.ite_none_left_eq_some, Option.some.injEq] at hstep
      obtain ⟨-, rfl⟩ := hstep
      exact ⟨content, h.buffer, h.line, h.queue, h.defined⟩
  | dispatch t =>
      simp only [Option.ite_none_right_eq_some, Option.some.injEq] at hstep
      obtain ⟨⟨-, ht⟩, rfl⟩ := hstep
      have hmoved := h.move (t := t) (by rw [ht]; rfl) .reading rfl
      exact ⟨content, hmoved.buffer, hmoved.line, hmoved.queue, hmoved.defined⟩
  | hangUp t =>
      simp only [Option.ite_none_right_eq_some, Option.some.injEq] at hstep
      obtain ⟨⟨ht, -⟩, rfl⟩ := hstep
      exact ⟨content, h.move (by rw [ht]; rfl) .finished rfl⟩
  | advance t n =>
      cases ht : s.tasks t with
      | absent =>
          simp only [Connection.advance, ht] at hstep
          cases hstep
      | finished =>
          simp only [Connection.advance, ht] at hstep
          cases hstep
      | reading =>
          simp only [Connection.advance, ht] at hstep
          by_cases hempty : s.socket = []
          · rw [if_pos hempty] at hstep
            cases hstep
            exact ⟨content, h.move (by rw [ht]; rfl) _ rfl⟩
          · simp only [if_neg hempty, Option.ite_none_right_eq_some, Option.some.injEq] at hstep
            obtain ⟨-, rfl⟩ := hstep
            exact ⟨content, h.read ht n⟩
      | enqueuing chunk =>
          simp only [Orderly, ht] at hok
          simp only [Connection.advance, ht] at hstep
          cases hbuffer : s.channel.readBuffer.enqueue chunk with
          | error e =>
              rw [hbuffer] at hstep
              cases hstep
              exact ⟨content, h.throws (enqueue_error hbuffer)⟩
          | ok buffer =>
              rw [hbuffer] at hstep
              cases hstep
              exact ⟨_, h.enqueue ht hok hbuffer⟩
      | parsing point last =>
          have hkeeps : KeepsLine receiver sender messages s t point last :=
            h.parse hlossless ht hok
          simp only [Connection.advance, ht] at hstep
          rw [KeepsLine] at hkeeps
          cases hp : parseStep receiver brotli true s.channel point with
          | error e =>
              rw [hp] at hstep hkeeps
              cases hstep
              exact ⟨content, h.throws hkeeps⟩
          | ok p =>
              rw [hp] at hstep hkeeps
              cases hstep
              exact hkeeps

end Invariant

def parting : Sent Brotli.identity where
  compression := .none
  plain := [98, 121, 101]
  encoded := [0, 98, 121, 101]
  encodes := rfl
  fits := by decide

def twoReaders : System Connection ConnectionEvent :=
  Connection.system .little .identity .none (fun _ => 0) (wire .little [greeting, parting])

end Core
end ZeroRPC
