import ZeroRPC.Core.Channel
import ZeroRPC.Library.Slots
import ZeroRPC.Library.Transition

/-!
# Taking messages off the queue

Any number of calls of `parse_message` stand in one channel of a server, each at some
operation, and go on in any order; bytes arrive in between.  `empty()` and `front_pop()` are
locked, but the lock is free between them.  A `front_pop` on an empty queue is not defined.

A call is at `pop` when its `empty()` has found a message that it has not popped yet.  When
several are, their `front_pop`s may go in any order, and each needs a message.

Main facts:
* `parseStep_queueMove`: what an operation does to the queue;
* `Conserved.step`: no message is lost or doubled, and none is left when the calls return;
* `popsFind_iff`: the `front_pop`s that are due find messages exactly when there are as many
  messages as calls at `pop`;
* `front_pops_find_iff`: in which runs that is so throughout.
-/

namespace ZeroRPC
namespace Core

open Library

/-- The message a call has popped and not handed over. -/
def Point.message? : Point → Option Bytes
  | .handOver message => some message
  | _ => none

/-- The operations on the queue. -/
def Point.usesQueue : Point → Bool
  | .pushMessage _ => true
  | .drain => true
  | .pop => true
  | .handOver _ => true
  | _ => false

/-- Behind an `empty()`, and not back at it. -/
def Point.tested : Point → Bool
  | .pop => true
  | .handOver _ => true
  | .returned => true
  | _ => false

/-- A channel of a server and the calls of `parse_message` in it, in the order they were
made, with the messages pushed and handed over so far. -/
structure ParseCalls where
  channel : SocketChannel
  calls : List Point
  ended : Option Fault
  pushed : List Bytes
  handed : List Bytes

inductive ParseEvent
  | receive (chunk : Bytes)
  | call
  | advance (i : Nat)
deriving DecidableEq

namespace ParseCalls

def init (type : CompressionType) (data : Nat → UInt8) : ParseCalls where
  channel := .init type data
  calls := []
  ended := none
  pushed := []
  handed := []

/-- The next operation of a call. -/
def advance (host : Endian) (brotli : Brotli) (s : ParseCalls) (i : Nat) : Option ParseCalls :=
  match s.calls[i]? with
  | none => none
  | some point =>
      if point = .returned then
        none
      else
        match parseStep host brotli true s.channel point with
        | .error e => some { s with ended := some e }
        | .ok p =>
            some { s with
              channel := p.channel
              calls := s.calls.set i p.point
              pushed := s.pushed ++ p.pushed
              handed := s.handed ++ p.handed }

/-- Bytes are put in the buffer; `parse_message` is called; a call goes on.  An exception
ends the process. -/
def step (host : Endian) (brotli : Brotli) (s : ParseCalls) (e : ParseEvent) :
    Option ParseCalls :=
  if s.ended ≠ none then
    none
  else
    match e with
    | .receive chunk =>
        match s.channel.readBuffer.enqueue chunk with
        | .error e => some { s with ended := some e }
        | .ok buffer => some { s with channel := { s.channel with readBuffer := buffer } }
    | .call => some { s with calls := s.calls ++ [.head] }
    | .advance i => s.advance host brotli i

def system (host : Endian) (brotli : Brotli) (type : CompressionType) (data : Nat → UInt8) :
    System ParseCalls ParseEvent where
  init := init type data
  step := step host brotli

/-- The messages popped and not handed over. -/
def inHand (s : ParseCalls) : List Bytes := s.calls.filterMap Point.message?

end ParseCalls

/-- If the step is a `front_pop`, the queue is not empty. -/
def PopsMessage (s : ParseCalls) : ParseEvent → Prop
  | .advance i => s.calls[i]? = some .pop → s.channel.readMessages ≠ []
  | _ => True

instance (s : ParseCalls) : DecidablePred (PopsMessage s)
  | .advance i =>
      inferInstanceAs (Decidable (s.calls[i]? = some .pop → s.channel.readMessages ≠ []))
  | .receive _ | .call => isTrue trivial

/-- If the step is an `empty()` that finds a message, there are more messages than calls that
have found one and not popped it yet. -/
def TestsWithRoom (s : ParseCalls) : ParseEvent → Prop
  | .advance i =>
      s.calls[i]? = some .drain → s.channel.readMessages = [] ∨
        s.calls.count .pop < s.channel.readMessages.length
  | _ => True

/-- The `front_pop`s that calls have come to find a message each, whichever goes first. -/
def PopsFind (M : System ParseCalls ParseEvent) (s : ParseCalls) : Prop :=
  ∀ is : List Nat, is.Nodup → (∀ i ∈ is, s.calls[i]? = some .pop) →
    M.Every PopsMessage s (is.map .advance)

/-- Every message pushed is handed over, in hand or in the queue, once; when every call has
returned it is handed over. -/
structure Delivers (s : ParseCalls) : Prop where
  once : s.pushed.Perm (s.handed ++ s.inHand ++ s.channel.readMessages)
  all : (∀ point ∈ s.calls, point = .returned) → s.handed.Perm s.pushed

/-! ### What an operation does to the queue -/

/-- The queue and the call before and after an operation, with what was pushed and handed
over. -/
inductive QueueMove :
    List Bytes → Point → List Bytes → Point → List Bytes → List Bytes → Prop
  | push {queue : List Bytes} {body message : Bytes} :
      QueueMove queue (.pushMessage body) (queue ++ [message]) .head [message] []
  | testEmpty : QueueMove [] .drain [] .returned [] []
  | testFound {queue : List Bytes} (h : queue ≠ []) : QueueMove queue .drain queue .pop [] []
  | pop {message : Bytes} {queue : List Bytes} :
      QueueMove (message :: queue) .pop queue (.handOver message) [] []
  | handOver {queue : List Bytes} {message : Bytes} :
      QueueMove queue (.handOver message) queue .drain [] [message]
  | other {queue : List Bytes} {before after : Point}
      (hbefore : before.usesQueue = false) (hafter : after.tested = false) :
      QueueMove queue before queue after [] []

theorem Point.message?_of_usesQueue
    {point : Point}
    (h : point.usesQueue = false) :
    point.message? = none := by
  cases point with
  | handOver message => cases h
  | _ => rfl

theorem Point.message?_of_tested
    {point : Point}
    (h : point.tested = false) :
    point.message? = none := by
  cases point with
  | handOver message => cases h
  | _ => rfl

section Queue

variable {host : Endian} {brotli : Brotli} {channel : SocketChannel} {point : Point}
  {p : Parsed}

/-- **One operation, as the queue sees it.** -/
theorem parseStep_queueMove
    (h : parseStep host brotli true channel point = .ok p)
    (hpoint : point ≠ .returned) :
    QueueMove channel.readMessages point p.channel.readMessages p.point p.pushed p.handed := by
  cases parseStep_moves h with
  | pushMessage _ => exact .push
  | testEmpty hempty =>
      simp only [hempty]
      exact .testEmpty
  | testFound hfound => exact .testFound hfound
  | pop hqueue =>
      simp only [hqueue]
      exact .pop
  | handOver => exact .handOver
  | returned => exact absurd rfl hpoint
  | _ => exact .other rfl rfl

end Queue

/-! ### The steps -/

/-- The steps, with what each does to the queue and the calls. -/
inductive CallMoves (s : ParseCalls) : ParseEvent → ParseCalls → Prop
  | fails {e : ParseEvent} {fault : Fault}
      (h : ∀ i, e = .advance i → s.calls[i]? ≠ some .drain) :
      CallMoves s e { s with ended := some fault }
  | receive {chunk : Bytes} {buffer : Buffer UInt8 BUFFER_SIZE} :
      CallMoves s (.receive chunk) { s with channel := { s.channel with readBuffer := buffer } }
  | call : CallMoves s .call { s with calls := s.calls ++ [.head] }
  | advance {i : Nat} {point point' : Point} {channel : SocketChannel}
      {pushed handed : List Bytes}
      (hcall : s.calls[i]? = some point)
      (hmove :
        QueueMove s.channel.readMessages point channel.readMessages point' pushed handed) :
      CallMoves s (.advance i)
        { s with
          channel := channel
          calls := s.calls.set i point'
          pushed := s.pushed ++ pushed
          handed := s.handed ++ handed }

section Steps

variable {host : Endian} {brotli : Brotli} {s t : ParseCalls} {e : ParseEvent}

theorem ParseCalls.step_moves
    (h : s.step host brotli e = some t) :
    s.ended = none ∧ CallMoves s e t := by
  unfold ParseCalls.step at h
  by_cases hended : s.ended ≠ none
  · rw [if_pos hended] at h
    cases h
  · rw [if_neg hended] at h
    refine ⟨not_not.mp hended, ?_⟩
    cases e with
    | receive chunk =>
        simp only at h
        split at h
        · cases h
          refine .fails ?_
          intro i hi
          cases hi
        · cases h
          exact .receive
    | call =>
        cases h
        exact .call
    | advance i =>
        simp only [ParseCalls.advance] at h
        cases hcall : s.calls[i]? with
        | none =>
            rw [hcall] at h
            cases h
        | some point =>
            simp only [hcall] at h
            split at h
            · cases h
            · next hreturned =>
                cases hparse : parseStep host brotli true s.channel point with
                | error fault =>
                    simp only [hparse] at h
                    cases h
                    refine .fails ?_
                    rintro j heq hdrain
                    cases heq
                    obtain rfl : point = .drain := Option.some.inj (hcall.symm.trans hdrain)
                    -- `empty()` does not throw
                    simp only [parseStep] at hparse
                    split at hparse <;> cases hparse
                | ok p =>
                    simp only [hparse] at h
                    cases h
                    exact .advance hcall (parseStep_queueMove hparse hreturned)

end Steps

/-! ### No message is lost or doubled -/

/-- What holds in every state: the messages are accounted for, and while one is in the queue
some call has not returned. -/
structure Conserved (s : ParseCalls) : Prop where
  once : s.pushed.Perm (s.handed ++ s.inHand ++ s.channel.readMessages)
  waits : s.channel.readMessages ≠ [] → ∃ point ∈ s.calls, point ≠ .returned

theorem conserved_init (type : CompressionType) (data : Nat → UInt8) :
    Conserved (ParseCalls.init type data) where
  once := .refl _
  waits := fun h => absurd rfl h

/-- When every call has returned nothing is in hand or in the queue. -/
theorem Conserved.delivers
    {s : ParseCalls}
    (h : Conserved s) :
    Delivers s where
  once := h.once
  all := by
    intro hreturned
    have hhand : s.inHand = [] := by
      refine List.filterMap_eq_nil_iff.mpr ?_
      intro point hmem
      rw [hreturned point hmem]
      rfl
    have hqueue : s.channel.readMessages = [] := by
      by_contra hne
      obtain ⟨point, hmem, hpoint⟩ := h.waits hne
      exact hpoint (hreturned point hmem)
    have honce := h.once
    rw [hhand, hqueue, List.append_nil, List.append_nil] at honce
    exact honce.symm

section Conserve

variable {s t : ParseCalls} {i : Nat} {point point' : Point} {queue pushed handed : List Bytes}

/-- What a move pushes and takes, and what the call holds before and after it. -/
theorem QueueMove.balance
    {queue' : List Bytes}
    (h : QueueMove queue point queue' point' pushed handed) :
    (pushed ++ point.message?.toList ++ queue).Perm
      (handed ++ point'.message?.toList ++ queue') := by
  cases h with
  | push =>
      simp only [Point.message?, Option.toList_none, List.append_nil, List.nil_append]
      exact List.perm_append_comm
  | testEmpty => exact .refl _
  | testFound => exact .refl _
  | pop => exact .refl _
  | handOver => exact .refl _
  | other hbefore hafter =>
      rw [Point.message?_of_usesQueue hbefore, Point.message?_of_tested hafter]

/-- A call that leaves a message in the queue has not returned. -/
theorem QueueMove.goes_on
    {queue' : List Bytes}
    (h : QueueMove queue point queue' point' pushed handed)
    (hqueue : queue' ≠ []) :
    point' ≠ .returned := by
  rintro rfl
  cases h with
  | testEmpty => exact hqueue rfl
  | other _ hafter => cases hafter

theorem Conserved.advance
    {channel : SocketChannel}
    (h : Conserved s)
    (hcall : s.calls[i]? = some point)
    (hmove :
      QueueMove s.channel.readMessages point channel.readMessages point' pushed handed) :
    Conserved { s with
      channel := channel
      calls := s.calls.set i point'
      pushed := s.pushed ++ pushed
      handed := s.handed ++ handed } where
  once := by
    obtain ⟨hlt, -⟩ := List.getElem?_eq_some_iff.mp hcall
    have hbefore : s.inHand.Perm
        (point.message?.toList ++ (s.calls.eraseIdx i).filterMap Point.message?) :=
      Slots.filterMap_eraseIdx hcall
    have hafter : ((s.calls.set i point').filterMap Point.message?).Perm
        (point'.message?.toList ++ (s.calls.eraseIdx i).filterMap Point.message?) :=
      Slots.filterMap_set hcall point'
    have honce := h.once
    have hbalance := hmove.balance
    rw [List.perm_iff_count] at hbefore hafter honce hbalance ⊢
    intro message
    have h₁ := hbefore message
    have h₂ := hafter message
    have h₃ := honce message
    have h₄ := hbalance message
    simp only [ParseCalls.inHand, List.count_append] at h₁ h₂ h₃ h₄ ⊢
    omega
  waits := by
    intro hqueue
    obtain ⟨hlt, -⟩ := List.getElem?_eq_some_iff.mp hcall
    exact ⟨point', List.mem_set hlt point', hmove.goes_on hqueue⟩

theorem Conserved.moves
    {e : ParseEvent}
    (h : Conserved s)
    (hmoves : CallMoves s e t) :
    Conserved t := by
  cases hmoves with
  | fails _ => exact ⟨h.once, h.waits⟩
  | receive => exact ⟨h.once, h.waits⟩
  | call =>
      constructor
      · have hhand : (s.calls ++ [Point.head]).filterMap Point.message? = s.inHand := by
          rw [List.filterMap_append, ParseCalls.inHand]
          exact List.append_nil _
        show s.pushed.Perm
          (s.handed ++ (s.calls ++ [Point.head]).filterMap Point.message? ++ _)
        rw [hhand]
        exact h.once
      · intro _
        exact ⟨Point.head, by simp, by simp⟩
  | advance hcall hmove => exact h.advance hcall hmove

end Conserve

/-! ### The pops that are due -/

/-- There are messages for all the calls that have found one. -/
def Covered (s : ParseCalls) : Prop := s.calls.count .pop ≤ s.channel.readMessages.length

section Due

variable {host : Endian} {brotli : Brotli} {type : CompressionType} {data : Nat → UInt8}
  {s t : ParseCalls} {i : Nat}

/-- Any one of them may be the next step. -/
theorem PopsFind.popsMessage
    {e : ParseEvent}
    (h : PopsFind (ParseCalls.system host brotli type data) s)
    (hstep : (ParseCalls.system host brotli type data).step s e = some t) :
    PopsMessage s e := by
  cases e with
  | receive chunk => trivial
  | call => trivial
  | advance i =>
      intro hcall
      have hevery := h [i] (List.nodup_singleton i) fun j hj => by
        rw [List.mem_singleton.mp hj]
        exact hcall
      rw [List.map_cons, System.Every, hstep] at hevery
      exact hevery.1 hcall

/-- A `front_pop` that finds a message. -/
theorem pop_step
    {message : Bytes}
    {queue : List Bytes}
    (hended : s.ended = none)
    (hcall : s.calls[i]? = some .pop)
    (hqueue : s.channel.readMessages = message :: queue) :
    s.step host brotli (.advance i) =
      some { s with
        channel := { s.channel with readMessages := queue }
        calls := s.calls.set i (.handOver message) } := by
  have hparse : parseStep host brotli true s.channel .pop =
      .ok ⟨{ s.channel with readMessages := queue }, .handOver message, [], []⟩ :=
    (ParseMoves.pop hqueue).parseStep_eq
  simp only [ParseCalls.step, ParseCalls.advance, hended, hcall, hparse]
  simp

/-- After one call has gone on, the others stand where they stood. -/
theorem others_due
    {is : List Nat}
    {point : Point}
    (hnodup : (i :: is).Nodup)
    (hdue : ∀ j ∈ i :: is, s.calls[j]? = some .pop) :
    ∀ j ∈ is, (s.calls.set i point)[j]? = some .pop := by
  intro j hj
  have hne : i ≠ j := by
    rintro rfl
    exact (List.nodup_cons.mp hnodup).1 hj
  rw [List.getElem?_set_ne hne]
  exact hdue j (List.mem_cons_of_mem _ hj)

theorem Covered.popsFind
    (h : Covered s) :
    PopsFind (ParseCalls.system host brotli type data) s := by
  intro is hnodup hdue
  induction is generalizing s with
  | nil => trivial
  | cons i is ih =>
      have hcall := hdue i List.mem_cons_self
      have hcount := Slots.count_set_add hcall (.pop : Point) .pop
      have hpos : 0 < s.calls.count .pop := List.count_pos_iff.mpr (List.mem_of_getElem? hcall)
      cases hqueue : s.channel.readMessages with
      | nil =>
          rw [Covered, hqueue, List.length_nil] at h
          omega
      | cons message queue =>
          rw [List.map_cons, System.Every]
          by_cases hended : s.ended = none
          · have hstep : (ParseCalls.system host brotli type data).step s (.advance i) = _ :=
              pop_step hended hcall hqueue
            rw [hstep]
            refine ⟨fun _ => by simp [hqueue], ih ?_ hnodup.of_cons (others_due hnodup hdue)⟩
            have hless := Slots.count_set_add hcall (.handOver message) .pop
            simp only [reduceIte, reduceCtorEq] at hless
            simp only [Covered, hqueue, List.length_cons] at h ⊢
            omega
          · have hstep : (ParseCalls.system host brotli type data).step s (.advance i) = none :=
              if_pos hended
            rw [hstep]
            trivial

/-- As many pops as are due and find messages, so many messages there are. -/
theorem length_le_of_every
    {is : List Nat}
    (hended : s.ended = none)
    (hnodup : is.Nodup)
    (hdue : ∀ i ∈ is, s.calls[i]? = some .pop)
    (h : (ParseCalls.system host brotli type data).Every PopsMessage s (is.map .advance)) :
    is.length ≤ s.channel.readMessages.length := by
  induction is generalizing s with
  | nil => exact Nat.zero_le _
  | cons i is ih =>
      have hcall := hdue i List.mem_cons_self
      rw [List.map_cons, System.Every] at h
      cases hqueue : s.channel.readMessages with
      | nil =>
          -- the pop is undefined, and that is a step
          have hstep : (ParseCalls.system host brotli type data).step s (.advance i) =
              some { s with ended := some .undefined } := by
            simp only [ParseCalls.system, ParseCalls.step, ParseCalls.advance, hended, hcall,
              parseStep, hqueue]
            simp
          rw [hstep] at h
          exact absurd hqueue (h.1 hcall)
      | cons message queue =>
          have hstep : (ParseCalls.system host brotli type data).step s (.advance i) = _ :=
            pop_step hended hcall hqueue
          rw [hstep] at h
          have hrest : is.length ≤ queue.length :=
            ih (s := { s with
              channel := { s.channel with readMessages := queue }
              calls := s.calls.set i (.handOver message) })
              hended hnodup.of_cons (others_due hnodup hdue) h.2
          simp only [List.length_cons]
          omega

/-- **The pops that are due find messages exactly when there are messages for all of them.** -/
theorem popsFind_iff
    (hended : s.ended = none) :
    PopsFind (ParseCalls.system host brotli type data) s ↔ Covered s := by
  constructor
  · intro h
    have hdue : ∀ i ∈ s.calls.idxsOf .pop, s.calls[i]? = some .pop :=
      fun _ hi => Slots.getElem?_of_mem_idxsOf hi
    have hle := length_le_of_every hended List.nodup_idxsOf hdue
      (h _ List.nodup_idxsOf hdue)
    rwa [List.length_idxsOf] at hle
  · exact Covered.popsFind

end Due

/-! ### Runs -/

section Runs

variable {s t : ParseCalls} {e : ParseEvent} {i : Nat} {point point' : Point}
  {queue queue' pushed handed : List Bytes} {channel : SocketChannel}

/-- Only a test brings a call to `pop`; a pop takes one call and one message away. -/
theorem QueueMove.covered
    {before after : Nat}
    (h : QueueMove queue point queue' point' pushed handed)
    (hbefore : before ≤ queue.length)
    (htest : point = .drain → queue = [] ∨ before < queue.length)
    (hcount :
      after + (if point = .pop then 1 else 0) = before + (if point' = .pop then 1 else 0)) :
    after ≤ queue'.length := by
  cases h with
  | push =>
      simp only [reduceCtorEq, if_false] at hcount
      rw [List.length_append]
      omega
  | testEmpty =>
      simp only [reduceCtorEq, if_false] at hcount
      omega
  | testFound hfound =>
      simp only [reduceCtorEq, if_false, if_true] at hcount
      have hroom := (htest rfl).resolve_left hfound
      omega
  | pop =>
      simp only [reduceCtorEq, if_false, if_true] at hcount
      rw [List.length_cons] at hbefore
      omega
  | handOver =>
      simp only [reduceCtorEq, if_false] at hcount
      omega
  | other husesQueue htested =>
      have hpop : point ≠ .pop := by
        rintro rfl
        cases husesQueue
      have hpop' : point' ≠ .pop := by
        rintro rfl
        cases htested
      rw [if_neg hpop, if_neg hpop'] at hcount
      omega

theorem Covered.moves
    (h : Covered s)
    (hok : TestsWithRoom s e)
    (hmoves : CallMoves s e t) :
    Covered t := by
  cases hmoves with
  | fails _ => exact h
  | receive => exact h
  | call =>
      have hsame : (s.calls ++ [Point.head]).count .pop = s.calls.count .pop := by
        rw [List.count_append]
        rfl
      show (s.calls ++ [Point.head]).count .pop ≤ s.channel.readMessages.length
      rw [hsame]
      exact h
  | advance hcall hmove =>
      refine hmove.covered h ?_ (Slots.count_set_add hcall _ _)
      rintro rfl
      exact hok hcall

/-- A test that finds a message when there is none to spare leaves too few. -/
theorem TestsWithRoom.of_covered
    (hended : s.ended = none)
    (hmoves : CallMoves s e t)
    (ht : t.ended = none → Covered t) :
    TestsWithRoom s e := by
  cases hmoves with
  | fails h =>
      cases e with
      | receive chunk => trivial
      | call => trivial
      | advance i =>
          intro hdrain
          exact absurd hdrain (h i rfl)
  | receive => trivial
  | call => trivial
  | @advance i point point' channel pushed handed hcall hmove =>
      intro hdrain
      obtain rfl : point = .drain := Option.some.inj (hcall.symm.trans hdrain)
      by_cases hempty : s.channel.readMessages = []
      · exact .inl hempty
      · refine .inr ?_
        have hcount := Slots.count_set_add hcall point' .pop
        have hafter : (s.calls.set i point').count .pop ≤ channel.readMessages.length :=
          ht hended
        generalize s.channel.readMessages = queue at hmove hempty ⊢
        generalize channel.readMessages = queue' at hmove hafter
        cases hmove with
        | testEmpty => exact absurd rfl hempty
        | testFound _ =>
            simp only [reduceCtorEq, if_false, if_true] at hcount
            omega
        | other husesQueue _ => cases husesQueue

end Runs

/-- **Every `front_pop` finds a message, and so do those that are due in every state, in
whatever order they go, and every message is delivered once, exactly in the runs in which no
`empty()` finds a message that is needed by a call that has found one before.** -/
theorem front_pops_find_iff
    (host : Endian)
    (brotli : Brotli)
    (type : CompressionType)
    (data : Nat → UInt8)
    (es : List ParseEvent) :
    ((ParseCalls.system host brotli type data).Every PopsMessage
        (ParseCalls.init type data) es ∧
      (ParseCalls.system host brotli type data).Throughout
        (fun s => PopsFind (ParseCalls.system host brotli type data) s ∧ Delivers s)
        (ParseCalls.init type data) es) ↔
      (ParseCalls.system host brotli type data).Every TestsWithRoom
        (ParseCalls.init type data) es := by
  have hiff : (ParseCalls.system host brotli type data).Throughout
        (fun s => PopsFind (ParseCalls.system host brotli type data) s ∧ Delivers s)
        (ParseCalls.init type data) es ↔
      (ParseCalls.system host brotli type data).Every TestsWithRoom
        (ParseCalls.init type data) es := by
    refine System.throughout_iff_every (I := fun s => Conserved s ∧ Covered s) ?_ ?_ ?_
      ⟨conserved_init type data, Nat.zero_le _⟩ es
    · exact fun s hs => ⟨hs.2.popsFind, hs.1.delivers⟩
    · intro s e t hs hok hstep
      obtain ⟨-, hmoves⟩ := ParseCalls.step_moves hstep
      exact ⟨hs.1.moves hmoves, hs.2.moves hok hmoves⟩
    · intro s e t hs hstep ht
      obtain ⟨hended, hmoves⟩ := ParseCalls.step_moves hstep
      exact .of_covered hended hmoves fun hended' => (popsFind_iff hended').mp ht.1
  constructor
  · rintro ⟨-, h⟩
    exact hiff.mp h
  · intro h
    have hthroughout := hiff.mpr h
    refine ⟨hthroughout.every ?_, hthroughout⟩
    intro s e t hs hstep
    exact hs.1.popsMessage hstep

/-! ### Two calls and one message -/

/-- A message of two bytes is received and parsed by one call; another call is made; both
find the message, and both pop. -/
def lastMessage : List ParseEvent :=
  [.receive [3, 0, 0, 0, 0, 104, 105], .call] ++ List.replicate 10 (.advance 0) ++
    [.call, .advance 1, .advance 1, .advance 0, .advance 1, .advance 0, .advance 1]

theorem two_calls_pop_one_message :
    ¬ ∀ es, (ParseCalls.system .little .identity .none fun _ => 0).Every PopsMessage
      (ParseCalls.init .none fun _ => 0) es := by
  intro h
  exact absurd (h lastMessage) (by decide)

end Core
end ZeroRPC
