import ZeroRPC.Core.ServerSend

/-!
# Sending on the client

The send message callback of the client holds `_send_lock`, pops each message of the
queue and hands it to `::send` once.  What `::send` did not accept is neither put back
nor remembered, and `-1` is thrown, with the message gone.

Main facts:
* `Unbroken`: kernel, message in hand and queue make up the frames that were queued;
* `Handing.step`, `Handing.whole`: it is kept by steps in which `::send` accepts a
  whole frame, and lost by any other `::send`;
* `client_sends_unbroken_iff`: it holds all along a run exactly when every `::send` of
  the run accepts the whole frame.
-/

namespace ZeroRPC
namespace Core

open Library

/-- Where a thread stands in `send_message`. -/
inductive ClientSendPoint
  | idle
  | locking
  | checking
  | testing
  | popping
  | sending (message : Bytes)
deriving DecidableEq

/-- Between taking `_send_lock` and giving it back. -/
def ClientSendPoint.inside : ClientSendPoint → Bool
  | .idle => false
  | .locking => false
  | _ => true

/-- The message a thread at a point has popped and not handed to `::send`. -/
def ClientSendPoint.message : ClientSendPoint → Bytes
  | .sending message => message
  | _ => []

def inHand (threads : Nat → ClientSendPoint) (lock : Option Nat) : Bytes :=
  match lock with
  | none => []
  | some t => (threads t).message

/-- The channel of a client with its threads.  `kernel` are the bytes `::send` has
accepted, `queued` the frames pushed so far. -/
structure ClientChannel where
  channel : SocketChannel
  threads : Nat → ClientSendPoint
  lock : Option Nat
  running : Bool
  kernel : Bytes
  queued : List Bytes

inductive ClientSendEvent
  | sendMessage (t : Nat) (data : Bytes)
  | advance (t : Nat) (result : SendResult)
  | disconnect

namespace ClientChannel

/-- The client is connected. -/
def init (type : CompressionType) (data : Nat → UInt8) : ClientChannel where
  channel := .init type data
  threads := fun _ => .idle
  lock := none
  running := true
  kernel := []
  queued := []

/-- Thread `t` goes on to a point. -/
def goto (s : ClientChannel) (t : Nat) (point : ClientSendPoint) : ClientChannel :=
  { s with threads := Function.update s.threads t point }

/-- The callback returns or throws. -/
def leave (s : ClientChannel) (t : Nat) : ClientChannel :=
  { s with threads := Function.update s.threads t .idle, lock := none }

/-- The next step of a thread; `result` is what `::send` returns if that is the step. -/
def advance (s : ClientChannel) (t : Nat) (result : SendResult) : Option ClientChannel :=
  match s.threads t with
  | .idle => none
  | .locking =>
      match s.lock with
      | some _ => none
      | none => some ({ s with lock := some t }.goto t .checking)
  | .checking => if s.running then some (s.goto t .testing) else some (s.leave t)
  | .testing =>
      if s.channel.sendMessages = [] then some (s.leave t) else some (s.goto t .popping)
  | .popping =>
      match s.channel.sendMessages with
      | [] => none
      | message :: messages =>
          some ({ s with
            channel := { s.channel with sendMessages := messages } }.goto t (.sending message))
  | .sending message =>
      match result with
      | .sent n =>
          if 0 < n ∧ n ≤ message.length then
            some ({ s with kernel := s.kernel ++ message.take n }.goto t .testing)
          else
            none
      | .again => some (s.leave t)
      | .failed => some (s.leave t)

/-- A thread calls `send_message`, or goes on; the client is disconnected. -/
def step (host : Endian) (brotli : Brotli) (s : ClientChannel) :
    ClientSendEvent → Option ClientChannel
  | .sendMessage t data =>
      if s.threads t = .idle then
        match s.channel.writeData host brotli data with
        | .error _ => none
        | .ok (message, channel) =>
            some ({ s with channel := channel, queued := s.queued ++ [message] }.goto t .locking)
      else
        none
  | .advance t result => s.advance t result
  | .disconnect => some { s with running := false }

def system (host : Endian) (brotli : Brotli) (type : CompressionType) (data : Nat → UInt8) :
    System ClientChannel ClientSendEvent where
  init := init type data
  step := step host brotli

/-- What a step of a thread can be. -/
inductive Moves (s : ClientChannel) (t : Nat) : SendResult → ClientChannel → Prop
  | lock {result : SendResult} (ht : s.threads t = .locking) (hlock : s.lock = none) :
      Moves s t result ({ s with lock := some t }.goto t .checking)
  | connected {result : SendResult} (ht : s.threads t = .checking) (h : s.running = true) :
      Moves s t result (s.goto t .testing)
  | unconnected {result : SendResult} (ht : s.threads t = .checking) (h : s.running = false) :
      Moves s t result (s.leave t)
  | testEmpty {result : SendResult} (ht : s.threads t = .testing)
      (h : s.channel.sendMessages = []) : Moves s t result (s.leave t)
  | testFound {result : SendResult} (ht : s.threads t = .testing)
      (h : s.channel.sendMessages ≠ []) : Moves s t result (s.goto t .popping)
  | pop {result : SendResult} {message : Bytes} {messages : List Bytes}
      (ht : s.threads t = .popping) (h : s.channel.sendMessages = message :: messages) :
      Moves s t result
        ({ s with
          channel := { s.channel with sendMessages := messages } }.goto t (.sending message))
  | sent {message : Bytes} {n : Nat} (ht : s.threads t = .sending message) (hpos : 0 < n)
      (hn : n ≤ message.length) :
      Moves s t (.sent n) ({ s with kernel := s.kernel ++ message.take n }.goto t .testing)
  | again {message : Bytes} (ht : s.threads t = .sending message) : Moves s t .again (s.leave t)
  | failed {message : Bytes} (ht : s.threads t = .sending message) : Moves s t .failed (s.leave t)

theorem advance_moves
    {s s' : ClientChannel}
    {t : Nat}
    {result : SendResult}
    (h : s.advance t result = some s') :
    Moves s t result s' := by
  cases ht : s.threads t with
  | idle =>
      simp only [advance, ht] at h
      cases h
  | locking =>
      simp only [advance, ht] at h
      cases hlock : s.lock with
      | some u =>
          rw [hlock] at h
          cases h
      | none =>
          rw [hlock] at h
          cases h
          exact .lock ht hlock
  | checking =>
      simp only [advance, ht] at h
      cases hrunning : s.running with
      | true =>
          simp only [hrunning, if_true] at h
          cases h
          exact .connected ht hrunning
      | false =>
          simp only [hrunning, Bool.false_eq_true, if_false] at h
          cases h
          exact .unconnected ht hrunning
  | testing =>
      simp only [advance, ht] at h
      by_cases hempty : s.channel.sendMessages = []
      · rw [if_pos hempty] at h
        cases h
        exact .testEmpty ht hempty
      · rw [if_neg hempty] at h
        cases h
        exact .testFound ht hempty
  | popping =>
      simp only [advance, ht] at h
      cases hq : s.channel.sendMessages with
      | nil =>
          rw [hq] at h
          cases h
      | cons message messages =>
          rw [hq] at h
          cases h
          exact .pop ht hq
  | sending message =>
      simp only [advance, ht] at h
      cases result with
      | sent n =>
          simp only [Option.ite_none_right_eq_some, Option.some.injEq] at h
          obtain ⟨⟨hpos, hn⟩, rfl⟩ := h
          exact .sent ht hpos hn
      | again =>
          cases h
          exact .again ht
      | failed =>
          cases h
          exact .failed ht

/-- The message the holder of the lock has popped and not handed to `::send`. -/
def held (s : ClientChannel) : Bytes := inHand s.threads s.lock

end ClientChannel

/-- The bytes in the kernel, in hand and in the queue are the frames, in order. -/
def Unbroken (s : ClientChannel) : Prop :=
  s.kernel ++ s.held ++ s.channel.sendMessages.flatten = s.queued.flatten

/-- If the step is a `::send`, it accepts the whole frame. -/
def AcceptsWhole (s : ClientChannel) : ClientSendEvent → Prop
  | .advance t result =>
      match s.threads t with
      | .sending message => result = .sent message.length
      | _ => True
  | _ => True

/-! ### The invariant -/

structure Handing (s : ClientChannel) : Prop where
  exclusive : Exclusive ClientSendPoint.inside s.threads s.lock
  unbroken : Unbroken s
  frames : ∀ m ∈ s.channel.sendMessages, m ≠ []
  sending : ∀ t m, s.threads t = .sending m → m ≠ []

theorem handing_init (type : CompressionType) (data : Nat → UInt8) :
    Handing (ClientChannel.init type data) where
  exclusive := by
    intro t ht
    cases ht
  unbroken := rfl
  frames := by
    intro m hm
    cases hm
  sending := by
    intro t m ht
    cases ht

section Steps

variable {s : ClientChannel} {t : Nat} {lock : Option Nat} {running : Bool}
  {point : ClientSendPoint}

theorem inHand_update
    {threads : Nat → ClientSendPoint}
    (h : point.message = (threads t).message) :
    inHand (Function.update threads t point) lock = inHand threads lock := by
  cases lock with
  | none => rfl
  | some u =>
      by_cases hut : u = t
      · subst hut
        simpa [inHand] using h
      · simp [inHand, Function.update_of_ne hut]

theorem held_eq
    (hlock : s.lock = some t) :
    s.held = (s.threads t).message := by
  rw [ClientChannel.held, hlock]
  rfl

/-- Only thread `t` and the lock change, and nothing in hand. -/
theorem Handing.move
    (h : Handing s)
    (hexclusive : Exclusive ClientSendPoint.inside (Function.update s.threads t point) lock)
    (hhand : inHand (Function.update s.threads t point) lock = s.held)
    (hpoint : ∀ m, point ≠ .sending m) :
    Handing { s with threads := Function.update s.threads t point, lock := lock } where
  exclusive := hexclusive
  unbroken := by
    have hbytes := h.unbroken
    rw [Unbroken, ← hhand] at hbytes
    exact hbytes
  frames := h.frames
  sending := by
    intro u m hu
    by_cases hut : u = t
    · subst hut
      simp only [Function.update_self] at hu
      exact absurd hu (hpoint m)
    · simp only [Function.update_of_ne hut] at hu
      exact h.sending u m hu

theorem Handing.goto
    (h : Handing s)
    (hinside : point.inside = true → (s.threads t).inside = true)
    (hbefore : (s.threads t).message = [])
    (hpoint : ∀ m, point ≠ .sending m) :
    Handing (s.goto t point) := by
  have hmessage : point.message = [] := by
    cases point with
    | sending m => exact absurd rfl (hpoint m)
    | _ => rfl
  exact h.move (h.exclusive.move hinside) (inHand_update (hmessage.trans hbefore.symm)) hpoint

theorem Handing.leave
    (h : Handing s)
    (hinside : (s.threads t).inside = true)
    (hbefore : (s.threads t).message = []) :
    Handing (s.leave t) := by
  have hlock := h.exclusive t hinside
  have hexclusive := h.exclusive
  rw [hlock] at hexclusive
  refine h.move (hexclusive.release rfl) ?_ ?_
  · rw [held_eq hlock, hbefore]
    rfl
  · intro m hm
    cases hm

theorem Handing.push
    {message : Bytes}
    (hmessage : message ≠ [])
    (h : Handing s)
    (ht : s.threads t = .idle) :
    Handing
      ({ s with
        channel := s.channel.push message
        queued := s.queued ++ [message] }.goto t .locking) where
  exclusive := h.exclusive.move fun hp => by cases hp
  unbroken := by
    have hhand : inHand (Function.update s.threads t .locking) s.lock = s.held :=
      inHand_update (by rw [ht]; rfl)
    show s.kernel ++ inHand (Function.update s.threads t .locking) s.lock ++
      (s.channel.sendMessages ++ [message]).flatten = (s.queued ++ [message]).flatten
    rw [hhand, List.flatten_append, List.flatten_append, ← List.append_assoc, h.unbroken]
  frames := by
    intro m hm
    rcases List.mem_append.mp hm with hm | hm
    · exact h.frames m hm
    · rw [List.mem_singleton.mp hm]
      exact hmessage
  sending := by
    intro u m hu
    have hut : u ≠ t := by
      rintro rfl
      simp [ClientChannel.goto] at hu
    simp only [ClientChannel.goto, Function.update_of_ne hut] at hu
    exact h.sending u m hu

theorem Handing.pop
    {message : Bytes}
    {messages : List Bytes}
    (h : Handing s)
    (ht : s.threads t = .popping)
    (hq : s.channel.sendMessages = message :: messages) :
    Handing
      ({ s with
        channel := { s.channel with sendMessages := messages } }.goto t (.sending message)) := by
  have hinside : (s.threads t).inside = true := by rw [ht]; rfl
  have hlock := h.exclusive t hinside
  refine ⟨h.exclusive.move fun _ => hinside, ?_, ?_, ?_⟩
  · have hbytes := h.unbroken
    rw [Unbroken, held_eq hlock, hq] at hbytes
    simp only [ht, ClientSendPoint.message, List.flatten_cons, List.append_nil] at hbytes
    rw [Unbroken, ClientChannel.held, ClientChannel.goto]
    simp only [inHand, hlock, Function.update_self, ClientSendPoint.message]
    rwa [List.append_assoc]
  · intro m hm
    exact h.frames m (by rw [hq]; exact List.mem_cons_of_mem _ hm)
  · intro u m hu
    by_cases hut : u = t
    · subst hut
      simp only [ClientChannel.goto, Function.update_self] at hu
      cases hu
      exact h.frames message (by rw [hq]; exact List.mem_cons_self ..)
    · simp only [ClientChannel.goto, Function.update_of_ne hut] at hu
      exact h.sending u m hu

/-- With a message in hand, the queue and the kernel lack just that. -/
theorem Handing.unbroken_sending
    {message : Bytes}
    (h : Handing s)
    (ht : s.threads t = .sending message) :
    s.kernel ++ message ++ s.channel.sendMessages.flatten = s.queued.flatten := by
  have hlock := h.exclusive t (by rw [ht]; rfl)
  have hbytes := h.unbroken
  rw [Unbroken, held_eq hlock, ht] at hbytes
  exact hbytes

/-- `::send` accepts the whole message. -/
theorem Handing.send
    {message : Bytes}
    (h : Handing s)
    (ht : s.threads t = .sending message) :
    Handing ({ s with
      kernel := s.kernel ++ message.take message.length }.goto t .testing) := by
  have hinside : (s.threads t).inside = true := by rw [ht]; rfl
  have hlock := h.exclusive t hinside
  refine ⟨h.exclusive.move fun _ => hinside, ?_, h.frames, ?_⟩
  · rw [Unbroken, ClientChannel.held, ClientChannel.goto]
    simp only [inHand, hlock, Function.update_self, ClientSendPoint.message, List.take_length,
      List.append_nil]
    exact h.unbroken_sending ht
  · intro u m hu
    have hut : u ≠ t := by
      rintro rfl
      simp [ClientChannel.goto] at hu
    simp only [ClientChannel.goto, Function.update_of_ne hut] at hu
    exact h.sending u m hu

/-- A step in which `::send`, if it is one, accepts the whole frame keeps the invariant. -/
theorem Handing.advance
    {s' : ClientChannel}
    {result : SendResult}
    (h : Handing s)
    (hok : AcceptsWhole s (.advance t result))
    (hstep : s.advance t result = some s') :
    Handing s' := by
  cases ClientChannel.advance_moves hstep with
  | lock _ hlock =>
      have hexclusive := h.exclusive
      rw [hlock] at hexclusive
      refine h.move (hexclusive.acquire _) ?_ ?_
      · rw [ClientChannel.held, hlock]
        simp [inHand, ClientSendPoint.message]
      · intro m hm
        cases hm
  | connected ht _ =>
      have hinside : (s.threads t).inside = true := by rw [ht]; rfl
      exact h.goto (fun _ => hinside) (by rw [ht]; rfl) fun m hm => by cases hm
  | unconnected ht _ => exact h.leave (by rw [ht]; rfl) (by rw [ht]; rfl)
  | testEmpty ht _ => exact h.leave (by rw [ht]; rfl) (by rw [ht]; rfl)
  | testFound ht _ =>
      have hinside : (s.threads t).inside = true := by rw [ht]; rfl
      exact h.goto (fun _ => hinside) (by rw [ht]; rfl) fun m hm => by cases hm
  | pop ht hq => exact h.pop ht hq
  | sent ht _ _ =>
      simp only [AcceptsWhole, ht] at hok
      cases hok
      exact h.send ht
  | again ht =>
      simp only [AcceptsWhole, ht] at hok
      cases hok
  | failed ht =>
      simp only [AcceptsWhole, ht] at hok
      cases hok

/-- After a `::send` that does not accept the whole message, bytes are missing. -/
theorem Handing.whole
    {s' : ClientChannel}
    {result : SendResult}
    (h : Handing s)
    (hstep : s.advance t result = some s')
    (hunbroken : Unbroken s') :
    AcceptsWhole s (.advance t result) := by
  rw [AcceptsWhole]
  cases ht : s.threads t with
  | sending message =>
      have hinside : (s.threads t).inside = true := by rw [ht]; rfl
      have hlock := h.exclusive t hinside
      have hbefore := h.unbroken_sending ht
      have hne := h.sending t message ht
      -- what the kernel got of the message must be the message
      have hgot : ∀ got : Bytes,
          s.kernel ++ got ++ s.channel.sendMessages.flatten = s.queued.flatten →
            got = message := by
        intro got hafter
        have hcancel := List.append_cancel_right (hafter.trans hbefore.symm)
        exact List.append_cancel_left hcancel
      simp only [ClientChannel.advance, ht] at hstep
      cases result with
      | sent n =>
          simp only [Option.ite_none_right_eq_some, Option.some.injEq] at hstep
          obtain ⟨⟨-, hn⟩, rfl⟩ := hstep
          simp only [Unbroken, ClientChannel.held, ClientChannel.goto, inHand, hlock,
            Function.update_self, ClientSendPoint.message, List.append_nil] at hunbroken
          have hlength := congrArg List.length (hgot _ hunbroken)
          rw [List.length_take] at hlength
          show SendResult.sent n = .sent message.length
          rw [show n = message.length by omega]
      | again =>
          cases hstep
          simp only [Unbroken, ClientChannel.held, ClientChannel.leave, inHand] at hunbroken
          exact absurd (hgot [] hunbroken).symm hne
      | failed =>
          cases hstep
          simp only [Unbroken, ClientChannel.held, ClientChannel.leave, inHand] at hunbroken
          exact absurd (hgot [] hunbroken).symm hne
  | _ => trivial

end Steps

theorem Handing.step
    {host : Endian}
    {brotli : Brotli}
    {s s' : ClientChannel}
    {e : ClientSendEvent}
    (h : Handing s)
    (hok : AcceptsWhole s e)
    (hstep : ClientChannel.step host brotli s e = some s') :
    Handing s' := by
  cases e with
  | sendMessage t data =>
      simp only [ClientChannel.step, Option.ite_none_right_eq_some] at hstep
      obtain ⟨ht, hstep⟩ := hstep
      simp only [SocketChannel.writeData] at hstep
      cases hencode : encodeString brotli s.channel.compressionType data with
      | error e =>
          rw [hencode] at hstep
          cases hstep
      | ok encoded =>
          rw [hencode] at hstep
          cases hstep
          exact h.push (frame_ne_nil host encoded) ht
  | advance t result => exact h.advance hok hstep
  | disconnect =>
      cases hstep
      exact ⟨h.exclusive, h.unbroken, h.frames, h.sending⟩

/-- **The stream of a client is unbroken all along a run exactly when every `::send` of
the run accepts the whole frame.** -/
theorem client_sends_unbroken_iff
    (host : Endian)
    (brotli : Brotli)
    (type : CompressionType)
    (data : Nat → UInt8)
    (es : List ClientSendEvent) :
    (ClientChannel.system host brotli type data).Throughout Unbroken
        (ClientChannel.init type data) es ↔
      (ClientChannel.system host brotli type data).Every AcceptsWhole
        (ClientChannel.init type data) es := by
  refine System.throughout_iff_every (I := Handing) ?_ ?_ ?_ (handing_init type data) es
  · exact fun s hs => hs.unbroken
  · exact fun s e t hs hok hstep => hs.step hok hstep
  · intro s e t hs hstep ht
    cases e with
    | sendMessage t data => trivial
    | advance t result => exact hs.whole hstep ht
    | disconnect => trivial

/-! ### A short send -/

def plainClient : System ClientChannel ClientSendEvent :=
  ClientChannel.system .little .identity .none fun _ => 0

/-- `::send` accepts three bytes of a frame of seven. -/
def shortSend : List ClientSendEvent :=
  [.sendMessage 0 [104, 105], .advance 0 .again, .advance 0 .again, .advance 0 .again,
    .advance 0 .again, .advance 0 (.sent 3)]

def torn : ClientChannel := (plainClient.run shortSend).getD plainClient.init

theorem short_send_tears :
    ¬ ∀ es, plainClient.Throughout Unbroken plainClient.init es := by
  intro h
  have hrun : plainClient.run shortSend = some torn := rfl
  have hunbroken : Unbroken torn := (h shortSend).last hrun
  have hkernel : torn.kernel ++ torn.held ++ torn.channel.sendMessages.flatten = [3, 0, 0] := rfl
  have hqueued : torn.queued.flatten = [3, 0, 0, 0, 0, 104, 105] := rfl
  rw [Unbroken, hkernel, hqueued] at hunbroken
  cases hunbroken

end Core
end ZeroRPC
