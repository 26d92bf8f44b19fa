import ZeroRPC.Core.Channel
import ZeroRPC.Library.Mutex
import ZeroRPC.Library.Transition

/-!
# Sending on the server

Any number of threads call `write_data` on one channel: each pushes its frame, arms
`EPOLLOUT` and calls `try_send`, which holds `_send_lock` and hands the front of the
queue to `send` from `_send_offset` on.  A push may come between any two steps of a
`try_send`; a `send` and what `try_send` then does to the offset and the front of the
queue are one step, since only the holder of the lock uses either.

Main facts:
* `Intact`: kernel, unsent tail and queue make up the frames that were pushed;
* `Sending.step`: every step keeps it until the connection is closed;
* `sends_intact`: so in every state reached, whatever `send` returned.
-/

namespace ZeroRPC
namespace Core

open Library

/-- Where a thread stands in the send message callback and in `try_send`. -/
inductive SendPoint
  | idle
  | arming
  | locking
  | testing
  | fetching
  | sending (message : Bytes)
  | disarming
deriving DecidableEq

/-- Between taking `_send_lock` and giving it back. -/
def SendPoint.inside : SendPoint → Bool
  | .idle => false
  | .arming => false
  | .locking => false
  | _ => true

/-- What `send` returns: a count, `-1` with `EAGAIN` or `EWOULDBLOCK`, or `-1` with
another `errno`. -/
inductive SendResult
  | sent (n : Nat)
  | again
  | failed
deriving DecidableEq

/-- A channel of the server with its threads.  `kernel` are the bytes `send` has
accepted, `queued` the frames pushed so far. -/
structure ServerChannel where
  channel : SocketChannel
  threads : Nat → SendPoint
  lock : Option Nat
  epollout : Bool
  closed : Bool
  kernel : Bytes
  queued : List Bytes

inductive SendEvent
  | writeData (t : Nat) (data : Bytes)
  | trySend (t : Nat)
  | advance (t : Nat) (result : SendResult)
  | close

namespace ServerChannel

def init (type : CompressionType) (data : Nat → UInt8) : ServerChannel where
  channel := .init type data
  threads := fun _ => .idle
  lock := none
  epollout := false
  closed := false
  kernel := []
  queued := []

/-- Thread `t` goes on to a point. -/
def goto (s : ServerChannel) (t : Nat) (point : SendPoint) : ServerChannel :=
  { s with threads := Function.update s.threads t point }

/-- `try_send` returns. -/
def leave (s : ServerChannel) (t : Nat) : ServerChannel :=
  { s with threads := Function.update s.threads t .idle, lock := none }

/-- `_send_offset += sent`, and `pop` and `_send_offset = 0` at the end of the message. -/
def account (channel : SocketChannel) (message : Bytes) (n : Nat) : SocketChannel :=
  if channel.sendOffset + n = message.length then
    { channel with sendMessages := channel.sendMessages.tail, sendOffset := 0 }
  else
    { channel with sendOffset := channel.sendOffset + n }

/-- The next step of a thread; `result` is what `send` returns if that is the step. -/
def advance (s : ServerChannel) (t : Nat) (result : SendResult) : Option ServerChannel :=
  match s.threads t with
  | .idle => none
  | .arming => some ({ s with epollout := true }.goto t .locking)
  | .locking =>
      match s.lock with
      | some _ => none
      | none => some ({ s with lock := some t }.goto t .testing)
  | .testing =>
      if s.channel.sendMessages = [] then
        some (s.goto t .disarming)
      else
        some (s.goto t .fetching)
  | .fetching =>
      match s.channel.sendMessages with
      | [] => none
      | message :: _ => some (s.goto t (.sending message))
  | .sending message =>
      match result with
      | .sent n =>
          if 0 < n ∧ n ≤ message.length - s.channel.sendOffset then
            some ({ s with
              kernel := s.kernel ++ (message.drop s.channel.sendOffset).take n
              channel := account s.channel message n }.goto t .testing)
          else
            none
      | .again => some (s.leave t)
      | .failed => some ({ s with closed := true }.leave t)
  | .disarming => some ({ s with epollout := false }.leave t)

/-- A thread calls `write_data` or `try_send`, or goes on; the connection is closed. -/
def step (host : Endian) (brotli : Brotli) (s : ServerChannel) (e : SendEvent) :
    Option ServerChannel :=
  if s.closed then
    none
  else
    match e with
    | .writeData t data =>
        if s.threads t = .idle then
          match s.channel.writeData host brotli data with
          | .error _ => none
          | .ok (message, channel) =>
              some ({ s with channel := channel, queued := s.queued ++ [message] }.goto t .arming)
        else
          none
    | .trySend t => if s.threads t = .idle then some (s.goto t .locking) else none
    | .advance t result => s.advance t result
    | .close => some { s with closed := true }

def system (host : Endian) (brotli : Brotli) (type : CompressionType) (data : Nat → UInt8) :
    System ServerChannel SendEvent where
  init := init type data
  step := step host brotli

/-- What a step of a thread can be. -/
inductive Moves (s : ServerChannel) (t : Nat) : SendResult → ServerChannel → Prop
  | arm {result : SendResult} (ht : s.threads t = .arming) :
      Moves s t result ({ s with epollout := true }.goto t .locking)
  | lock {result : SendResult} (ht : s.threads t = .locking) (hlock : s.lock = none) :
      Moves s t result ({ s with lock := some t }.goto t .testing)
  | testEmpty {result : SendResult} (ht : s.threads t = .testing)
      (h : s.channel.sendMessages = []) : Moves s t result (s.goto t .disarming)
  | testFound {result : SendResult} (ht : s.threads t = .testing)
      (h : s.channel.sendMessages ≠ []) : Moves s t result (s.goto t .fetching)
  | fetch {result : SendResult} {message : Bytes} {messages : List Bytes}
      (ht : s.threads t = .fetching) (h : s.channel.sendMessages = message :: messages) :
      Moves s t result (s.goto t (.sending message))
  | sent {message : Bytes} {n : Nat} (ht : s.threads t = .sending message) (hpos : 0 < n)
      (hn : n ≤ message.length - s.channel.sendOffset) :
      Moves s t (.sent n)
        ({ s with
          kernel := s.kernel ++ (message.drop s.channel.sendOffset).take n
          channel := account s.channel message n }.goto t .testing)
  | again {message : Bytes} (ht : s.threads t = .sending message) : Moves s t .again (s.leave t)
  | failed {message : Bytes} (ht : s.threads t = .sending message) :
      Moves s t .failed ({ s with closed := true }.leave t)
  | disarm {result : SendResult} (ht : s.threads t = .disarming) :
      Moves s t result ({ s with epollout := false }.leave t)

theorem advance_moves
    {s s' : ServerChannel}
    {t : Nat}
    {result : SendResult}
    (h : s.advance t result = some s') :
    Moves s t result s' := by
  cases ht : s.threads t with
  | idle =>
      simp only [advance, ht] at h
      cases h
  | arming =>
      simp only [advance, ht] at h
      cases h
      exact .arm ht
  | locking =>
      simp only [advance, ht] at h
      cases hlock : s.lock with
      | some u =>
          rw [hlock] at h
          cases h
      | none =>
          rw [hlock] at h
          cases h
          exact .lock ht hlock
  | testing =>
      simp only [advance, ht] at h
      by_cases hempty : s.channel.sendMessages = []
      · rw [if_pos hempty] at h
        cases h
        exact .testEmpty ht hempty
      · rw [if_neg hempty] at h
        cases h
        exact .testFound ht hempty
  | fetching =>
      simp only [advance, ht] at h
      cases hq : s.channel.sendMessages with
      | nil =>
          rw [hq] at h
          cases h
      | cons message messages =>
          rw [hq] at h
          cases h
          exact .fetch ht hq
  | sending message =>
      simp only [advance, ht] at h
      cases result with
      | sent n =>
          simp only [Option.ite_none_right_eq_some, Option.some.injEq] at h
          obtain ⟨⟨hpos, hn⟩, rfl⟩ := h
          exact .sent ht hpos hn
      | again =>
          cases h
          exact .again ht
      | failed =>
          cases h
          exact .failed ht
  | disarming =>
      simp only [advance, ht] at h
      cases h
      exact .disarm ht

end ServerChannel

/-! ### The invariant -/

/-- The front of the queue from the offset on, and the messages behind it. -/
def unsent (channel : SocketChannel) : Bytes :=
  match channel.sendMessages with
  | [] => []
  | message :: messages => message.drop channel.sendOffset ++ messages.flatten

/-- The offset lies inside the front of the queue, and is 0 when there is none. -/
def OffsetFits (channel : SocketChannel) : Prop :=
  match channel.sendMessages with
  | [] => channel.sendOffset = 0
  | message :: _ => channel.sendOffset < message.length

/-- No byte is lost, repeated or out of place. -/
def Intact (s : ServerChannel) : Prop :=
  s.kernel ++ unsent s.channel = s.queued.flatten ∧ OffsetFits s.channel

section Queue

variable {channel : SocketChannel} {message : Bytes} {messages : List Bytes}

theorem unsent_push
    (h : OffsetFits channel) :
    unsent (channel.push message) = unsent channel ++ message := by
  cases hq : channel.sendMessages with
  | nil =>
      have hzero : channel.sendOffset = 0 := by simpa only [OffsetFits, hq] using h
      simp [unsent, SocketChannel.push, hq, hzero]
  | cons front rest => simp [unsent, SocketChannel.push, hq]

theorem offsetFits_push
    (hmessage : message ≠ [])
    (h : OffsetFits channel) :
    OffsetFits (channel.push message) := by
  cases hq : channel.sendMessages with
  | nil =>
      have hzero : channel.sendOffset = 0 := by simpa only [OffsetFits, hq] using h
      have hpos := List.length_pos_of_ne_nil hmessage
      simpa [OffsetFits, SocketChannel.push, hq, hzero] using hpos
  | cons front rest =>
      have hlt : channel.sendOffset < front.length := by simpa only [OffsetFits, hq] using h
      simpa [OffsetFits, SocketChannel.push, hq] using hlt

/-- What `send` accepted and what is left are what was there. -/
theorem unsent_account
    {n : Nat}
    (hq : channel.sendMessages = message :: messages)
    (h : channel.sendOffset < message.length) :
    (message.drop channel.sendOffset).take n ++
        unsent (ServerChannel.account channel message n) = unsent channel := by
  have hwhole : unsent channel = message.drop channel.sendOffset ++ messages.flatten := by
    simp only [unsent, hq]
  rw [hwhole, ServerChannel.account]
  by_cases hend : channel.sendOffset + n = message.length
  · have hall : (message.drop channel.sendOffset).take n = message.drop channel.sendOffset :=
      List.take_of_length_le (by rw [List.length_drop]; omega)
    rw [if_pos hend, hall]
    cases messages with
    | nil => simp [unsent, hq]
    | cons front rest => simp [unsent, hq]
  · rw [if_neg hend]
    simp only [unsent, hq]
    rw [← List.append_assoc, ← List.drop_drop, List.take_append_drop]

theorem offsetFits_account
    {n : Nat}
    (hq : channel.sendMessages = message :: messages)
    (hframes : ∀ m ∈ channel.sendMessages, m ≠ [])
    (hn : n ≤ message.length - channel.sendOffset)
    (h : channel.sendOffset < message.length) :
    OffsetFits (ServerChannel.account channel message n) := by
  rw [ServerChannel.account]
  by_cases hend : channel.sendOffset + n = message.length
  · rw [if_pos hend]
    cases messages with
    | nil => simp [OffsetFits, hq]
    | cons front rest =>
        have hpos := List.length_pos_of_ne_nil (hframes front (by simp [hq]))
        simpa [OffsetFits, hq] using hpos
  · rw [if_neg hend]
    simp only [OffsetFits, hq]
    omega

theorem frame_ne_nil (host : Endian) (encoded : Bytes) : frame host encoded ≠ [] := by
  intro h
  have hlength := congrArg List.length h
  simp [frame, header, HEAD_LENGTH] at hlength

end Queue

/-- The invariant of the send path. -/
structure Sending (s : ServerChannel) : Prop where
  exclusive : Exclusive SendPoint.inside s.threads s.lock
  intact : Intact s
  frames : ∀ m ∈ s.channel.sendMessages, m ≠ []
  /-- The queue that was tested is not empty, and the front that was fetched is in front. -/
  fetching : ∀ t, s.threads t = .fetching → s.channel.sendMessages ≠ []
  sending : ∀ t m, s.threads t = .sending m → s.channel.sendMessages.head? = some m

theorem sending_init (type : CompressionType) (data : Nat → UInt8) :
    Sending (ServerChannel.init type data) where
  exclusive := by
    intro t ht
    cases ht
  intact := ⟨rfl, rfl⟩
  frames := by
    intro m hm
    cases hm
  fetching := by
    intro t ht
    cases ht
  sending := by
    intro t m ht
    cases ht

section Steps

variable {s : ServerChannel} {t : Nat} {lock : Option Nat} {epollout closed : Bool}
  {point : SendPoint}

/-- Only thread `t`, the lock and the flags change. -/
theorem Sending.move
    (h : Sending s)
    (hexclusive : Exclusive SendPoint.inside (Function.update s.threads t point) lock)
    (hfetching : point = .fetching → s.channel.sendMessages ≠ [])
    (hsending : ∀ m, point = .sending m → s.channel.sendMessages.head? = some m) :
    Sending { s with
      threads := Function.update s.threads t point
      lock := lock
      epollout := epollout
      closed := closed } where
  exclusive := hexclusive
  intact := h.intact
  frames := h.frames
  fetching := by
    intro u hu
    by_cases hut : u = t
    · subst hut
      simp only [Function.update_self] at hu
      exact hfetching hu
    · simp only [Function.update_of_ne hut] at hu
      exact h.fetching u hu
  sending := by
    intro u m hu
    by_cases hut : u = t
    · subst hut
      simp only [Function.update_self] at hu
      exact hsending m hu
    · simp only [Function.update_of_ne hut] at hu
      exact h.sending u m hu

/-- The point supposes nothing about the queue. -/
theorem Sending.pass
    (h : Sending s)
    (hexclusive : Exclusive SendPoint.inside (Function.update s.threads t point) lock)
    (hfetching : point ≠ .fetching)
    (hsending : ∀ m, point ≠ .sending m) :
    Sending { s with
      threads := Function.update s.threads t point
      lock := lock
      epollout := epollout
      closed := closed } :=
  h.move hexclusive (fun hp => absurd hp hfetching) fun m hm => absurd hm (hsending m)

theorem Sending.leave
    (h : Sending s)
    (ht : (s.threads t).inside = true) :
    Sending { s with
      threads := Function.update s.threads t .idle
      lock := none
      epollout := epollout
      closed := closed } := by
  have hexclusive := h.exclusive
  rw [h.exclusive t ht] at hexclusive
  exact h.pass (hexclusive.release rfl) (by simp) (by simp)

theorem Sending.push
    {message : Bytes}
    (hmessage : message ≠ [])
    (h : Sending s)
    (ht : s.threads t = .idle) :
    Sending
      ({ s with
        channel := s.channel.push message
        queued := s.queued ++ [message] }.goto t .arming) where
  exclusive := h.exclusive.move fun hp => by cases hp
  intact := by
    obtain ⟨hbytes, hoffset⟩ := h.intact
    refine ⟨?_, offsetFits_push hmessage hoffset⟩
    show s.kernel ++ unsent (s.channel.push message) = (s.queued ++ [message]).flatten
    rw [unsent_push hoffset, ← List.append_assoc, hbytes]
    simp
  frames := by
    intro m hm
    rcases List.mem_append.mp hm with hm | hm
    · exact h.frames m hm
    · rw [List.mem_singleton.mp hm]
      exact hmessage
  fetching := by
    intro u _ hnil
    simp [ServerChannel.goto, SocketChannel.push] at hnil
  sending := by
    intro u m hu
    have hut : u ≠ t := by
      rintro rfl
      simp [ServerChannel.goto] at hu
    simp only [ServerChannel.goto, Function.update_of_ne hut] at hu
    have hhead := h.sending u m hu
    simp [ServerChannel.goto, SocketChannel.push, List.head?_append, hhead]

/-- `send` accepts some bytes of the front. -/
theorem Sending.send
    {message : Bytes}
    {n : Nat}
    (h : Sending s)
    (ht : s.threads t = .sending message)
    (hn : n ≤ message.length - s.channel.sendOffset) :
    Sending
      ({ s with
        kernel := s.kernel ++ (message.drop s.channel.sendOffset).take n
        channel := ServerChannel.account s.channel message n }.goto t .testing) := by
  obtain ⟨messages, hq⟩ := List.head?_eq_some_iff.mp (h.sending t message ht)
  obtain ⟨hbytes, hoffset⟩ := h.intact
  have hlt : s.channel.sendOffset < message.length := by
    simpa only [OffsetFits, hq] using hoffset
  have hinside : (s.threads t).inside = true := by rw [ht]; rfl
  have hframes : ∀ m ∈ (ServerChannel.account s.channel message n).sendMessages,
      m ∈ s.channel.sendMessages := by
    intro m hm
    rw [ServerChannel.account] at hm
    split at hm
    · exact List.mem_of_mem_tail hm
    · exact hm
  -- no other thread is between a test and a send
  have halone : ∀ u, (Function.update s.threads t .testing u).inside = true → u = t := by
    intro u hu
    by_contra hut
    rw [Function.update_of_ne hut] at hu
    exact hut (h.exclusive.eq hu hinside)
  constructor
  · exact h.exclusive.move fun _ => hinside
  · refine ⟨?_, offsetFits_account hq h.frames hn hlt⟩
    show (s.kernel ++ (message.drop s.channel.sendOffset).take n) ++
      unsent (ServerChannel.account s.channel message n) = s.queued.flatten
    rw [List.append_assoc, unsent_account hq hlt, hbytes]
  · exact fun m hm => h.frames m (hframes m hm)
  · intro u hu
    obtain rfl := halone u
      (by rw [show Function.update s.threads t .testing u = .fetching from hu]; rfl)
    simp [ServerChannel.goto] at hu
  · intro u m hu
    obtain rfl := halone u
      (by rw [show Function.update s.threads t .testing u = .sending m from hu]; rfl)
    simp [ServerChannel.goto] at hu

/-- Every step of a thread keeps the invariant. -/
theorem Sending.advance
    {s' : ServerChannel}
    {result : SendResult}
    (h : Sending s)
    (hstep : s.advance t result = some s') :
    Sending s' := by
  cases ServerChannel.advance_moves hstep with
  | arm _ => exact h.pass (h.exclusive.move fun hp => by cases hp) (by simp) (by simp)
  | lock _ hlock =>
      have hexclusive := h.exclusive
      rw [hlock] at hexclusive
      exact h.pass (hexclusive.acquire _) (by simp) (by simp)
  | testEmpty ht _ =>
      have hinside : (s.threads t).inside = true := by rw [ht]; rfl
      exact h.pass (h.exclusive.move fun _ => hinside) (by simp) (by simp)
  | testFound ht hfound =>
      have hinside : (s.threads t).inside = true := by rw [ht]; rfl
      exact h.move (h.exclusive.move fun _ => hinside) (fun _ => hfound) fun m hm => by cases hm
  | fetch ht hq =>
      have hinside : (s.threads t).inside = true := by rw [ht]; rfl
      refine h.move (h.exclusive.move fun _ => hinside) ?_ ?_
      · intro hp
        cases hp
      · intro m hm
        cases hm
        rw [hq, List.head?_cons]
  | sent ht _ hn => exact h.send ht hn
  | again ht => exact h.leave (by rw [ht]; rfl)
  | failed ht => exact h.leave (by rw [ht]; rfl)
  | disarm ht => exact h.leave (by rw [ht]; rfl)

/-- **Every step keeps the invariant.** -/
theorem Sending.step
    {host : Endian}
    {brotli : Brotli}
    {s' : ServerChannel}
    {e : SendEvent}
    (h : Sending s)
    (hstep : ServerChannel.step host brotli s e = some s') :
    Sending s' := by
  simp only [ServerChannel.step, Option.ite_none_left_eq_some] at hstep
  obtain ⟨-, hstep⟩ := hstep
  cases e with
  | writeData t data =>
      simp only [Option.ite_none_right_eq_some] at hstep
      obtain ⟨ht, hstep⟩ := hstep
      simp only [SocketChannel.writeData] at hstep
      cases hencode : encodeString brotli s.channel.compressionType data with
      | error e =>
          rw [hencode] at hstep
          cases hstep
      | ok encoded =>
          rw [hencode] at hstep
          cases hstep
          exact h.push (frame_ne_nil host encoded) ht
  | trySend t =>
      simp only [Option.ite_none_right_eq_some, Option.some.injEq] at hstep
      obtain ⟨ht, rfl⟩ := hstep
      exact h.pass (h.exclusive.move fun hp => by cases hp) (by simp) (by simp)
  | advance t result => exact h.advance hstep
  | close =>
      cases hstep
      exact ⟨h.exclusive, h.intact, h.frames, h.fetching, h.sending⟩

end Steps

/-- **The stream is intact in every state, whatever `send` returned.** -/
theorem sends_intact
    (host : Endian)
    (brotli : Brotli)
    (type : CompressionType)
    (data : Nat → UInt8)
    (s : ServerChannel)
    (h : (ServerChannel.system host brotli type data).Reachable System.anyStep s) :
    s.kernel ++ unsent s.channel = s.queued.flatten ∧ OffsetFits s.channel ∧
      s.kernel <+: s.queued.flatten := by
  have hsending : Sending s :=
    h.invariant (sending_init type data) fun _ _ _ hs _ hstep => hs.step hstep
  obtain ⟨hbytes, hoffset⟩ := hsending.intact
  refine ⟨hbytes, hoffset, ?_⟩
  rw [← hbytes]
  exact List.prefix_append _ _

/-! ### A run -/

def plainServer : System ServerChannel SendEvent :=
  ServerChannel.system .little .identity .none fun _ => 0

/-- A frame is sent in part; another one is pushed before the rest of it goes out. -/
def partialSends : List SendEvent :=
  [.writeData 0 [104, 105], .advance 0 .again, .advance 0 .again, .advance 0 .again,
    .advance 0 .again, .advance 0 (.sent 5), .writeData 1 [106], .advance 0 .again,
    .advance 0 .again, .advance 0 (.sent 2), .advance 0 .again, .advance 0 .again,
    .advance 0 (.sent 1), .advance 0 .again, .advance 0 .again, .advance 0 .again]

def partlySent : ServerChannel := (plainServer.run partialSends).getD plainServer.init

theorem partlySent_reachable : plainServer.Reachable System.anyStep partlySent :=
  System.run_reachable (show plainServer.run partialSends = some partlySent from rfl)

theorem partlySent_intact :
    partlySent.kernel = [3, 0, 0, 0, 0, 104, 105, 2] ∧
      partlySent.kernel ++ unsent partlySent.channel = partlySent.queued.flatten :=
  ⟨rfl, (sends_intact .little .identity .none (fun _ => 0) partlySent partlySent_reachable).1⟩

end Core
end ZeroRPC
