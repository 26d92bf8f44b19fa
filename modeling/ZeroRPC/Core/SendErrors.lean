import ZeroRPC.Core.ClientSend

/-!
# Whose send failed

A thread in the send message callback of the client pops whatever is at the front of the
queue, also frames that other threads have pushed.  Here the frames are numbered in the
order in which they were pushed, and each call of `write_data` is known by the number of
its own frame; `::send` accepts a whole frame or fails.

Main facts:
* `SendCalls.step_client`: without the numbers these are the steps of the client;
* `Owned.step`: what is known of every frame and every call, as long as a thread whose
  `::send` fails has its own frame in hand;
* `send_errors_attributed_iff`: a call throws when its own frame failed, and returns when
  its own frame was sent, all along a run exactly when that is so of every step.
-/

namespace ZeroRPC
namespace Core

open Library

/-- A client, and the numbers of the frames in its queue (`numbers`), of the frame that was
popped last (`hand`) and of the frame of each thread's call (`own`); then the frames that
were sent and that failed, and the calls that threw and that returned. -/
structure SendCalls where
  client : ClientChannel
  numbers : List Nat
  hand : Nat
  own : Nat → Nat
  sent : List Nat
  failed : List Nat
  threw : List Nat
  returned : List Nat

namespace SendCalls

def init (type : CompressionType) (data : Nat → UInt8) : SendCalls where
  client := .init type data
  numbers := []
  hand := 0
  own := fun _ => 0
  sent := []
  failed := []
  threw := []
  returned := []

/-- What the step of a thread means for the frames and the calls.  A call that finds the
client not connected throws, and its frame has failed unless it was sent before. -/
def note (s : SendCalls) (t : Nat) (result : SendResult) (client : ClientChannel) :
    Option SendCalls :=
  match s.client.threads t with
  | .idle => none
  | .locking => some { s with client := client }
  | .checking =>
      if s.client.running then
        some { s with client := client }
      else
        some { s with
          client := client
          failed := if s.own t ∈ s.sent then s.failed else s.own t :: s.failed
          threw := s.own t :: s.threw }
  | .testing =>
      if s.client.channel.sendMessages = [] then
        some { s with client := client, returned := s.own t :: s.returned }
      else
        some { s with client := client }
  | .popping =>
      match s.numbers with
      | [] => none
      | number :: numbers => some { s with client := client, numbers := numbers, hand := number }
  | .sending message =>
      match result with
      | .sent n =>
          if n = message.length then
            some { s with client := client, sent := s.hand :: s.sent }
          else
            none
      | _ =>
          some { s with
            client := client
            failed := s.hand :: s.failed
            threw := s.own t :: s.threw }

def step (host : Endian) (brotli : Brotli) (s : SendCalls) (e : ClientSendEvent) :
    Option SendCalls :=
  match s.client.step host brotli e with
  | none => none
  | some client =>
      match e with
      | .sendMessage t _ =>
          some { s with
            client := client
            numbers := s.numbers ++ [s.client.queued.length]
            own := Function.update s.own t s.client.queued.length }
      | .advance t result => s.note t result client
      | .disconnect => some { s with client := client }

def system (host : Endian) (brotli : Brotli) (type : CompressionType) (data : Nat → UInt8) :
    System SendCalls ClientSendEvent where
  init := init type data
  step := step host brotli

end SendCalls

/-- A call that threw is that of a frame that failed, and a call that returned is that of a
frame that was sent and did not fail. -/
def Attributed (s : SendCalls) : Prop :=
  (∀ c ∈ s.threw, c ∈ s.failed) ∧ ∀ c ∈ s.returned, c ∈ s.sent ∧ c ∉ s.failed

/-- A `::send` that fails is that of the thread's own frame, and a call that finds the
client not connected is not one whose frame another thread has sent. -/
def OwnFailure (s : SendCalls) : ClientSendEvent → Prop
  | .advance t result =>
      match s.client.threads t with
      | .checking => s.client.running = false → s.own t ∉ s.sent
      | .sending message => result ≠ .sent message.length → s.hand = s.own t
      | _ => True
  | _ => True

/-! ### The invariant -/

/-- The frame with a number. -/
def ClientChannel.numbered (client : ClientChannel) (n : Nat) : Bytes := client.queued.getD n []

/-- What is known of frames and calls. -/
structure Owned (s : SendCalls) : Prop where
  exclusive : Exclusive ClientSendPoint.inside s.client.threads s.client.lock
  queue : s.client.channel.sendMessages = s.numbers.map s.client.numbered
  numbers : ∀ n ∈ s.numbers, n < s.client.queued.length
  sending : ∀ t m, s.client.threads t = .sending m →
    s.hand < s.client.queued.length ∧ m = s.client.numbered s.hand
  calls : ∀ t, s.client.threads t ≠ .idle →
    s.own t < s.client.queued.length ∧ s.own t ∉ s.threw ∧ s.own t ∉ s.returned
  distinct : ∀ t u, s.client.threads t ≠ .idle → s.client.threads u ≠ .idle →
    s.own t = s.own u → t = u
  past : ∀ c, c ∈ s.threw ∨ c ∈ s.returned → c < s.client.queued.length
  somewhere : ∀ c < s.client.queued.length, c ∈ s.numbers ∨
    (∃ t m, s.client.threads t = .sending m ∧ s.hand = c) ∨ c ∈ s.sent ∨ c ∈ s.failed
  failedThrew : ∀ c ∈ s.failed, c ∈ s.threw
  attributed : Attributed s

theorem owned_init (type : CompressionType) (data : Nat → UInt8) :
    Owned (SendCalls.init type data) where
  exclusive := by
    intro t ht
    cases ht
  queue := rfl
  numbers := by
    intro n hn
    cases hn
  sending := by
    intro t m ht
    cases ht
  calls := by
    intro t ht
    exact absurd rfl ht
  distinct := by
    intro t u ht
    exact absurd rfl ht
  past := by
    rintro c (hc | hc) <;> cases hc
  somewhere := by
    intro c hc
    cases hc
  failedThrew := by
    intro c hc
    cases hc
  attributed := by
    constructor <;> (intro c hc; cases hc)

section Steps

variable {s : SendCalls} {t : Nat} {lock : Option Nat} {point : ClientSendPoint}

/-- A thread in a call that goes on in it: nobody else begins one. -/
theorem active_of_update
    {threads : Nat → ClientSendPoint}
    (hactive : threads t ≠ .idle)
    (u : Nat)
    (hu : Function.update threads t point u ≠ .idle) :
    threads u ≠ .idle := by
  by_cases hut : u = t
  · subst hut
    exact hactive
  · rwa [Function.update_of_ne hut] at hu

/-- Only thread `t` and the lock change, and no frame is taken or put away. -/
theorem Owned.move
    (h : Owned s)
    (hexclusive :
      Exclusive ClientSendPoint.inside (Function.update s.client.threads t point) lock)
    (hactive : s.client.threads t ≠ .idle)
    (hbefore : ∀ m, s.client.threads t ≠ .sending m)
    (hpoint : ∀ m, point ≠ .sending m) :
    Owned { s with
      client := { s.client with
        threads := Function.update s.client.threads t point
        lock := lock } } := by
  have hother : ∀ u, Function.update s.client.threads t point u ≠ .idle →
      s.client.threads u ≠ .idle :=
    active_of_update hactive
  constructor
  · exact hexclusive
  · exact h.queue
  · exact h.numbers
  · intro u m hu
    by_cases hut : u = t
    · subst hut
      simp only [Function.update_self] at hu
      exact absurd hu (hpoint m)
    · simp only [Function.update_of_ne hut] at hu
      exact h.sending u m hu
  · exact fun u hu => h.calls u (hother u hu)
  · exact fun u v hu hv => h.distinct u v (hother u hu) (hother v hv)
  · exact h.past
  · intro c hc
    rcases h.somewhere c hc with hqueued | ⟨u, m, hu, hhand⟩ | hdone
    · exact .inl hqueued
    · refine .inr (.inl ⟨u, m, ?_, hhand⟩)
      have hut : u ≠ t := by
        rintro rfl
        exact hbefore m hu
      simpa only [Function.update_of_ne hut] using hu
    · exact .inr (.inr hdone)
  · exact h.failedThrew
  · exact h.attributed

/-- The calls of other threads are not that of `t`. -/
theorem Owned.own_ne
    (h : Owned s)
    (hactive : s.client.threads t ≠ .idle)
    {u : Nat}
    (hu : Function.update s.client.threads t .idle u ≠ .idle) :
    s.client.threads u ≠ .idle ∧ s.own u ≠ s.own t := by
  have hut : u ≠ t := by
    rintro rfl
    exact hu (Function.update_self ..)
  rw [Function.update_of_ne hut] at hu
  exact ⟨hu, fun heq => hut (h.distinct u t hu hactive heq)⟩

/-- **A call throws over its own frame.**  It holds the lock; if it has a frame in hand, that
is its own. -/
theorem Owned.throws
    (h : Owned s)
    (hinside : (s.client.threads t).inside = true)
    (hhand : ∀ m, s.client.threads t = .sending m → s.hand = s.own t) :
    Owned { s with
      client := s.client.leave t
      failed := s.own t :: s.failed
      threw := s.own t :: s.threw } := by
  have hactive : s.client.threads t ≠ .idle := by
    intro hidle
    rw [hidle] at hinside
    cases hinside
  have hexclusive := h.exclusive
  rw [h.exclusive t hinside] at hexclusive
  obtain ⟨hown, hthrew, hreturned⟩ := h.calls t hactive
  constructor
  · exact hexclusive.release rfl
  · exact h.queue
  · exact h.numbers
  · intro u m hu
    by_cases hut : u = t
    · subst hut
      simp [ClientChannel.leave] at hu
    · simp only [ClientChannel.leave, Function.update_of_ne hut] at hu
      exact h.sending u m hu
  · intro u hu
    obtain ⟨hu, hne⟩ := h.own_ne hactive hu
    obtain ⟨hlt, hnthrew, hnreturned⟩ := h.calls u hu
    refine ⟨hlt, ?_, hnreturned⟩
    intro hmem
    rcases List.mem_cons.mp hmem with heq | hmem
    · exact hne heq
    · exact hnthrew hmem
  · intro u v hu hv
    exact h.distinct u v (h.own_ne hactive hu).1 (h.own_ne hactive hv).1
  · rintro c (hc | hc)
    · rcases List.mem_cons.mp hc with rfl | hc
      · exact hown
      · exact h.past c (.inl hc)
    · exact h.past c (.inr hc)
  · intro c hc
    rcases h.somewhere c hc with hqueued | ⟨u, m, hu, rfl⟩ | hsent | hfailed
    · exact .inl hqueued
    · by_cases hut : u = t
      · subst hut
        exact .inr (.inr (.inr (by rw [hhand m hu]; exact List.mem_cons_self ..)))
      · refine .inr (.inl ⟨u, m, ?_, rfl⟩)
        simpa only [ClientChannel.leave, Function.update_of_ne hut] using hu
    · exact .inr (.inr (.inl hsent))
    · exact .inr (.inr (.inr (List.mem_cons_of_mem _ hfailed)))
  · intro c hc
    rcases List.mem_cons.mp hc with rfl | hc
    · exact List.mem_cons_self ..
    · exact List.mem_cons_of_mem _ (h.failedThrew c hc)
  · constructor
    · intro c hc
      rcases List.mem_cons.mp hc with rfl | hc
      · exact List.mem_cons_self ..
      · exact List.mem_cons_of_mem _ (h.attributed.1 c hc)
    · intro c hc
      obtain ⟨hsent, hnfailed⟩ := h.attributed.2 c hc
      refine ⟨hsent, ?_⟩
      intro hmem
      rcases List.mem_cons.mp hmem with rfl | hmem
      · exact hreturned hc
      · exact hnfailed hmem

/-- A `::send` of the call's own frame fails. -/
theorem Owned.fails
    {message : Bytes}
    (h : Owned s)
    (ht : s.client.threads t = .sending message)
    (hown : s.hand = s.own t) :
    Owned { s with
      client := s.client.leave t
      failed := s.hand :: s.failed
      threw := s.own t :: s.threw } := by
  have hinside : (s.client.threads t).inside = true := by rw [ht]; rfl
  have hfailed : s.hand :: s.failed = s.own t :: s.failed := by rw [hown]
  rw [hfailed]
  exact h.throws hinside fun _ _ => hown

/-- With the queue empty and nobody sending, the frame of a call was sent. -/
theorem Owned.own_sent
    (h : Owned s)
    (ht : s.client.threads t = .testing)
    (hempty : s.client.channel.sendMessages = []) :
    s.own t ∈ s.sent ∧ s.own t ∉ s.failed := by
  obtain ⟨hown, hthrew, -⟩ := h.calls t (by rw [ht]; exact fun h => by cases h)
  have hnfailed : s.own t ∉ s.failed := fun hmem => hthrew (h.failedThrew _ hmem)
  refine ⟨?_, hnfailed⟩
  have hqueue := h.queue
  rw [hempty] at hqueue
  rcases h.somewhere _ hown with hqueued | ⟨u, m, hu, -⟩ | hsent | hfailed
  · rw [List.map_eq_nil_iff.mp hqueue.symm] at hqueued
    cases hqueued
  · have hut : u = t := h.exclusive.eq (by rw [hu]; rfl) (by rw [ht]; rfl)
    rw [hut, ht] at hu
    cases hu
  · exact hsent
  · exact absurd hfailed hnfailed

/-- **A call returns when the queue is empty.** -/
theorem Owned.returns
    (h : Owned s)
    (ht : s.client.threads t = .testing)
    (hempty : s.client.channel.sendMessages = []) :
    Owned { s with client := s.client.leave t, returned := s.own t :: s.returned } := by
  have hinside : (s.client.threads t).inside = true := by rw [ht]; rfl
  have hactive : s.client.threads t ≠ .idle := by
    rw [ht]
    exact fun hidle => by cases hidle
  have hexclusive := h.exclusive
  rw [h.exclusive t hinside] at hexclusive
  obtain ⟨hown, -, -⟩ := h.calls t hactive
  have hmoved : Owned { s with client := s.client.leave t } :=
    h.move (hexclusive.release rfl) hactive (fun m hm => by rw [ht] at hm; cases hm)
      fun m hm => by cases hm
  refine { hmoved with calls := ?_, past := ?_, attributed := ⟨h.attributed.1, ?_⟩ }
  · intro u hu
    obtain ⟨hu, hne⟩ := h.own_ne hactive hu
    obtain ⟨hlt, hnthrew, hnreturned⟩ := h.calls u hu
    refine ⟨hlt, hnthrew, ?_⟩
    intro hmem
    rcases List.mem_cons.mp hmem with heq | hmem
    · exact hne heq
    · exact hnreturned hmem
  · rintro c (hc | hc)
    · exact h.past c (.inl hc)
    · rcases List.mem_cons.mp hc with rfl | hc
      · exact hown
      · exact h.past c (.inr hc)
  · intro c hc
    rcases List.mem_cons.mp hc with rfl | hc
    · exact h.own_sent ht hempty
    · exact h.attributed.2 c hc

/-- **A thread pops the frame at the front.** -/
theorem Owned.take
    {message : Bytes}
    {messages : List Bytes}
    {number : Nat}
    {numbers : List Nat}
    (h : Owned s)
    (ht : s.client.threads t = .popping)
    (hmessages : s.client.channel.sendMessages = message :: messages)
    (hnumbers : s.numbers = number :: numbers) :
    Owned { s with
      client := { s.client with
        channel := { s.client.channel with sendMessages := messages } }.goto t (.sending message)
      numbers := numbers
      hand := number } := by
  have hinside : (s.client.threads t).inside = true := by rw [ht]; rfl
  have hactive : s.client.threads t ≠ .idle := by
    rw [ht]
    exact fun hidle => by cases hidle
  have hother : ∀ u, Function.update s.client.threads t (.sending message) u ≠ .idle →
      s.client.threads u ≠ .idle :=
    active_of_update hactive
  have hqueue := h.queue
  rw [hmessages, hnumbers, List.map_cons, List.cons.injEq] at hqueue
  constructor
  · exact h.exclusive.move fun _ => hinside
  · exact hqueue.2
  · intro n hn
    exact h.numbers n (by rw [hnumbers]; exact List.mem_cons_of_mem _ hn)
  · intro u m hu
    -- nobody else is in the critical section
    have hut : u = t :=
      (h.exclusive.move (t := t) (p := .sending message) fun _ => hinside).eq
        (by rw [show Function.update s.client.threads t (.sending message) u = .sending m from hu]
            rfl)
        (by rw [Function.update_self]; rfl)
    subst hut
    simp only [ClientChannel.goto, Function.update_self, ClientSendPoint.sending.injEq] at hu
    subst hu
    exact ⟨h.numbers number (by rw [hnumbers]; exact List.mem_cons_self ..), hqueue.1⟩
  · exact fun u hu => h.calls u (hother u hu)
  · exact fun u v hu hv => h.distinct u v (hother u hu) (hother v hv)
  · exact h.past
  · intro c hc
    rcases h.somewhere c hc with hqueued | ⟨u, m, hu, -⟩ | hdone
    · rw [hnumbers] at hqueued
      rcases List.mem_cons.mp hqueued with rfl | hqueued
      · refine .inr (.inl ⟨t, message, ?_, rfl⟩)
        simp only [ClientChannel.goto, Function.update_self]
      · exact .inl hqueued
    · have hut : u = t := h.exclusive.eq (by rw [hu]; rfl) hinside
      rw [hut, ht] at hu
      cases hu
    · exact .inr (.inr hdone)
  · exact h.failedThrew
  · exact h.attributed

/-- **The frame in hand is sent.** -/
theorem Owned.sends
    {message : Bytes}
    {kernel : Bytes}
    (h : Owned s)
    (ht : s.client.threads t = .sending message) :
    Owned { s with
      client := { s.client with kernel := kernel }.goto t .testing
      sent := s.hand :: s.sent } := by
  have hinside : (s.client.threads t).inside = true := by rw [ht]; rfl
  have hactive : s.client.threads t ≠ .idle := by
    rw [ht]
    exact fun hidle => by cases hidle
  have hother : ∀ u, Function.update s.client.threads t .testing u ≠ .idle →
      s.client.threads u ≠ .idle :=
    active_of_update hactive
  constructor
  · exact h.exclusive.move fun _ => hinside
  · exact h.queue
  · exact h.numbers
  · intro u m hu
    by_cases hut : u = t
    · subst hut
      simp [ClientChannel.goto] at hu
    · simp only [ClientChannel.goto, Function.update_of_ne hut] at hu
      exact h.sending u m hu
  · exact fun u hu => h.calls u (hother u hu)
  · exact fun u v hu hv => h.distinct u v (hother u hu) (hother v hv)
  · exact h.past
  · intro c hc
    rcases h.somewhere c hc with hqueued | ⟨-, -, -, rfl⟩ | hsent | hfailed
    · exact .inl hqueued
    · exact .inr (.inr (.inl (List.mem_cons_self ..)))
    · exact .inr (.inr (.inl (List.mem_cons_of_mem _ hsent)))
    · exact .inr (.inr (.inr hfailed))
  · exact h.failedThrew
  · refine ⟨h.attributed.1, fun c hc => ?_⟩
    obtain ⟨hsent, hnfailed⟩ := h.attributed.2 c hc
    exact ⟨List.mem_cons_of_mem _ hsent, hnfailed⟩

/-- An old frame keeps its number. -/
theorem numbered_push
    {client : ClientChannel}
    {message : Bytes}
    {n : Nat}
    (hn : n < client.queued.length) :
    (client.queued ++ [message]).getD n [] = client.numbered n := by
  simp only [ClientChannel.numbered, List.getD_eq_getElem?_getD, List.getElem?_append_left hn]

/-- The number of a new frame is that of no older call. -/
theorem Owned.distinct_push
    (h : Owned s)
    (u v : Nat)
    (hu : Function.update s.client.threads t .locking u ≠ .idle)
    (hv : Function.update s.client.threads t .locking v ≠ .idle)
    (heq : Function.update s.own t s.client.queued.length u =
      Function.update s.own t s.client.queued.length v) :
    u = v := by
  have hold : ∀ u, u ≠ t → Function.update s.client.threads t .locking u ≠ .idle →
      s.client.threads u ≠ .idle ∧ s.own u ≠ s.client.queued.length := by
    intro u hut hu
    rw [Function.update_of_ne hut] at hu
    have hlt := (h.calls u hu).1
    exact ⟨hu, by omega⟩
  by_cases hut : u = t
  · by_cases hvt : v = t
    · rw [hut, hvt]
    · subst hut
      rw [Function.update_self, Function.update_of_ne hvt] at heq
      exact absurd heq.symm (hold v hvt hv).2
  · by_cases hvt : v = t
    · subst hvt
      rw [Function.update_self, Function.update_of_ne hut] at heq
      exact absurd heq (hold u hut hu).2
    · rw [Function.update_of_ne hut, Function.update_of_ne hvt] at heq
      exact h.distinct u v (hold u hut hu).1 (hold v hvt hv).1 heq

/-- **A call pushes its frame.** -/
theorem Owned.push
    {message : Bytes}
    (h : Owned s)
    (ht : s.client.threads t = .idle) :
    Owned { s with
      client := { s.client with
        channel := s.client.channel.push message
        queued := s.client.queued ++ [message] }.goto t .locking
      numbers := s.numbers ++ [s.client.queued.length]
      own := Function.update s.own t s.client.queued.length } := by
  have hlength : (s.client.queued ++ [message]).length = s.client.queued.length + 1 := by simp
  have hother : ∀ u, u ≠ t → Function.update s.client.threads t .locking u ≠ .idle →
      s.client.threads u ≠ .idle := by
    intro u hut hu
    rwa [Function.update_of_ne hut] at hu
  constructor
  · exact h.exclusive.move fun hp => by cases hp
  · show s.client.channel.sendMessages ++ [message] =
      (s.numbers ++ [s.client.queued.length]).map fun n => (s.client.queued ++ [message]).getD n []
    rw [List.map_append, h.queue]
    congr 1
    · exact List.map_congr_left fun n hn => (numbered_push (h.numbers n hn)).symm
    · simp
  · intro n hn
    show n < (s.client.queued ++ [message]).length
    rw [hlength]
    rcases List.mem_append.mp hn with hn | hn
    · have hlt := h.numbers n hn
      omega
    · rw [List.mem_singleton.mp hn]
      omega
  · intro u m hu
    have hut : u ≠ t := by
      rintro rfl
      simp [ClientChannel.goto] at hu
    simp only [ClientChannel.goto, Function.update_of_ne hut] at hu
    obtain ⟨hlt, hm⟩ := h.sending u m hu
    refine ⟨?_, hm.trans (numbered_push hlt).symm⟩
    show s.hand < (s.client.queued ++ [message]).length
    omega
  · intro u hu
    show Function.update s.own t s.client.queued.length u < (s.client.queued ++ [message]).length ∧
      Function.update s.own t s.client.queued.length u ∉ s.threw ∧
      Function.update s.own t s.client.queued.length u ∉ s.returned
    by_cases hut : u = t
    · subst hut
      rw [Function.update_self]
      refine ⟨by omega, fun hmem => ?_, fun hmem => ?_⟩
      · exact absurd (h.past _ (.inl hmem)) (Nat.lt_irrefl _)
      · exact absurd (h.past _ (.inr hmem)) (Nat.lt_irrefl _)
    · rw [Function.update_of_ne hut]
      obtain ⟨hlt, hrest⟩ := h.calls u (hother u hut hu)
      exact ⟨by omega, hrest⟩
  · exact fun u v => h.distinct_push u v
  · intro c hc
    have hlt := h.past c hc
    show c < (s.client.queued ++ [message]).length
    omega
  · intro c hc
    have hlt : c < s.client.queued.length + 1 := hlength ▸ hc
    by_cases hnew : c = s.client.queued.length
    · exact .inl (List.mem_append_right _ (by rw [hnew]; exact List.mem_cons_self ..))
    · rcases h.somewhere c (by omega) with hqueued | ⟨u, m, hu, hhand⟩ | hdone
      · exact .inl (List.mem_append_left _ hqueued)
      · refine .inr (.inl ⟨u, m, ?_, hhand⟩)
        have hut : u ≠ t := by
          rintro rfl
          rw [ht] at hu
          cases hu
        simpa only [ClientChannel.goto, Function.update_of_ne hut] using hu
      · exact .inr (.inr hdone)
  · exact h.failedThrew
  · exact h.attributed

end Steps

section Run

variable {host : Endian} {brotli : Brotli} {s s' : SendCalls} {t : Nat} {result : SendResult}

/-- Without the numbers it is a step of the client. -/
theorem SendCalls.step_client
    {e : ClientSendEvent}
    (h : s.step host brotli e = some s') :
    s.client.step host brotli e = some s'.client := by
  rw [SendCalls.step] at h
  cases hclient : s.client.step host brotli e with
  | none =>
      rw [hclient] at h
      cases h
  | some client =>
      rw [hclient] at h
      cases e with
      | sendMessage t data =>
          cases h
          rfl
      | disconnect =>
          cases h
          rfl
      | advance t result =>
          simp only [SendCalls.note] at h
          split at h
          · cases h
          · cases h
            rfl
          · split at h <;> cases h <;> rfl
          · split at h <;> cases h <;> rfl
          · split at h <;> cases h
            rfl
          · split at h
            · split at h <;> cases h
              rfl
            · cases h
              rfl

/-- A step of a thread is one of the client with its note. -/
theorem SendCalls.step_advance
    (h : s.step host brotli (.advance t result) = some s') :
    s.client.advance t result = some s'.client ∧ s.note t result s'.client = some s' := by
  have hclient := SendCalls.step_client h
  have hadvance : s.client.advance t result = some s'.client := hclient
  rw [SendCalls.step, hclient] at h
  exact ⟨hadvance, h⟩

theorem Owned.advance
    (h : Owned s)
    (hok : OwnFailure s (.advance t result))
    (hstep : s.client.advance t result = some s'.client)
    (hnote : s.note t result s'.client = some s') :
    Owned s' := by
  obtain ⟨client, numbers, hand, own, sent, failed, threw, returned⟩ := s'
  simp only at hstep hnote
  cases ClientChannel.advance_moves hstep with
  | lock ht hlock =>
      simp only [SendCalls.note, ht] at hnote
      cases hnote
      have hexclusive := h.exclusive
      rw [hlock] at hexclusive
      exact h.move (hexclusive.acquire _) (by rw [ht]; simp) (by rw [ht]; simp) (by simp)
  | connected ht hrunning =>
      have hinside : (s.client.threads t).inside = true := by rw [ht]; rfl
      simp only [SendCalls.note, ht, hrunning, if_true] at hnote
      cases hnote
      exact h.move (h.exclusive.move fun _ => hinside) (by rw [ht]; simp) (by rw [ht]; simp)
        (by simp)
  | unconnected ht hrunning =>
      have hinside : (s.client.threads t).inside = true := by rw [ht]; rfl
      simp only [OwnFailure, ht] at hok
      simp only [SendCalls.note, ht, hrunning, Bool.false_eq_true, if_false,
        if_neg (hok hrunning)] at hnote
      cases hnote
      exact h.throws hinside fun m hm => by rw [ht] at hm; cases hm
  | testEmpty ht hempty =>
      simp only [SendCalls.note, ht, if_pos hempty] at hnote
      cases hnote
      exact h.returns ht hempty
  | testFound ht hfound =>
      have hinside : (s.client.threads t).inside = true := by rw [ht]; rfl
      simp only [SendCalls.note, ht, if_neg hfound] at hnote
      cases hnote
      exact h.move (h.exclusive.move fun _ => hinside) (by rw [ht]; simp) (by rw [ht]; simp)
        (by simp)
  | pop ht hmessages =>
      simp only [SendCalls.note, ht] at hnote
      cases hnumbers : s.numbers with
      | nil =>
          rw [hnumbers] at hnote
          cases hnote
      | cons number rest =>
          rw [hnumbers] at hnote
          cases hnote
          exact h.take ht hmessages hnumbers
  | sent ht _ _ =>
      simp only [SendCalls.note, ht, Option.ite_none_right_eq_some] at hnote
      obtain ⟨-, hnote⟩ := hnote
      cases hnote
      exact h.sends ht
  | again ht =>
      simp only [OwnFailure, ht] at hok
      simp only [SendCalls.note, ht] at hnote
      cases hnote
      exact h.fails ht (hok (by simp))
  | failed ht =>
      simp only [OwnFailure, ht] at hok
      simp only [SendCalls.note, ht] at hnote
      cases hnote
      exact h.fails ht (hok (by simp))

/-- A step that is not its own failure leaves a call that threw over another's frame. -/
theorem Owned.own_failure
    (h : Owned s)
    (hstep : s.client.advance t result = some s'.client)
    (hnote : s.note t result s'.client = some s')
    (hattributed : Attributed s') :
    OwnFailure s (.advance t result) := by
  obtain ⟨client, numbers, hand, own, sent, failed, threw, returned⟩ := s'
  simp only at hstep hnote
  rw [OwnFailure]
  cases ht : s.client.threads t with
  | checking =>
      intro hrunning hsent
      have hthrew := (h.calls t (by rw [ht]; simp)).2.1
      simp only [SendCalls.note, ht, hrunning, Bool.false_eq_true, if_false, if_pos hsent] at hnote
      cases hnote
      exact hthrew (h.failedThrew _ (hattributed.1 _ (List.mem_cons_self ..)))
  | sending message =>
      intro hresult
      have hthrew := (h.calls t (by rw [ht]; simp)).2.1
      -- the call that threw must be that of the frame in hand, no older frame being its own
      have hmine : s.own t ∈ s.hand :: s.failed → s.hand = s.own t := by
        intro hmem
        rcases List.mem_cons.mp hmem with heq | hmem
        · exact heq.symm
        · exact absurd (h.failedThrew _ hmem) hthrew
      simp only [SendCalls.note, ht] at hnote
      cases result with
      | sent n =>
          simp only [Option.ite_none_right_eq_some] at hnote
          exact absurd (congrArg SendResult.sent hnote.1) hresult
      | again =>
          cases hnote
          exact hmine (hattributed.1 _ (List.mem_cons_self ..))
      | failed =>
          cases hnote
          exact hmine (hattributed.1 _ (List.mem_cons_self ..))
  | _ => trivial

theorem Owned.step
    {e : ClientSendEvent}
    (h : Owned s)
    (hok : OwnFailure s e)
    (hstep : s.step host brotli e = some s') :
    Owned s' := by
  cases e with
  | sendMessage t data =>
      simp only [SendCalls.step, ClientChannel.step] at hstep
      by_cases ht : s.client.threads t = .idle
      · rw [if_pos ht] at hstep
        simp only [SocketChannel.writeData] at hstep
        cases hencode : encodeString brotli s.client.channel.compressionType data with
        | error e =>
            rw [hencode] at hstep
            cases hstep
        | ok encoded =>
            rw [hencode] at hstep
            cases hstep
            exact h.push ht
      · rw [if_neg ht] at hstep
        cases hstep
  | advance t result =>
      obtain ⟨hclient, hnote⟩ := SendCalls.step_advance hstep
      exact h.advance hok hclient hnote
  | disconnect =>
      cases hstep
      exact { h with }

/-- **Errors reach the right caller** all along a run exactly when every `::send` that fails
is that of the thread's own frame, and no call finds the client not connected after
another thread has sent its frame. -/
theorem send_errors_attributed_iff
    (host : Endian)
    (brotli : Brotli)
    (type : CompressionType)
    (data : Nat → UInt8)
    (es : List ClientSendEvent) :
    (SendCalls.system host brotli type data).Throughout Attributed (SendCalls.init type data) es ↔
      (SendCalls.system host brotli type data).Every OwnFailure (SendCalls.init type data) es := by
  refine System.throughout_iff_every (I := Owned) ?_ ?_ ?_ (owned_init type data) es
  · exact fun s hs => hs.attributed
  · exact fun s e t hs hok hstep => hs.step hok hstep
  · intro s e t hs hstep ht
    cases e with
    | sendMessage t data => trivial
    | advance t result =>
        obtain ⟨hclient, hnote⟩ := SendCalls.step_advance hstep
        exact hs.own_failure hclient hnote ht
    | disconnect => trivial

end Run

/-! ### Another thread's frame -/

def plainCalls : System SendCalls ClientSendEvent :=
  SendCalls.system .little .identity .none fun _ => 0

/-- Threads 0 and 1 push; thread 1 takes the lock and pops the frame of thread 0, which
`::send` does not accept. -/
def foreignFailure : List ClientSendEvent :=
  [.sendMessage 0 [104], .sendMessage 1 [105], .advance 1 .again, .advance 1 .again,
    .advance 1 .again, .advance 1 .again, .advance 1 .failed]

def misattributed : SendCalls := (plainCalls.run foreignFailure).getD plainCalls.init

/-- Call 1 throws over frame 0. -/
theorem foreign_failure_misattributed :
    ¬ ∀ es, plainCalls.Throughout Attributed plainCalls.init es := by
  intro h
  have hrun : plainCalls.run foreignFailure = some misattributed := rfl
  have hattributed : Attributed misattributed := (h foreignFailure).last hrun
  have hthrew : misattributed.threw = [1] := rfl
  have hfailed : misattributed.failed = [0] := rfl
  have hone := hattributed.1 1 (by rw [hthrew]; decide)
  rw [hfailed] at hone
  exact absurd hone (by decide)

end Core
end ZeroRPC
