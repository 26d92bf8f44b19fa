import ZeroRPC.Core.Reassembly

/-!
# Room in the receive buffer

`read_data` reads at most `BUFFER_SIZE` bytes into a local buffer, enqueues them in
`_read_buffer`, which holds as many, and calls `parse_message`.  What a read leaves of an
unfinished frame is still there when the next chunk is enqueued: all of it while no more
than a header has arrived, all but the header after that.

Main facts:
* `Filling.step`: what holds between the operations of the loop;
* `Filling.settles`: the calls that are due come to rest, with every complete frame
  consumed;
* `Filling.content_length`: what is in the buffer then, from the lengths of the frames;
* `never_overflows_iff`: no `enqueue` of the loop throws exactly when every read fits
  behind what the reads before it left.
-/

namespace ZeroRPC
namespace Core

open Library

/-- Every complete frame was consumed: no call is due, or the one that runs waits for the
rest of a body. -/
def AtRest (s : Receiver) : Prop :=
  (s.point = .returned ∧ s.due = 0) ∨
    (s.point = .head ∧ s.channel.readBufferLength ≠ 0 ∧
      s.channel.readBuffer.size < s.channel.readBufferLength)

/-- An operation of the calls that are due. -/
def Parses (host : Endian) (brotli : Brotli) (s t : Receiver) : Prop :=
  Receiver.step host brotli s .start = some t ∨ Receiver.step host brotli s .advance = some t

/-- In the loop read, enqueue, `parse_message` over reads of these sizes, no `enqueue`
throws for want of room. -/
def NeverOverflows (host : Endian) (brotli : Brotli) : Receiver → List Nat → Prop
  | _, [] => True
  | s, n :: reads =>
      s.channel.readBuffer.enqueue (s.upcoming.take n) ≠ .error (.runtimeError "Queue overflow") ∧
        ∀ enqueued rested, Receiver.step host brotli s (.enqueue n) = some enqueued →
          Relation.ReflTransGen (Parses host brotli) enqueued rested → AtRest rested →
            NeverOverflows host brotli rested reads

/-! ### In terms of the stream -/

/-- The bytes of a frame. -/
def Sent.frameLength {brotli : Brotli} (m : Sent brotli) : Nat := HEAD_LENGTH + m.encoded.length

/-- How many of the first bytes of a stream of frames belong to a frame that goes on. -/
def leftover : List Nat → Nat → Nat
  | [], _ => 0
  | frame :: frames, received =>
      if frame ≤ received then leftover frames (received - frame) else received

/-- What the buffer keeps of an unfinished frame. -/
def kept (arrived : Nat) : Nat := if arrived ≤ HEAD_LENGTH then arrived else arrived - HEAD_LENGTH

/-- Every read fits behind what the reads before it left of an unfinished frame. -/
def RoomFor (frames : List Nat) : Nat → List Nat → Prop
  | _, [] => True
  | received, n :: reads =>
      kept (leftover frames received) + n ≤ BUFFER_SIZE ∧ RoomFor frames (received + n) reads

variable {sender receiver : Endian} {brotli : Brotli} {messages : List (Sent brotli)}

theorem frame_length (m : Sent brotli) : (frame sender m.encoded).length = m.frameLength := by
  rw [frame, List.length_append, m.header_length sender, Sent.frameLength]

theorem wire_length :
    (wire sender messages).length = (messages.map Sent.frameLength).sum := by
  rw [wire, List.length_flatten, List.map_map]
  congr 1
  exact List.map_congr_left fun m _ => frame_length m

/-- Whole frames that have arrived do not matter. -/
theorem leftover_append
    (frames rest : List Nat)
    (received : Nat) :
    leftover (frames ++ rest) (frames.sum + received) = leftover rest received := by
  induction frames with
  | nil => simp
  | cons frame frames ih =>
      rw [List.cons_append, leftover, List.sum_cons, if_pos (by omega)]
      rw [show frame + frames.sum + received - frame = frames.sum + received by omega]
      exact ih

/-! ### Between the operations -/

/-- Once a header was taken there is a byte behind it, until the body is taken. -/
def Fed (s : Receiver) : Prop :=
  match s.point with
  | .storeLength _ => 0 < s.channel.readBuffer.size
  | .clearLength _ => True
  | _ => s.channel.readBufferLength ≠ 0 → 0 < s.channel.readBuffer.size

/-- Steps a call has at most before it takes something off the buffer or the queue. -/
def Point.rank : Point → Nat
  | .head => 9
  | .sizeHeader => 8
  | .takeHeader => 7
  | .storeLength _ => 10
  | .sizeBody => 8
  | .takeBody => 7
  | .clearLength _ => 16
  | .pushMessage _ => 15
  | .drain => 2
  | .pop => 1
  | .handOver _ => 3
  | .returned => 0

/-- What the calls that are due have still to do. -/
def work (s : Receiver) : Nat :=
  20 * s.channel.readBuffer.size + 3 * s.channel.readMessages.length + 10 * s.due + s.point.rank

/-- An operation gets on with the work, or there is nothing left to do. -/
theorem parseStep_turns
    {s : Receiver}
    {content : Bytes}
    {p : Parsed}
    (h : Assembling sender messages s content)
    (hfed : Fed s)
    (hp : parseStep receiver brotli true s.channel s.point = .ok p)
    (hrun : s.point ≠ .returned) :
    Fed (s.after p) ∧ (work (s.after p) < work s ∨ AtRest (s.after p)) := by
  have hsize := h.buffer.size_eq
  have htested := h.tested
  have hmoves := parseStep_moves hp
  generalize hpoint : s.point = point at hmoves htested hrun
  simp only [Fed, hpoint] at hfed
  cases hmoves with
  | @takeHeader temp buffer hdequeue =>
      obtain ⟨-, hmore⟩ := htested
      obtain ⟨-, -, hbuffer⟩ := h.buffer.of_dequeue hdequeue
      have hafter := hbuffer.size_eq
      rw [List.length_drop] at hafter
      constructor
      · show 0 < buffer.size
        omega
      · left
        simp only [work, Receiver.after, hpoint, Point.rank]
        simp only [HEAD_LENGTH] at hafter hmore
        omega
  | storeLength _ =>
      exact ⟨fun _ => hfed, .inl (by simp [work, Receiver.after, hpoint, Point.rank])⟩
  | startOver hless => exact ⟨hfed, .inr (.inr ⟨rfl, htested, hless⟩)⟩
  | takeBody hdequeue =>
      obtain ⟨hlength, hmore⟩ := htested
      obtain ⟨-, -, hbuffer⟩ := h.buffer.of_dequeue hdequeue
      have hafter := hbuffer.size_eq
      rw [List.length_drop] at hafter
      refine ⟨trivial, .inl ?_⟩
      simp only [work, Receiver.after, hpoint, Point.rank]
      omega
  | clearLength =>
      exact ⟨fun hne => absurd rfl hne, .inl (by simp [work, Receiver.after, hpoint, Point.rank])⟩
  | pushMessage _ =>
      refine ⟨hfed, .inl ?_⟩
      simp only [work, Receiver.after, hpoint, Point.rank, List.length_append,
        List.length_singleton]
      omega
  | pop hmessages =>
      refine ⟨hfed, .inl ?_⟩
      simp only [work, Receiver.after, hpoint, hmessages, Point.rank, List.length_cons]
      omega
  | returned => exact absurd rfl hrun
  | _ => exact ⟨hfed, .inl (by simp [work, Receiver.after, hpoint, Point.rank])⟩

/-- The invariant of the loop. -/
structure Filling (sender : Endian) (messages : List (Sent brotli)) (s : Receiver)
    (content : Bytes) : Prop where
  assembling : Assembling sender messages s content
  fed : Fed s
  returned : s.point = .returned → s.due = 0 →
    s.channel.readBufferLength = 0 ∧ s.channel.readBuffer.size ≤ HEAD_LENGTH

namespace Filling

variable {s t : Receiver} {content : Bytes}

theorem init (type : CompressionType) (data : Nat → UInt8) :
    Filling sender messages (Receiver.init type data (wire sender messages)) [] where
  assembling := assembling_init type data
  fed := fun hne => absurd rfl hne
  returned := fun _ _ =>
    ⟨rfl, (Buffer.init_holds data (by decide)).size_eq.trans_le (Nat.zero_le _)⟩

/-- A chunk that fits is enqueued. -/
theorem enqueue
    {n : Nat}
    (h : Filling sender messages s content)
    (hstep : Receiver.step receiver brotli s (.enqueue n) = some t) :
    Filling sender messages t (content ++ s.upcoming.take n) ∧ t.upcoming = s.upcoming.drop n := by
  cases Receiver.step_moves hstep with
  | @enqueue _ buffer hloop _ hbuffer =>
      have hassembling := h.assembling.enqueue hloop hbuffer
      have hbefore := h.assembling.buffer.size_eq
      have hafter := hassembling.buffer.size_eq
      rw [List.length_append] at hafter
      have hgrows : s.channel.readBuffer.size ≤ buffer.size := by
        simp only at hafter
        omega
      refine ⟨⟨hassembling, ?_, fun _ hdue => absurd hdue (Nat.succ_ne_zero _)⟩, rfl⟩
      have hfed := h.fed
      cases hpoint : s.point <;> simp only [Fed, hpoint] at hfed ⊢
      case storeLength temp => exact hfed.trans_le hgrows
      all_goals exact fun hne => (hfed hne).trans_le hgrows

/-- An operation of the calls keeps the invariant and the bytes to come, and gets on with
the work. -/
theorem parses
    (hlossless : brotli.Lossless)
    (h : Filling sender messages s content)
    (hstep : Parses receiver brotli s t) :
    (∃ content', Filling sender messages t content') ∧ t.upcoming = s.upcoming ∧
      (work t < work s ∨ AtRest t) := by
  rcases hstep with hstep | hstep
  · obtain ⟨content', hassembling⟩ := h.assembling.step hlossless hstep
    cases Receiver.step_moves hstep with
    | start hpoint hdue =>
        refine ⟨⟨content', hassembling, ?_, fun hhead => by cases hhead⟩, rfl, .inl ?_⟩
        · have hfed := h.fed
          simp only [Fed, hpoint] at hfed ⊢
          exact hfed
        · simp only [work, hpoint, Point.rank]
          omega
  · obtain ⟨content', hassembling⟩ := h.assembling.step hlossless hstep
    cases Receiver.step_moves hstep with
    | @advance p hrun hp =>
        obtain ⟨hfed, hwork⟩ := parseStep_turns h.assembling h.fed hp hrun
        refine ⟨⟨content', hassembling, hfed, ?_⟩, rfl, hwork⟩
        intro hreturned _
        obtain ⟨hdrain, -, hchannel, -, -⟩ := parseStep_returned hrun hp hreturned
        have htested := h.assembling.tested
        rw [hdrain] at htested
        show p.channel.readBufferLength = 0 ∧ p.channel.readBuffer.size ≤ HEAD_LENGTH
        rw [hchannel, h.assembling.buffer.size_eq]
        exact htested

theorem run_parses
    (hlossless : brotli.Lossless)
    (h : Filling sender messages s content)
    (hrun : Relation.ReflTransGen (Parses receiver brotli) s t) :
    (∃ content', Filling sender messages t content') ∧ t.upcoming = s.upcoming := by
  induction hrun with
  | refl => exact ⟨⟨content, h⟩, rfl⟩
  | tail _ hstep ih =>
      obtain ⟨⟨content', hmid⟩, hupcoming⟩ := ih
      obtain ⟨hafter, hsame, -⟩ := hmid.parses hlossless hstep
      exact ⟨hafter, hsame.trans hupcoming⟩

/-- Away from rest there is something to do. -/
theorem not_stuck
    (hlossless : brotli.Lossless)
    (h : Filling sender messages s content)
    (hrest : ¬ AtRest s) :
    ∃ t, Parses receiver brotli s t := by
  by_cases hpoint : s.point = .returned
  · have hdue : s.due ≠ 0 := fun hzero => hrest (.inl ⟨hpoint, hzero⟩)
    exact ⟨_, .inl (by rw [Receiver.step, if_pos ⟨hpoint, hdue⟩])⟩
  · obtain ⟨p, _, hp, _⟩ : Advances receiver sender messages s :=
      h.assembling.advance hlossless hpoint
    exact ⟨s.after p, .inr (by rw [Receiver.step, if_neg hpoint, hp])⟩

/-- **The calls that are due come to rest.** -/
theorem settles
    (hlossless : brotli.Lossless)
    (h : Filling sender messages s content) :
    ∃ t, Relation.ReflTransGen (Parses receiver brotli) s t ∧ AtRest t := by
  induction hwork : work s using Nat.strong_induction_on generalizing s content with
  | _ k ih =>
      by_cases hrest : AtRest s
      · exact ⟨s, .refl, hrest⟩
      have hnext : ∃ mid, Parses receiver brotli s mid := h.not_stuck hlossless hrest
      obtain ⟨mid, hstep⟩ := hnext
      obtain ⟨⟨content', hmid⟩, -, hless | hrested⟩ := h.parses hlossless hstep
      · obtain ⟨t, hrun, ht⟩ := ih (work mid) (hwork ▸ hless) hmid rfl
        exact ⟨t, .head hstep hrun, ht⟩
      · exact ⟨mid, .single hstep, hrested⟩

/-- At rest the buffer has what is kept of the unfinished frame. -/
theorem content_length
    (h : Filling sender messages s content)
    (hrest : AtRest s)
    {received : Nat}
    (hreceived : received + s.upcoming.length = (wire sender messages).length) :
    content.length = kept (leftover (messages.map Sent.frameLength) received) := by
  have hsize := h.assembling.buffer.size_eq
  have hpending : ∃ k, s.pushed = (messages.take k).map Sent.plain ∧
      Pending sender s.channel.readBufferLength (content ++ s.upcoming) (messages.drop k) := by
    rcases hrest with ⟨hpoint, -⟩ | ⟨hpoint, -⟩
    all_goals exact h.assembling.pending (by rw [hpoint]; rfl) (by rw [hpoint]; rfl)
  obtain ⟨k, -, hpending⟩ := hpending
  -- the frames that are consumed, and those to come
  have hframes : messages.map Sent.frameLength =
      (messages.take k).map Sent.frameLength ++ (messages.drop k).map Sent.frameLength := by
    rw [← List.map_append, List.take_append_drop]
  have htotal : (wire sender messages).length =
      ((messages.take k).map Sent.frameLength).sum + (wire sender (messages.drop k)).length := by
    rw [wire_length, wire_length, hframes, List.sum_append]
  rw [hframes]
  rcases hpending with ⟨hzero, hstream⟩ | ⟨m, rest, hdrop, hlength, hstream⟩
  · have hstream := congrArg List.length hstream
    rw [List.length_append] at hstream
    rw [show received = ((messages.take k).map Sent.frameLength).sum + content.length by omega,
      leftover_append]
    have hfew : content.length ≤ HEAD_LENGTH := by
      rcases hrest with ⟨hpoint, hdue⟩ | ⟨-, hne, -⟩
      · exact hsize ▸ (h.returned hpoint hdue).2
      · exact absurd hzero hne
    cases hdrop : messages.drop k with
    | nil =>
        rw [hdrop] at hstream
        have hnil : content.length = 0 := by
          have hwire : (wire sender ([] : List (Sent brotli))).length = 0 := rfl
          omega
        rw [hnil]
        rfl
    | cons m rest =>
        have hpos := List.length_pos_of_ne_nil m.encoded_ne_nil
        rw [List.map_cons, leftover, if_neg (by rw [Sent.frameLength]; omega), kept, if_pos hfew]
  · have hpos := List.length_pos_of_ne_nil m.encoded_ne_nil
    obtain ⟨hpoint, hne, hless⟩ : s.point = .head ∧ s.channel.readBufferLength ≠ 0 ∧
        s.channel.readBuffer.size < s.channel.readBufferLength := by
      rcases hrest with ⟨hpoint, hdue⟩ | hrest
      · have hzero := (h.returned hpoint hdue).1
        omega
      · exact hrest
    have hfed := h.fed
    simp only [Fed, hpoint] at hfed
    have hbyte := hfed hne
    have hstream := congrArg List.length hstream
    rw [List.length_append, List.length_append] at hstream
    have hwire : (wire sender (m :: rest)).length =
        HEAD_LENGTH + m.encoded.length + (wire sender rest).length := by
      rw [wire_length, wire_length, List.map_cons, List.sum_cons, Sent.frameLength]
    rw [hdrop, hwire] at htotal
    rw [show received = ((messages.take k).map Sent.frameLength).sum +
      (HEAD_LENGTH + content.length) by omega, leftover_append, hdrop, List.map_cons, leftover,
      if_neg (by rw [Sent.frameLength]; omega), kept, if_neg (by omega), Nat.add_sub_cancel_left]

/-- Whether the next chunk fits. -/
theorem enqueue_throws_iff
    (h : Filling sender messages s content)
    (hrest : AtRest s)
    {received n : Nat}
    (hreceived : received + s.upcoming.length = (wire sender messages).length)
    (hn : n ≤ s.upcoming.length) :
    s.channel.readBuffer.enqueue (s.upcoming.take n) = .error (.runtimeError "Queue overflow") ↔
      BUFFER_SIZE < kept (leftover (messages.map Sent.frameLength) received) + n := by
  have hlength := h.content_length hrest hreceived
  have htake : (s.upcoming.take n).length = n := by
    rw [List.length_take]
    omega
  rw [← hlength]
  constructor
  · intro hthrows
    by_contra hroom
    have hfits : content.length + (s.upcoming.take n).length ≤ BUFFER_SIZE := by omega
    obtain ⟨buffer, hbuffer, -⟩ := h.assembling.buffer.enqueue hfits
    rw [hbuffer] at hthrows
    cases hthrows
  · intro hover
    exact h.assembling.buffer.enqueue_overflow (by omega)

end Filling

/-- A chunk that fits is enqueued. -/
theorem Filling.enqueues
    {s : Receiver}
    {content : Bytes}
    {n : Nat}
    (h : Filling sender messages s content)
    (hrest : AtRest s)
    (hn : n ≤ s.upcoming.length)
    (hroom : content.length + n ≤ BUFFER_SIZE) :
    ∃ t, Receiver.step receiver brotli s (.enqueue n) = some t := by
  have hloop : s.point.draining = false := by
    rcases hrest with ⟨hpoint, -⟩ | ⟨hpoint, -⟩
    all_goals rw [hpoint]; rfl
  have hfits : content.length + (s.upcoming.take n).length ≤ BUFFER_SIZE := by
    rw [List.length_take]
    omega
  obtain ⟨buffer, hbuffer, -⟩ := h.assembling.buffer.enqueue hfits
  simp only [Receiver.step, if_pos (And.intro hloop hn), hbuffer]
  exact ⟨_, rfl⟩

/-- The loop from a state at rest. -/
theorem Filling.loop_iff
    (hlossless : brotli.Lossless)
    {s : Receiver}
    {content : Bytes}
    (h : Filling sender messages s content)
    (hrest : AtRest s)
    {received : Nat}
    (hreceived : received + s.upcoming.length = (wire sender messages).length)
    {reads : List Nat}
    (hreads : reads.sum ≤ s.upcoming.length) :
    NeverOverflows receiver brotli s reads ↔
      RoomFor (messages.map Sent.frameLength) received reads := by
  induction reads generalizing s content received with
  | nil => exact ⟨fun _ => trivial, fun _ => trivial⟩
  | cons n reads ih =>
      rw [List.sum_cons] at hreads
      have hthrows := h.enqueue_throws_iff hrest hreceived (n := n) (by omega)
      -- after the chunk, at rest again, the rest of the loop is the same question
      have hnext : ∀ enqueued rested,
          Receiver.step receiver brotli s (.enqueue n) = some enqueued →
            Relation.ReflTransGen (Parses receiver brotli) enqueued rested → AtRest rested →
              (NeverOverflows receiver brotli rested reads ↔
                RoomFor (messages.map Sent.frameLength) (received + n) reads) := by
        intro enqueued rested hstep hrun hrested
        obtain ⟨henqueued, hupcoming⟩ := h.enqueue hstep
        obtain ⟨⟨content', hfilling⟩, hsame⟩ := henqueued.run_parses hlossless hrun
        have hdrop : rested.upcoming.length = s.upcoming.length - n := by
          rw [hsame, hupcoming, List.length_drop]
        exact ih hfilling hrested (by omega) (by omega)
      rw [NeverOverflows, RoomFor]
      constructor
      · rintro ⟨hfits, hloop⟩
        have hroom : kept (leftover (messages.map Sent.frameLength) received) + n ≤
            BUFFER_SIZE := by
          by_contra hover
          exact hfits (hthrows.mpr (by omega))
        refine ⟨hroom, ?_⟩
        rw [← h.content_length hrest hreceived] at hroom
        have henqueues : ∃ enqueued, Receiver.step receiver brotli s (.enqueue n) = some enqueued :=
          h.enqueues hrest (by omega) hroom
        obtain ⟨enqueued, hstep⟩ := henqueues
        obtain ⟨henqueued, -⟩ := h.enqueue hstep
        have hsettles : ∃ rested,
            Relation.ReflTransGen (Parses receiver brotli) enqueued rested ∧ AtRest rested :=
          henqueued.settles hlossless
        obtain ⟨rested, hrun, hrested⟩ := hsettles
        exact (hnext enqueued rested hstep hrun hrested).mp
          (hloop enqueued rested hstep hrun hrested)
      · rintro ⟨hroom, hloop⟩
        refine ⟨?_, ?_⟩
        · intro herror
          have hover := hthrows.mp herror
          omega
        · intro enqueued rested hstep hrun hrested
          exact (hnext enqueued rested hstep hrun hrested).mpr hloop

/-- **When no read overflows the buffer.** -/
theorem never_overflows_iff
    (sender receiver : Endian)
    (brotli : Brotli)
    (hlossless : brotli.Lossless)
    (messages : List (Sent brotli))
    (type : CompressionType)
    (data : Nat → UInt8)
    (reads : List Nat)
    (hreads : reads.sum ≤ (wire sender messages).length) :
    NeverOverflows receiver brotli (Receiver.init type data (wire sender messages)) reads ↔
      RoomFor (messages.map Sent.frameLength) 0 reads :=
  (Filling.init type data).loop_iff hlossless (.inl ⟨rfl, rfl⟩) (Nat.zero_add _) hreads

theorem greetings_never_overflow :
    NeverOverflows .big .identity (Receiver.init .none (fun _ => 0)
      (wire .little [greeting, greeting])) [4, 10] :=
  (never_overflows_iff .little .big .identity Brotli.identity_lossless [greeting, greeting]
    .none (fun _ => 0) [4, 10] (by decide)).mpr ⟨by decide, by decide, trivial⟩

/-- A stream of small frames, of which a read gets a header and the next one as much as a
read can. -/
theorem greetings_overflow :
    ¬ ∀ (sender receiver : Endian) (brotli : Brotli), brotli.Lossless →
      ∀ (messages : List (Sent brotli)) (type : CompressionType) (data : Nat → UInt8)
        (reads : List Nat), (∀ m ∈ messages, m.frameLength ≤ BUFFER_SIZE) →
        (∀ n ∈ reads, 0 < n ∧ n ≤ BUFFER_SIZE) →
        reads.sum ≤ (wire sender messages).length →
          NeverOverflows receiver brotli (Receiver.init type data (wire sender messages))
            reads := by
  intro h
  have hframes : (List.replicate 2343 greeting).map Sent.frameLength = List.replicate 2343 7 := by
    rw [List.map_replicate]
    rfl
  have hlength : [4, BUFFER_SIZE].sum ≤ (wire .little (List.replicate 2343 greeting)).length := by
    rw [wire_length, hframes, List.sum_replicate]
    decide
  have hnever := h .little .little .identity Brotli.identity_lossless
    (List.replicate 2343 greeting) .none (fun _ => 0) [4, BUFFER_SIZE] ?_ ?_ hlength
  · have hroom := ((Filling.init .none (fun _ => 0)).loop_iff Brotli.identity_lossless
      (.inl ⟨rfl, rfl⟩) (Nat.zero_add _) hlength).mp hnever
    rw [hframes] at hroom
    exact absurd hroom.2.1 (by decide)
  · intro m hm
    rw [List.eq_of_mem_replicate hm]
    decide
  · decide

end Core
end ZeroRPC
