import ZeroRPC.Core.Downlink
import ZeroRPC.Core.ParseLoop

/-!
# The reader of a client

`Tcp_Client::read_data` reads until the connection is closed.  It looks at `errno` after
every call of `read`, also after one that returned bytes and left `errno` alone, where
`Tcp_Server::read_data` looks at it only when `read` returned -1.  What `enqueue` and
`parse_message` do with a chunk may set `errno` as well.  `enqueue` throws when the chunk
has no room, and `parse_message` comes back only if what arrived is whole frames.

Main facts:
* `afterRead_enqueue`, `afterRead_wait`, `afterRead_close`: what follows a `read`, by what
  the server would do with the result;
* `head_iff`: from a chunk to the next `read`;
* `client_feeds_iff`: the client gives its parser what the server would exactly when, at
  every chunk, `errno` says "again", the chunk fits, and `parse_message` comes back if
  there is more to read.
-/

namespace ZeroRPC
namespace Core
namespace ClientRead

open Library

/-! ### The client -/

/-- The client in its loop, the results that its calls of `read` will have in turn, and the
chunks that are in the buffer of the channel or were. -/
structure Reader where
  input : ClientInput
  results : List ReadReturn
  enqueued : List Bytes

namespace Reader

/-- `connect_to_server` and `read_data`. -/
def init (type : CompressionType) (data : Nat → UInt8) (errno : Int)
    (results : List ReadReturn) : Reader where
  input := .init type data errno
  results := results
  enqueued := []

/-- The chunks enqueued after a step to `t`. -/
def logged (s : Reader) (t : ClientInput) : List Bytes :=
  match s.input.point, t.ended with
  | .enqueuing chunk, none => s.enqueued ++ [chunk]
  | _, _ => s.enqueued

/-- The next step; one that there is no result for does not come. -/
def next (host : Endian) (brotli : Brotli) (s : Reader) : Except Fault Reader :=
  match s.input.ended, s.input.point, s.results with
  | some e, _, _ => .error e
  | none, .reading, [] => .ok s
  | none, .reading, result :: results =>
      .ok { s with input := s.input.afterRead result, results := results }
  | none, _, _ =>
      match s.input.advance host brotli with
      | none => .ok s
      | some t => .ok { s with input := t, enqueued := s.logged t }

end Reader

/-! ### The server -/

/-- What a reader does with a result. -/
inductive Verdict
  | enqueue (chunk : Bytes)
  | wait
  | close
deriving DecidableEq

/-- `Tcp_Server::read_data` on a result. -/
def serverVerdict (result : ReadReturn) (before : Int) : Verdict :=
  if result.n = -1 then
    if result.errno before = EAGAIN ∨ result.errno before = EWOULDBLOCK then
      .wait
    else
      .close
  else if result.n = 0 then
    .close
  else
    .enqueue result.buffer

/-! ### The client as the server -/

/-- The chunks that come before the end of the connection. -/
def chunks (errno : Int) : List ReadReturn → List Bytes
  | [] => []
  | result :: results =>
      match serverVerdict result errno with
      | .enqueue chunk => chunk :: chunks (result.handled errno) results
      | .wait => chunks (result.errno errno) results
      | .close => []

/-- The end of the connection is among the results. -/
def Closes (errno : Int) : List ReadReturn → Prop
  | [] => False
  | result :: results =>
      match serverVerdict result errno with
      | .enqueue _ => Closes (result.handled errno) results
      | .wait => Closes (result.errno errno) results
      | .close => True

/-- These chunks were enqueued, once each and in this order; the connection is closed if it
should be, and otherwise every result was taken. -/
def Fed (all : List Bytes) (closes : Prop) (s : Reader) : Prop :=
  s.enqueued = all ∧ (s.input.running = false ↔ closes) ∧ (closes ∨ s.results = [])

/-- The loop comes to such a state. -/
def Comes (host : Endian) (brotli : Brotli) (all : List Bytes) (closes : Prop) (s : Reader) :
    Prop :=
  Ends (Reader.next host brotli) (Fed all closes) (fun _ => False) s

/-- The loop enqueues every chunk and ends the connection only where the server would. -/
def FeedsParser (host : Endian) (brotli : Brotli) (s : Reader) : Prop :=
  Comes host brotli (s.enqueued ++ chunks s.input.errno s.results)
    (Closes s.input.errno s.results) s

/-- Behind what the buffer holds: whenever a chunk is read, `errno` says "again", there is
room for the chunk, and if it is not the last result, whole frames have arrived. -/
def Clear (host : Endian) (brotli : Brotli) (errno : Int) (content : Bytes) :
    List ReadReturn → Prop
  | [] => True
  | result :: results =>
      match serverVerdict result errno with
      | .enqueue chunk =>
          (errno = EAGAIN ∨ errno = EWOULDBLOCK) ∧
            content.length + chunk.length ≤ BUFFER_SIZE ∧
            (results = [] ∨
              ∃ rest, Frames host brotli (content ++ chunk) rest ∧
                Clear host brotli (result.handled errno) rest results)
      | .wait => Clear host brotli (result.errno errno) content results
      | .close => True

/-! ### What follows a `read` -/

section AfterRead

variable {s : ClientInput} {result : ReadReturn}

/-- A chunk, as the server sees it. -/
theorem verdict_enqueue
    {chunk : Bytes}
    (h : serverVerdict result s.errno = .enqueue chunk) :
    0 < result.n ∧ result.buffer = chunk ∧ result.errno s.errno = s.errno := by
  cases result with
  | failed errno =>
      have hn : (ReadReturn.failed errno).n = -1 := rfl
      rw [serverVerdict, if_pos hn] at h
      split at h
      · cases h
      · cases h
  | bytes buffer errnoAfter =>
      have hn : (ReadReturn.bytes buffer errnoAfter).n ≠ -1 := by
        simp only [ReadReturn.n]
        omega
      rw [serverVerdict, if_neg hn] at h
      split at h
      · cases h
      case isFalse hne =>
        cases h
        refine ⟨?_, rfl, rfl⟩
        simp only [ReadReturn.n] at hne ⊢
        omega

/-- The client enqueues a chunk only if `errno` says "again". -/
theorem afterRead_enqueue
    {chunk : Bytes}
    (h : serverVerdict result s.errno = .enqueue chunk) :
    s.afterRead result =
      if s.errno = EAGAIN ∨ s.errno = EWOULDBLOCK then
        { s with
          errno := result.handled s.errno
          socket := s.socket.drop chunk.length
          point := .enqueuing chunk }
      else
        { s with socket := s.socket.drop chunk.length }.disconnect chunk := by
  obtain ⟨hpos, hbuffer, herrno⟩ := verdict_enqueue h
  unfold ClientInput.afterRead
  simp only [herrno, hbuffer]
  rw [if_neg hpos.ne']
  by_cases hagain : s.errno = EAGAIN ∨ s.errno = EWOULDBLOCK
  · rw [if_pos hagain, if_neg (by tauto), if_pos hpos]
  · rw [if_neg hagain, if_pos (by tauto)]

theorem afterRead_wait
    (h : serverVerdict result s.errno = .wait) :
    s.afterRead result = { s with errno := result.errno s.errno, point := .testing } := by
  cases result with
  | bytes buffer errnoAfter =>
      have hn : (ReadReturn.bytes buffer errnoAfter).n ≠ -1 := by
        simp only [ReadReturn.n]
        omega
      rw [serverVerdict, if_neg hn] at h
      split at h
      · cases h
      · cases h
  | failed errno =>
      have hn : (ReadReturn.failed errno).n = -1 := rfl
      rw [serverVerdict, if_pos hn] at h
      split at h
      case isTrue hagain =>
        have hagain : errno = EAGAIN ∨ errno = EWOULDBLOCK := hagain
        have hzero : (ReadReturn.failed errno).n ≠ 0 := by omega
        have hpos : ¬ (ReadReturn.failed errno).n > 0 := by omega
        unfold ClientInput.afterRead
        simp only [if_neg hzero, if_neg hpos, ReadReturn.errno]
        exact if_neg (by tauto)
      · cases h

theorem afterRead_close
    (h : serverVerdict result s.errno = .close) :
    (s.afterRead result).running = false := by
  cases result with
  | bytes buffer errnoAfter =>
      have hn : (ReadReturn.bytes buffer errnoAfter).n ≠ -1 := by
        simp only [ReadReturn.n]
        omega
      rw [serverVerdict, if_neg hn] at h
      split at h
      case isTrue hzero =>
        unfold ClientInput.afterRead
        simp only [if_pos hzero]
        rfl
      · cases h
  | failed errno =>
      have hn : (ReadReturn.failed errno).n = -1 := rfl
      rw [serverVerdict, if_pos hn] at h
      split at h
      · cases h
      case isFalse hagain =>
        have hagain : ¬ (errno = EAGAIN ∨ errno = EWOULDBLOCK) := hagain
        have hother : errno ≠ EAGAIN ∧ errno ≠ EWOULDBLOCK := by tauto
        have hzero : (ReadReturn.failed errno).n ≠ 0 := by omega
        have hafter :
            s.afterRead (.failed errno) =
              { s with errno := errno, socket := s.socket.drop 0 }.disconnect [] := by
          unfold ClientInput.afterRead
          simp only [if_neg hzero, ReadReturn.errno]
          exact if_pos hother
        rw [hafter]
        rfl

end AfterRead

/-! ### From a chunk to the next `read` -/

section Turn

variable {host : Endian} {brotli : Brotli} {content : Bytes}

/-- Where the client is, and what its buffer holds. -/
structure Reader.At (errno : Int) (results : List ReadReturn) (enqueued : List Bytes)
    (point : ReadPoint) (content : Bytes) (length : Nat) (s : Reader) : Prop where
  ended_eq : s.input.ended = none
  running_eq : s.input.running = true
  errno_eq : s.input.errno = errno
  results_eq : s.results = results
  enqueued_eq : s.enqueued = enqueued
  point_eq : s.input.point = point
  holds : s.input.channel.readBuffer.Holds content
  length_eq : s.input.channel.readBufferLength = length

variable {errno : Int} {results : List ReadReturn} {enqueued : List Bytes} {point : Point}
  {length : Nat} {all : List Bytes} {closes : Prop} {s : Reader}

/-- With results to come and the connection open, the client is not done. -/
theorem not_fed
    (hrunning : s.input.running = true)
    (hmore : s.results ≠ []) :
    ¬ Fed all closes s := by
  rintro ⟨-, hclosed, hdone⟩
  rcases hdone with hcloses | hnone
  · rw [hclosed.mpr hcloses] at hrunning
    cases hrunning
  · exact hmore hnone

/-- After an exception nothing is done. -/
theorem not_comes_of_ended
    {e : Fault}
    (hended : s.input.ended = some e)
    (hfed : ¬ Fed all closes s) :
    ¬ Comes host brotli all closes s := by
  have hnext : s.next host brotli = .error e := by
    simp only [Reader.next, hended]
  rw [Comes, Ends.iff_raised hfed hnext]
  exact id

variable (host brotli all closes)

/-- Past an operation of `parse_message` that succeeds. -/
theorem Reader.At.parse
    {p : Parsed}
    {rest : Bytes}
    (h : s.At errno results enqueued (.parsing point) content length)
    (hmore : results ≠ [])
    (hp : parseStep host brotli true s.input.channel point = .ok p)
    (hrest : p.channel.readBuffer.Holds rest) :
    ∃ t : Reader,
      t.At errno results enqueued (ClientInput.proceed p.point) rest
        p.channel.readBufferLength ∧
      t.input.channel = p.channel ∧
      (Comes host brotli all closes s ↔ Comes host brotli all closes t) := by
  have hnext : s.next host brotli =
      .ok { s with
        input := { s.input with
          channel := p.channel
          point := ClientInput.proceed p.point
          pushed := s.input.pushed ++ p.pushed
          handed := s.input.handed ++ p.handed } } := by
    simp only [Reader.next, h.ended_eq, h.point_eq, ClientInput.advance, hp, Reader.logged]
  refine ⟨_, ?_, ?_, Ends.iff_next (not_fed h.running_eq (h.results_eq ▸ hmore)) hnext⟩
  · exact ⟨h.ended_eq, h.running_eq, h.errno_eq, h.results_eq, h.enqueued_eq, rfl, hrest, rfl⟩
  · rfl

/-- An operation of `parse_message` that throws is the last. -/
theorem Reader.At.throws
    {e : Fault}
    (h : s.At errno results enqueued (.parsing point) content length)
    (hmore : results ≠ [])
    (hp : parseStep host brotli true s.input.channel point = .error e) :
    ¬ Comes host brotli all closes s := by
  have hnext : s.next host brotli = .ok { s with input := { s.input with ended := some e } } := by
    simp only [Reader.next, h.ended_eq, h.point_eq, ClientInput.advance, hp, Reader.logged]
  have hmore : s.results ≠ [] := h.results_eq ▸ hmore
  rw [Comes, Ends.iff_next (not_fed h.running_eq hmore) hnext]
  exact not_comes_of_ended rfl (not_fed h.running_eq hmore)

variable {host brotli all closes}

/-- A length noted and less than that in the buffer, with results to come. -/
def Spins (s : Reader) : Prop :=
  s.input.ended = none ∧ s.input.running = true ∧ s.results ≠ [] ∧
    ∃ point, s.input.point = .parsing point ∧ Waiting (s.input.channel, point)

/-- **`parse_message` does not come back.** -/
theorem Spins.not_comes
    (h : Spins s) :
    ¬ Comes host brotli all closes s := by
  refine Ends.not_of_invariant (I := Spins) ?_ ?_ h
  · rintro s ⟨-, hrunning, hmore, -⟩
    exact not_fed hrunning hmore
  · rintro s ⟨hended, hrunning, hmore, point, hpoint, hwaits, hlength, hless⟩
    have hless : s.input.channel.readBuffer.size < s.input.channel.readBufferLength := hless
    have hlength : s.input.channel.readBufferLength ≠ 0 := hlength
    rcases hwaits with hhead | hsize
    · obtain rfl : point = .head := hhead
      refine ⟨{ s with input := { s.input with
        point := .parsing .sizeBody
        pushed := s.input.pushed ++ []
        handed := s.input.handed ++ [] } }, ?_, ?_⟩
      · simp only [Reader.next, hended, hpoint, ClientInput.advance, parseStep, if_neg hlength,
          Reader.logged]
        rfl
      · exact ⟨hended, hrunning, hmore, _, rfl, .inr rfl, hlength, hless⟩
    · obtain rfl : point = .sizeBody := hsize
      refine ⟨{ s with input := { s.input with
        point := .parsing .head
        pushed := s.input.pushed ++ []
        handed := s.input.handed ++ [] } }, ?_, ?_⟩
      · simp only [Reader.next, hended, hpoint, ClientInput.advance, parseStep,
          if_neg (Nat.not_le_of_lt hless), Reader.logged]
        rfl
      · exact ⟨hended, hrunning, hmore, _, rfl, .inl rfl, hlength, hless⟩

variable (host brotli all closes)

/-- The second loop hands over what is there and returns. -/
theorem Reader.At.drains
    (h : s.At errno results enqueued (.parsing .drain) content length)
    (hmore : results ≠ []) :
    ∃ t : Reader, t.At errno results enqueued .testing content length ∧
      (Comes host brotli all closes s ↔ Comes host brotli all closes t) := by
  induction hmessages : s.input.channel.readMessages generalizing s with
  | nil =>
      have hp : parseStep host brotli true s.input.channel .drain =
          .ok ⟨s.input.channel, .returned, [], []⟩ :=
        (ParseMoves.testEmpty hmessages).parseStep_eq
      obtain ⟨t, ht, -, hiff⟩ := h.parse host brotli all closes hmore hp h.holds
      exact ⟨t, h.length_eq ▸ ht, hiff⟩
  | cons message messages ih =>
      have htest : parseStep host brotli true s.input.channel .drain =
          .ok ⟨s.input.channel, .pop, [], []⟩ :=
        (ParseMoves.testFound (hmessages ▸ List.cons_ne_nil _ _)).parseStep_eq
      obtain ⟨t, ht, htchannel, hst⟩ := h.parse host brotli all closes hmore htest h.holds
      have hpop : parseStep host brotli true t.input.channel .pop =
          .ok ⟨{ t.input.channel with readMessages := messages }, .handOver message, [], []⟩ :=
        (ParseMoves.pop (htchannel ▸ hmessages)).parseStep_eq
      obtain ⟨u, hu, huchannel, htu⟩ := ht.parse host brotli all closes hmore hpop ht.holds
      obtain ⟨v, hv, hvchannel, huv⟩ :=
        hu.parse host brotli all closes hmore rfl hu.holds
      have hlength : u.input.channel.readBufferLength = length := by
        rw [huchannel]
        show t.input.channel.readBufferLength = length
        rw [htchannel]
        exact h.length_eq
      obtain ⟨w, hw, hvw⟩ := ih (hlength ▸ hv) (by rw [hvchannel, huchannel])
      exact ⟨w, hw, hst.trans (htu.trans (huv.trans hvw))⟩

variable {host brotli all closes}

/-- From the test of the body on, with what is known of the contents that are shorter. -/
theorem Reader.At.sizeBody_iff
    {Q : Bytes → Prop}
    (h : s.At errno results enqueued (.parsing .sizeBody) content length)
    (hmore : results ≠ [])
    (hshorter : ∀ (t : Reader) (after : Bytes),
      t.At errno results enqueued (.parsing .head) after 0 → after.length < content.length →
        (Comes host brotli all closes t ↔ ∃ rest, Frames host brotli after rest ∧ Q rest)) :
    Comes host brotli all closes s ↔
      length ≤ content.length ∧
        (∃ message, decodeString brotli (content.take length) = .ok message) ∧
        ∃ rest, Frames host brotli (content.drop length) rest ∧ Q rest := by
  have hsize := h.holds.size_eq
  have hlength := h.length_eq
  by_cases hlong : length ≤ content.length
  · have htest : parseStep host brotli true s.input.channel .sizeBody =
        .ok ⟨s.input.channel, .takeBody, [], []⟩ :=
      (ParseMoves.wholeBody (by omega)).parseStep_eq
    obtain ⟨t, ht, htchannel, hst⟩ := h.parse host brotli all closes hmore htest h.holds
    have htlength : t.input.channel.readBufferLength = length := by
      rw [htchannel]
      exact hlength
    obtain ⟨buffer, hbuffer, htake⟩ :=
      parseStep_takeBody host brotli true ht.holds (htlength ▸ hlong)
    obtain ⟨u, hu, huchannel, htu⟩ := ht.parse host brotli all closes hmore htake hbuffer
    obtain ⟨v, hv, hvchannel, huv⟩ :=
      hu.parse host brotli all closes hmore rfl hu.holds
    rw [hst, htu, huv]
    rw [htlength] at hv
    cases hdecode : decodeString brotli (content.take length) with
    | error e =>
        have hraised : parseStep host brotli true v.input.channel
            (.pushMessage (content.take length)) = .error e :=
          parseStep_pushMessage_raises host brotli true hdecode
        refine iff_of_false (hv.throws host brotli all closes hmore hraised) ?_
        rintro ⟨-, ⟨message, hok⟩, -⟩
        cases hok
    | ok message =>
        have hpush :
            parseStep host brotli true v.input.channel (.pushMessage (content.take length)) =
            .ok ⟨{ v.input.channel with
                readMessages := v.input.channel.readMessages ++ [message] },
              .head, [message], []⟩ :=
          (ParseMoves.pushMessage hdecode).parseStep_eq
        obtain ⟨w, hw, -, hvw⟩ := hv.parse host brotli all closes hmore hpush hv.holds
        have hpos := List.length_pos_of_ne_nil (body_ne_nil hdecode)
        rw [List.length_take] at hpos
        simp only [hv.length_eq] at hw
        rw [hvw, hshorter w _ hw (by rw [List.length_drop]; omega)]
        constructor
        · intro hrest
          exact ⟨hlong, ⟨message, rfl⟩, hrest⟩
        · rintro ⟨-, -, hrest⟩
          exact hrest
  · refine iff_of_false (Spins.not_comes ?_) (fun hbody => hlong hbody.1)
    refine ⟨h.ended_eq, h.running_eq, h.results_eq ▸ hmore, _, h.point_eq, .inr rfl, ?_, ?_⟩
    · show s.input.channel.readBufferLength ≠ 0
      omega
    · show s.input.channel.readBuffer.size < s.input.channel.readBufferLength
      omega

/-- From the head of the loop to the next `read`. -/
theorem Reader.At.head_iff
    {Q : Bytes → Prop}
    (h : s.At errno results enqueued (.parsing .head) content 0)
    (hmore : results ≠ [])
    (hnext : ∀ (t : Reader) (rest : Bytes), t.At errno results enqueued .testing rest 0 →
      (Comes host brotli all closes t ↔ Q rest)) :
    Comes host brotli all closes s ↔ ∃ rest, Frames host brotli content rest ∧ Q rest := by
  induction hn : content.length using Nat.strong_induction_on generalizing content s with
  | _ n ih =>
      have hsize := h.holds.size_eq
      have hhead : parseStep host brotli true s.input.channel .head =
          .ok ⟨s.input.channel, .sizeHeader, [], []⟩ :=
        (ParseMoves.noLength h.length_eq).parseStep_eq
      obtain ⟨t, ht, htchannel, hst⟩ := h.parse host brotli all closes hmore hhead h.holds
      rw [hst]
      by_cases hfew : HEAD_LENGTH < content.length
      · have htest : parseStep host brotli true t.input.channel .sizeHeader =
            .ok ⟨t.input.channel, .takeHeader, [], []⟩ :=
          (ParseMoves.moreThanHeader (htchannel ▸ hsize ▸ hfew)).parseStep_eq
        obtain ⟨u, hu, huchannel, htu⟩ :=
          ht.parse host brotli all closes hmore htest ht.holds
        obtain ⟨buffer, hbuffer, htake⟩ :=
          parseStep_takeHeader host brotli true hu.holds (by omega)
        obtain ⟨v, hv, hvchannel, huv⟩ :=
          hu.parse host brotli all closes hmore htake hbuffer
        have hfour : (content.take HEAD_LENGTH).length = HEAD_LENGTH := by
          rw [List.length_take]
          omega
        obtain ⟨length, hlength⟩ := readLength_ok host hfour
        have hstore : parseStep host brotli true v.input.channel
              (.storeLength (content.take HEAD_LENGTH)) =
            .ok ⟨{ v.input.channel with readBufferLength := length }, .sizeBody, [], []⟩ :=
          (ParseMoves.storeLength hlength).parseStep_eq
        obtain ⟨w, hw, hwchannel, hvw⟩ :=
          hv.parse host brotli all closes hmore hstore hv.holds
        rw [htu, huv, hvw]
        rw [hw.sizeBody_iff (Q := Q) hmore ?_]
        · simp only [frames_iff hfew hlength]
          tauto
        · intro u' after hu' hshorter
          rw [List.length_drop] at hshorter
          exact ih after.length (by omega) hu' rfl
      · -- at most a header is left: the only thing behind it is the next `read`
        have hbreak : parseStep host brotli true t.input.channel .sizeHeader =
            .ok ⟨t.input.channel, .drain, [], []⟩ :=
          (ParseMoves.noHeader (htchannel ▸ hsize ▸ Nat.le_of_not_lt hfew)).parseStep_eq
        obtain ⟨u, hu, huchannel, htu⟩ :=
          ht.parse host brotli all closes hmore hbreak ht.holds
        obtain ⟨v, hv, huv⟩ :=
          hu.drains host brotli all closes hmore
        have hv : v.At errno results enqueued .testing content 0 := by
          simpa only [huchannel, htchannel, h.length_eq] using hv
        rw [htu, huv, hnext v content hv]
        simp only [frames_few_iff (Nat.le_of_not_lt hfew), exists_eq_left]

/-- The client that is about to call `read`. -/
def Reader.atRead (s : Reader) : ClientInput := { s.input with point := .reading }

/-- From the test of `_running` past the next `read`. -/
theorem Reader.At.read
    {result : ReadReturn}
    (h : s.At errno (result :: results) enqueued .testing content 0) :
    Comes host brotli all closes s ↔
      Comes host brotli all closes ⟨s.atRead.afterRead result, results, enqueued⟩ := by
  have hmore : s.results ≠ [] := h.results_eq ▸ List.cons_ne_nil _ _
  have htest : s.next host brotli = .ok { s with input := s.atRead } := by
    simp only [Reader.next, h.ended_eq, h.point_eq, ClientInput.advance, h.running_eq, if_true,
      Reader.logged, Reader.atRead]
  have hread : ({ s with input := s.atRead } : Reader).next host brotli =
      .ok ⟨s.atRead.afterRead result, results, enqueued⟩ := by
    simp only [Reader.next, Reader.atRead, h.ended_eq, h.results_eq, h.enqueued_eq]
  have hopen : ¬ Fed all closes ({ s with input := s.atRead } : Reader) :=
    not_fed h.running_eq hmore
  exact (Ends.iff_next (not_fed h.running_eq hmore) htest).trans (Ends.iff_next hopen hread)

/-- A chunk that is still to be enqueued, or was dropped, is missing. -/
theorem not_fed_of_missing
    {chunk : Bytes}
    {chunks : List Bytes}
    (henqueued : s.enqueued = enqueued) :
    ¬ Fed (enqueued ++ chunk :: chunks) closes s := by
  rintro ⟨hall, -⟩
  rw [henqueued] at hall
  exact absurd (List.self_eq_append_right.mp hall) (List.cons_ne_nil _ _)

/-- A chunk that has no room is never in the buffer. -/
theorem Reader.At.overflows
    {chunk : Bytes}
    {chunks : List Bytes}
    (h : s.At errno results enqueued (.enqueuing chunk) content 0)
    (hroom : BUFFER_SIZE < content.length + chunk.length) :
    ¬ Comes host brotli (enqueued ++ chunk :: chunks) closes s := by
  have hnext : s.next host brotli =
      .ok { s with
        input := { s.input with ended := some (.runtimeError "Queue overflow") } } := by
    simp only [Reader.next, h.ended_eq, h.point_eq, ClientInput.advance,
      h.holds.enqueue_overflow hroom, Reader.logged]
  rw [Comes, Ends.iff_next (not_fed_of_missing h.enqueued_eq) hnext]
  exact not_comes_of_ended rfl (not_fed_of_missing h.enqueued_eq)

/-- A chunk that fits is enqueued and the call of `parse_message` begins. -/
theorem Reader.At.enqueues
    (host : Endian)
    (brotli : Brotli)
    (closes : Prop)
    {chunk : Bytes}
    (chunks : List Bytes)
    (h : s.At errno results enqueued (.enqueuing chunk) content 0)
    (hroom : content.length + chunk.length ≤ BUFFER_SIZE) :
    ∃ t : Reader,
      t.At errno results (enqueued ++ [chunk]) (.parsing .head) (content ++ chunk) 0 ∧
      (Comes host brotli (enqueued ++ chunk :: chunks) closes s ↔
        Comes host brotli (enqueued ++ [chunk] ++ chunks) closes t) := by
  obtain ⟨buffer, henqueue, hbuffer⟩ := h.holds.enqueue hroom
  let t : Reader :=
    { s with
      input := { s.input with
        channel := { s.input.channel with readBuffer := buffer }
        point := .parsing .head }
      enqueued := s.enqueued ++ [chunk] }
  have hnext : s.next host brotli = .ok t := by
    simp only [Reader.next, h.ended_eq, h.point_eq, ClientInput.advance, henqueue, Reader.logged, t]
  refine ⟨t, ?_, ?_⟩
  · exact ⟨h.ended_eq, h.running_eq, h.errno_eq, h.results_eq,
      congrArg (· ++ [chunk]) h.enqueued_eq, rfl, hbuffer, h.length_eq⟩
  · rw [List.append_assoc]
    exact Ends.iff_next (not_fed_of_missing h.enqueued_eq) hnext

/-- A client that has disconnected without the chunk stays as it is. -/
theorem not_comes_of_stopped
    {chunk dropped : Bytes}
    {chunks : List Bytes}
    (hended : s.input.ended = none)
    (hpoint : s.input.point = .stopped dropped)
    (henqueued : s.enqueued = enqueued) :
    ¬ Comes host brotli (enqueued ++ chunk :: chunks) closes s := by
  refine Ends.not_of_invariant (I := fun t => t = s) ?_ ?_ rfl
  · rintro t rfl
    exact not_fed_of_missing henqueued
  · rintro t rfl
    refine ⟨t, ?_, rfl⟩
    simp only [Reader.next, hended, hpoint, ClientInput.advance]

/-- The client that is about to look at `_running`, whatever is in its buffer. -/
theorem Reader.At.comes_iff
    (h : s.At errno results enqueued .testing content 0) :
    Comes host brotli (enqueued ++ chunks errno results) (Closes errno results) s ↔
      Clear host brotli errno content results := by
  induction results generalizing errno content enqueued s with
  | nil =>
      refine iff_of_true (.outside ⟨?_, ?_, .inr h.results_eq⟩) trivial
      · rw [h.enqueued_eq, chunks, List.append_nil]
      · simp [h.running_eq, Closes]
  | cons result results ih =>
      have herrno : s.atRead.errno = errno := h.errno_eq
      rw [h.read]
      cases hverdict : serverVerdict result errno with
      | enqueue chunk =>
          simp only [chunks, Closes, Clear, hverdict]
          rw [afterRead_enqueue (herrno ▸ hverdict), herrno]
          by_cases hagain : errno = EAGAIN ∨ errno = EWOULDBLOCK
          · rw [if_pos hagain, and_iff_right hagain]
            let read : ClientInput :=
              { s.atRead with
                errno := result.handled errno
                socket := s.atRead.socket.drop chunk.length
                point := .enqueuing chunk }
            have hat : (Reader.mk read results enqueued).At (result.handled errno) results enqueued
                (.enqueuing chunk) content 0 :=
              ⟨h.ended_eq, h.running_eq, rfl, rfl, rfl, rfl, h.holds, h.length_eq⟩
            by_cases hroom : content.length + chunk.length ≤ BUFFER_SIZE
            · obtain ⟨t, ht, hiff⟩ := hat.enqueues host brotli
                (Closes (result.handled errno) results) (chunks (result.handled errno) results)
                hroom
              rw [hiff, and_iff_right hroom]
              cases results with
              | nil =>
                  refine iff_of_true (.outside ⟨?_, ?_, .inr ht.results_eq⟩) (.inl rfl)
                  · rw [ht.enqueued_eq, chunks, List.append_nil]
                  · simp [ht.running_eq, Closes]
              | cons next results =>
                  have hmore : next :: results ≠ [] := List.cons_ne_nil _ _
                  rw [ht.head_iff hmore fun u rest hu => ih hu, or_iff_right hmore]
            · exact iff_of_false (hat.overflows (by omega)) (fun hclear => hroom hclear.1)
          · -- the chunk is lost with the connection
            rw [if_neg hagain]
            exact iff_of_false (not_comes_of_stopped h.ended_eq rfl rfl)
              (fun hclear => hagain hclear.1)
      | wait =>
          simp only [chunks, Closes, Clear, hverdict]
          rw [afterRead_wait (herrno ▸ hverdict), herrno]
          exact ih ⟨h.ended_eq, h.running_eq, rfl, rfl, rfl, rfl, h.holds, h.length_eq⟩
      | close =>
          have hclosed := afterRead_close (herrno ▸ hverdict)
          simp only [chunks, Closes, Clear, hverdict]
          refine iff_of_true (.outside ⟨?_, ?_, .inl trivial⟩) trivial
          · exact (List.append_nil _).symm
          · exact iff_of_true hclosed trivial

end Turn

/-- A new client. -/
theorem init_at
    (type : CompressionType)
    (data : Nat → UInt8)
    (errno : Int)
    (results : List ReadReturn) :
    (Reader.init type data errno results).At errno results [] .testing [] 0 where
  ended_eq := rfl
  running_eq := rfl
  errno_eq := rfl
  results_eq := rfl
  enqueued_eq := rfl
  point_eq := rfl
  holds := Buffer.init_holds data (by decide)
  length_eq := rfl

/-- **What the client gives its parser.**  Whatever `errno` is at first and whatever `read`
returns, the client enqueues every chunk and closes as the server would exactly when the way
is clear at every chunk. -/
theorem client_feeds_iff
    (host : Endian)
    (brotli : Brotli)
    (type : CompressionType)
    (data : Nat → UInt8)
    (errno : Int)
    (results : List ReadReturn) :
    FeedsParser host brotli (.init type data errno results) ↔
      Clear host brotli errno [] results :=
  (init_at type data errno results).comes_iff

/-- One byte, with `errno` zero: the client closes the connection and drops the byte. -/
theorem first_chunk_dropped :
    (∃ s, (do
        let testing ← Reader.next .little .identity (.init .none (fun _ => 0) 0 [.bytes [1] 0])
        Reader.next .little .identity testing) = .ok s ∧
      s.input.running = false ∧ s.input.point = .stopped [1] ∧ s.enqueued = []) ∧
      chunks 0 [.bytes [1] 0] = [[1]] ∧
      ¬ FeedsParser .little .identity (.init .none (fun _ => 0) 0 [.bytes [1] 0]) := by
  refine ⟨⟨_, rfl, rfl, rfl, rfl⟩, rfl, fun hfeeds => ?_⟩
  have hclear := (init_at .none (fun _ => 0) 0 [.bytes [1] 0]).comes_iff.mp hfeeds
  rcases hclear.1 with hagain | hagain
  · cases hagain
  · cases hagain

end ClientRead
end Core
end ZeroRPC
