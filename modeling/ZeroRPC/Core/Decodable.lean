import ZeroRPC.Core.Attended
import ZeroRPC.Core.ParseLoop

/-!
# What is decoded can be decoded

A peer may send any bytes.  `parse_message` takes four of them for a length, as a negative
number or not, and waits until the buffer holds as many bytes as that.  It hands all of
them to `decode_string`, which reads a tag in front without asking whether there is one,
and has no case for an unknown tag.  Several tasks may be in `parse_message` of one channel;
what one of them has tested may be out of date when it goes on.

Main facts:
* `decodeString_undefined_iff`: what `decode_string` cannot take;
* `Uncrossed`: the steps that leave the tests of other tasks alone;
* `Sound.step`: while no bad frame is ahead, none is decoded, whatever the peer sends and
  however it is cut;
* `Undecodable.reached`: the first bad frame that fits in the buffer is decoded in some run;
* `decoded_decodable_iff`: the two together;
* `crossed_not_decodable`: whole frames and two tasks that cut in.
-/

namespace ZeroRPC
namespace Core

open Library

/-- There is a first byte, and it is a tag that the `switch` knows. -/
def Decodable (body : Bytes) : Prop :=
  ∃ tag message, body = tag :: message ∧ CompressionType.ofByte tag ≠ none

/-- A header and the bytes it asks for, which the buffer can hold.  The header is read when
one byte more than a header is there. -/
structure Framed (host : Endian) (head body rest : Bytes) : Prop where
  four : head.length = HEAD_LENGTH
  asks : readLength host head = .ok body.length
  fits : body.length ≤ BUFFER_SIZE
  more : body ++ rest ≠ []

/-- Behind frames that decode there is a body that is empty or has an unknown tag. -/
inductive Undecodable (host : Endian) (brotli : Brotli) : Bytes → Prop
  | here {head body rest : Bytes} (hframed : Framed host head body rest)
      (hbody : ¬ Decodable body) : Undecodable host brotli (head ++ (body ++ rest))
  | later {head body rest message : Bytes} (hframed : Framed host head body rest)
      (hdecode : decodeString brotli body = .ok message)
      (hrest : Undecodable host brotli rest) : Undecodable host brotli (head ++ (body ++ rest))

/-- A body that can be decoded is decoded to what the language defines, if the decompressor
does what it defines. -/
theorem decodeString_undefined_iff
    {brotli : Brotli}
    (hdefined : ∀ data, brotli.decompress data ≠ .error .undefined)
    (body : Bytes) :
    decodeString brotli body = .error .undefined ↔ ¬ Decodable body := by
  cases body with
  | nil =>
      refine iff_of_true rfl ?_
      rintro ⟨tag, message, h, -⟩
      cases h
  | cons tag message =>
      cases htag : CompressionType.ofByte tag with
      | none =>
          refine iff_of_true (by simp only [decodeString, htag]) ?_
          rintro ⟨tag', message', h, hknown⟩
          cases h
          exact hknown htag
      | some type =>
          have hdecodable : Decodable (tag :: message) :=
            ⟨tag, message, rfl, by rw [htag]; exact Option.some_ne_none type⟩
          refine iff_of_false ?_ (not_not.mpr hdecodable)
          cases type with
          | none =>
              simp only [decodeString, htag]
              exact nofun
          | brotli =>
              simp only [decodeString, htag]
              exact hdefined message

/-! ### Steps that do not cut in -/

/-- Between a test of `_read_buffer_length` and the end of what is done because of it. -/
def Point.between : Point → Bool
  | .sizeHeader => true
  | .takeHeader => true
  | .storeLength _ => true
  | .sizeBody => true
  | .takeBody => true
  | .clearLength _ => true
  | _ => false

/-- About to take bytes off the buffer or to write `_read_buffer_length`. -/
def Point.alters : Point → Bool
  | .takeHeader => true
  | .storeLength _ => true
  | .takeBody => true
  | .clearLength _ => true
  | _ => false

/-- A chunk is enqueued after those read before it; a task takes bytes or writes the length
while no other task relies on what it has tested; bodies are decoded in the order they were
taken. -/
def Uncrossed (s : Connection) : ConnectionEvent → Prop
  | .advance t _ =>
      match s.tasks t with
      | .enqueuing chunk => s.readOrder.head? = some (t, chunk)
      | .parsing (.pushMessage body) _ => s.takeOrder.head? = some (t, body)
      | .parsing point _ =>
          point.alters = true → ∀ u, u ≠ t → (s.tasks u).at Point.between = false
      | _ => True
  | _ => True

/-- Whenever a step of such a run calls `decode_string`, the span can be decoded. -/
def DecodesDecodable (host : Endian) (brotli : Brotli) (type : CompressionType)
    (data : Nat → UInt8) (stream : Bytes) (ok : Connection → ConnectionEvent → Prop) : Prop :=
  ∀ s, (Connection.system host brotli type data stream).Reachable ok s →
    ∀ t n body last, s.tasks t = .parsing (.pushMessage body) last → s.ended = none →
      ok s (.advance t n) → Decodable body

/-! ### Nothing bad ahead -/

/-- With a length noted or none, and something in hand, the bytes behind are not bad. -/
def Facing (host : Endian) (brotli : Brotli) (length : Nat) (bytes : Bytes) : Hand UInt8 → Prop
  | .empty =>
      (length = 0 ∧ ¬ Undecodable host brotli bytes) ∨
        (length ≠ 0 ∧ ∃ head, head.length = HEAD_LENGTH ∧ readLength host head = .ok length ∧
          ¬ Undecodable host brotli (head ++ bytes))
  | .header temp =>
      temp.length = HEAD_LENGTH ∧ bytes ≠ [] ∧ ¬ Undecodable host brotli (temp ++ bytes)
  | .body => ¬ Undecodable host brotli bytes

/-- What the tests on the way to a point have found is still so. -/
def Point.Current (channel : SocketChannel) : Point → Prop
  | .sizeHeader => channel.readBufferLength = 0
  | .takeHeader => channel.readBufferLength = 0 ∧ HEAD_LENGTH < channel.readBuffer.size
  | .sizeBody => channel.readBufferLength ≠ 0
  | .takeBody => channel.readBufferLength ≠ 0
  | _ => True

/-- What is behind the bodies that were taken. -/
structure Behind (host : Endian) (brotli : Brotli) (s : Connection) (content : Bytes)
    (hand : Hand UInt8) : Prop where
  facing : Facing host brotli s.channel.readBufferLength (content ++ s.upcoming) hand
  current : ∀ {t point last}, s.tasks t = .parsing point last → point.Current s.channel

/-- The bodies can be decoded, and if none of them throws, what is behind them is as it
should be. -/
def Kept (brotli : Brotli) (behind : Prop) : List Bytes → Prop
  | [] => behind
  | body :: bodies =>
      Decodable body ∧ ∀ message, decodeString brotli body = .ok message → Kept brotli behind bodies

/-- No bad frame is ahead. -/
structure Sound (host : Endian) (brotli : Brotli) (s : Connection) (content : Bytes) : Prop where
  buffer : s.channel.readBuffer.Holds content
  ahead : ∃ hand, Claims s.tasks hand ∧
    Kept brotli (Behind host brotli s content hand) (s.takeOrder.map Prod.snd)

section Sound

variable {host : Endian} {brotli : Brotli}

theorem Kept.imp
    {behind behind' : Prop}
    {bodies : List Bytes}
    (himp : behind → behind')
    (h : Kept brotli behind bodies) :
    Kept brotli behind' bodies := by
  induction bodies with
  | nil => exact himp h
  | cons body bodies ih => exact ⟨h.1, fun message hdecode => ih (h.2 message hdecode)⟩

/-- One more body is taken. -/
theorem Kept.concat
    {behind behind' : Prop}
    {bodies : List Bytes}
    {body : Bytes}
    (hbody : behind →
      Decodable body ∧ ∀ message, decodeString brotli body = .ok message → behind')
    (h : Kept brotli behind bodies) :
    Kept brotli behind' (bodies ++ [body]) := by
  induction bodies with
  | nil => exact hbody h
  | cons first bodies ih => exact ⟨h.1, fun message hdecode => ih (h.2 message hdecode)⟩

theorem sound_init
    {stream : Bytes}
    (type : CompressionType)
    (data : Nat → UInt8)
    (h : ¬ Undecodable host brotli stream) :
    Sound host brotli (Connection.init type data stream) [] where
  buffer := Buffer.init_holds data (by decide)
  ahead := by
    refine ⟨.empty, .none fun _ => rfl, .inl ⟨rfl, h⟩, ?_⟩
    intro t point last ht
    cases ht

/-- What is decoded was kept. -/
theorem Sound.decodable
    {s : Connection}
    {content body : Bytes}
    {t : Nat}
    (h : Sound host brotli s content)
    (hfirst : s.takeOrder.head? = some (t, body)) :
    Decodable body := by
  obtain ⟨hand, -, hkept⟩ := h.ahead
  obtain ⟨rest, hrest⟩ := List.head?_eq_some_iff.mp hfirst
  rw [hrest] at hkept
  exact hkept.1

theorem Point.current_of_not_between
    {channel : SocketChannel}
    {point : Point}
    (h : point.between = false) :
    point.Current channel := by
  cases point with
  | sizeHeader => cases h
  | takeHeader => cases h
  | sizeBody => cases h
  | takeBody => cases h
  | _ => trivial

/-- A buffer that has not become shorter. -/
theorem Point.Current.grow
    {channel channel' : SocketChannel}
    {point : Point}
    (hlength : channel'.readBufferLength = channel.readBufferLength)
    (hsize : channel.readBuffer.size ≤ channel'.readBuffer.size)
    (h : point.Current channel) :
    point.Current channel' := by
  cases point with
  | takeHeader => exact ⟨hlength.trans h.1, h.2.trans_le hsize⟩
  | sizeHeader => exact hlength.trans h
  | sizeBody => exact fun hzero => h (hlength.symm.trans hzero)
  | takeBody => exact fun hzero => h (hlength.symm.trans hzero)
  | _ => trivial

/-- A task that is not between a test and the end of what follows it holds nothing. -/
theorem claims_of_not_between
    {task : Task}
    (h : task.at Point.between = false) :
    task.claims = false := by
  cases task with
  | parsing point last =>
      cases point with
      | storeLength temp => cases h
      | clearLength body => cases h
      | _ => rfl
  | _ => rfl

section Tests

variable {s s' : Connection} {t : Nat} {task : Task}

/-- One task goes on and leaves what the others rely on. -/
theorem current_update
    (h : ∀ {u point last}, s.tasks u = .parsing point last → point.Current s.channel)
    (htasks : s'.tasks = Function.update s.tasks t task)
    (hothers : ∀ {u point last}, u ≠ t → s.tasks u = .parsing point last →
      point.Current s.channel → point.Current s'.channel)
    (hself : ∀ point last, task = .parsing point last → point.Current s'.channel)
    {u : Nat}
    {point : Point}
    {last : Bool}
    (hu : s'.tasks u = .parsing point last) :
    point.Current s'.channel := by
  rw [htasks] at hu
  by_cases hut : u = t
  · subst hut
    rw [Function.update_self] at hu
    exact hself point last hu
  · rw [Function.update_of_ne hut] at hu
    exact hothers hut hu (h hu)

/-- A step that takes nothing and notes nothing. -/
theorem Sound.look
    {content content' : Bytes}
    (h : Sound host brotli s content)
    (hbefore : (s.tasks t).claims = false)
    (hafter : task.claims = false)
    (htasks : s'.tasks = Function.update s.tasks t task)
    (horder : s'.takeOrder = s.takeOrder)
    (hlength : s'.channel.readBufferLength = s.channel.readBufferLength)
    (hbuffer : s'.channel.readBuffer.Holds content')
    (hgrow : content.length ≤ content'.length)
    (hsame : content' ++ s'.upcoming = content ++ s.upcoming)
    (hcurrent : ∀ point last, task = .parsing point last →
      (∀ before last', s.tasks t = .parsing before last' → before.Current s.channel) →
        point.Current s'.channel) :
    Sound host brotli s' content' := by
  obtain ⟨hholds, hand, hclaims, hkept⟩ := h
  have hsize : s.channel.readBuffer.size ≤ s'.channel.readBuffer.size := by
    rw [hholds.size_eq, hbuffer.size_eq]
    exact hgrow
  refine ⟨hbuffer, hand, htasks ▸ hclaims.keep hbefore hafter, horder ▸ hkept.imp ?_⟩
  intro hbehind
  refine ⟨?_, current_update hbehind.current htasks ?_ ?_⟩
  · rw [hlength, hsame]
    exact hbehind.facing
  · exact fun _ _ hother => hother.grow hlength hsize
  · exact fun point last htask => hcurrent point last htask fun _ _ ht => hbehind.current ht

/-- A step that takes or notes something, while no other task relies on a test. -/
theorem Behind.alter
    {content content' : Bytes}
    {hand hand' : Hand UInt8}
    (h : Behind host brotli s content hand)
    (hothers : ∀ u, u ≠ t → (s.tasks u).at Point.between = false)
    (htasks : s'.tasks = Function.update s.tasks t task)
    (hself : ∀ point last, task = .parsing point last → point.Current s'.channel)
    (hfacing :
      Facing host brotli s'.channel.readBufferLength (content' ++ s'.upcoming) hand') :
    Behind host brotli s' content' hand' := by
  refine ⟨hfacing, current_update h.current htasks ?_ hself⟩
  intro u point last hut hu _
  have hother := hothers u hut
  rw [hu] at hother
  exact Point.current_of_not_between hother

/-- Nobody else holds anything then. -/
theorem noClaims
    (hothers : ∀ u, u ≠ t → (s.tasks u).at Point.between = false)
    (hbefore : (s.tasks t).claims = false)
    (u : Nat) :
    (s.tasks u).claims = false := by
  by_cases hut : u = t
  · rw [hut]
    exact hbefore
  · exact claims_of_not_between (hothers u hut)

variable {content : Bytes} {last : Bool}

theorem Sound.takeHeader
    {temp : Bytes}
    {buffer : Buffer UInt8 BUFFER_SIZE}
    (h : Sound host brotli s content)
    (ht : s.tasks t = .parsing .takeHeader last)
    (hothers : ∀ u, u ≠ t → (s.tasks u).at Point.between = false)
    (hdequeue : s.channel.readBuffer.dequeue HEAD_LENGTH = .ok (temp, buffer))
    (hchannel : s'.channel = { s.channel with readBuffer := buffer })
    (htasks : s'.tasks = Function.update s.tasks t (.parsing (.storeLength temp) last))
    (horder : s'.takeOrder = s.takeOrder)
    (hupcoming : s'.upcoming = s.upcoming) :
    Sound host brotli s' (content.drop HEAD_LENGTH) := by
  obtain ⟨hholds, hand, hclaims, hkept⟩ := h
  have hnone := noClaims hothers (by rw [ht]; rfl)
  obtain rfl := hclaims.eq_empty hnone
  have hsize := hholds.size_eq
  obtain ⟨-, rfl, hbuffer⟩ := hholds.of_dequeue hdequeue
  refine ⟨hchannel ▸ hbuffer, .header (content.take HEAD_LENGTH),
    htasks ▸ .claimHeader hnone _ last, horder ▸ hkept.imp ?_⟩
  intro hbehind
  obtain ⟨hzero, hmore⟩ := hbehind.current ht
  refine hbehind.alter hothers htasks ?_ ?_
  · rintro point last ⟨⟩
    trivial
  · rcases hbehind.facing with ⟨-, hsound⟩ | ⟨hne, -⟩
    · rw [hupcoming]
      refine ⟨?_, ?_, ?_⟩
      · rw [List.length_take]
        omega
      · intro hnil
        have hdrop := congrArg List.length (List.append_eq_nil_iff.mp hnil).1
        rw [List.length_drop, List.length_nil] at hdrop
        omega
      · rw [← List.append_assoc, List.take_append_drop]
        exact hsound
    · exact absurd hzero hne

/-- A header that asks for nothing would be the header of a bad frame. -/
theorem Sound.storeLength
    {temp : Bytes}
    {length : Nat}
    (h : Sound host brotli s content)
    (ht : s.tasks t = .parsing (.storeLength temp) last)
    (hothers : ∀ u, u ≠ t → (s.tasks u).at Point.between = false)
    (hread : readLength host temp = .ok length)
    (hchannel : s'.channel = { s.channel with readBufferLength := length })
    (htasks : s'.tasks = Function.update s.tasks t (.parsing .sizeBody last))
    (horder : s'.takeOrder = s.takeOrder)
    (hupcoming : s'.upcoming = s.upcoming) :
    Sound host brotli s' content := by
  obtain ⟨hholds, hand, hclaims, hkept⟩ := h
  obtain ⟨rfl, hnone⟩ := hclaims.of_storeLength ht
  have hbuffer : s'.channel.readBuffer.Holds content := by rwa [hchannel]
  refine ⟨hbuffer, .empty, htasks ▸ .release hnone rfl, horder ▸ hkept.imp ?_⟩
  intro hbehind
  obtain ⟨hfour, hmore, hsound⟩ := hbehind.facing
  have hne : s'.channel.readBufferLength ≠ 0 := by
    rw [hchannel]
    rintro rfl
    have hframed : Framed host temp [] (content ++ s.upcoming) :=
      ⟨hfour, hread, Nat.zero_le _, hmore⟩
    have hempty : ¬ Decodable [] := by
      rintro ⟨tag, message, hbody, -⟩
      cases hbody
    have hbad : Undecodable host brotli (temp ++ ([] ++ (content ++ s.upcoming))) :=
      .here hframed hempty
    exact hsound hbad
  refine hbehind.alter hothers htasks ?_ ?_
  · rintro point last ⟨⟩
    exact hne
  · rw [hupcoming]
    refine .inr ⟨hne, temp, hfour, ?_, hsound⟩
    rw [hchannel]
    exact hread

/-- The body that is taken can be decoded, and the bytes behind it are not bad if it is. -/
theorem Sound.takeBody
    {body : Bytes}
    {buffer : Buffer UInt8 BUFFER_SIZE}
    (h : Sound host brotli s content)
    (ht : s.tasks t = .parsing .takeBody last)
    (hothers : ∀ u, u ≠ t → (s.tasks u).at Point.between = false)
    (hdequeue : s.channel.readBuffer.dequeue s.channel.readBufferLength = .ok (body, buffer))
    (hchannel : s'.channel = { s.channel with readBuffer := buffer })
    (htasks : s'.tasks = Function.update s.tasks t (.parsing (.clearLength body) last))
    (horder : s'.takeOrder = s.takeOrder ++ [(t, body)])
    (hupcoming : s'.upcoming = s.upcoming) :
    Sound host brotli s' (content.drop s.channel.readBufferLength) := by
  obtain ⟨hholds, hand, hclaims, hkept⟩ := h
  have hnone := noClaims hothers (by rw [ht]; rfl)
  obtain rfl := hclaims.eq_empty hnone
  have hsize := hholds.size_eq
  have hfits := hholds.size_le
  obtain ⟨hcount, rfl, hbuffer⟩ := hholds.of_dequeue hdequeue
  refine ⟨hchannel ▸ hbuffer, .body, htasks ▸ .claimBody hnone _ last, ?_⟩
  rw [horder, List.map_append]
  refine hkept.concat fun hbehind => ?_
  have hne : s.channel.readBufferLength ≠ 0 := hbehind.current ht
  rcases hbehind.facing with ⟨hzero, -⟩ | ⟨-, head, hfour, hread, hsound⟩
  · exact absurd hzero hne
  have hlength : (content.take s.channel.readBufferLength).length = s.channel.readBufferLength := by
    rw [List.length_take]
    omega
  have hframed : Framed host head (content.take s.channel.readBufferLength)
      (content.drop s.channel.readBufferLength ++ s.upcoming) := by
    refine ⟨hfour, hlength.symm ▸ hread, by omega, ?_⟩
    intro hnil
    have htaken := congrArg List.length (List.append_eq_nil_iff.mp hnil).1
    rw [hlength, List.length_nil] at htaken
    exact hne htaken
  rw [← List.take_append_drop s.channel.readBufferLength content, List.append_assoc] at hsound
  refine ⟨?_, fun message hdecode => hbehind.alter hothers htasks ?_ ?_⟩
  · by_contra hbad
    exact hsound (.here hframed hbad)
  · rintro point last ⟨⟩
    trivial
  · rw [hupcoming]
    exact fun hbad => hsound (.later hframed hdecode hbad)

theorem Sound.clearLength
    {body : Bytes}
    (h : Sound host brotli s content)
    (ht : s.tasks t = .parsing (.clearLength body) last)
    (hothers : ∀ u, u ≠ t → (s.tasks u).at Point.between = false)
    (hchannel : s'.channel = { s.channel with readBufferLength := 0 })
    (htasks : s'.tasks = Function.update s.tasks t (.parsing (.pushMessage body) last))
    (horder : s'.takeOrder = s.takeOrder)
    (hupcoming : s'.upcoming = s.upcoming) :
    Sound host brotli s' content := by
  obtain ⟨hholds, hand, hclaims, hkept⟩ := h
  obtain ⟨rfl, hnone⟩ := hclaims.of_clearLength ht
  have hbuffer : s'.channel.readBuffer.Holds content := by rwa [hchannel]
  refine ⟨hbuffer, .empty, htasks ▸ .release hnone rfl, horder ▸ hkept.imp ?_⟩
  intro hbehind
  refine hbehind.alter hothers htasks ?_ ?_
  · rintro point last ⟨⟩
    trivial
  · rw [hupcoming, hchannel]
    exact .inl ⟨rfl, hbehind.facing⟩

/-- The first of the bodies is decoded. -/
theorem Sound.pushMessage
    {body message : Bytes}
    (h : Sound host brotli s content)
    (ht : s.tasks t = .parsing (.pushMessage body) last)
    (hfirst : s.takeOrder.head? = some (t, body))
    (hdecode : decodeString brotli body = .ok message)
    (hbuffer : s'.channel.readBuffer = s.channel.readBuffer)
    (hlength : s'.channel.readBufferLength = s.channel.readBufferLength)
    (htasks : s'.tasks = Function.update s.tasks t (.parsing .head last))
    (horder : s'.takeOrder = leave t s.takeOrder)
    (hupcoming : s'.upcoming = s.upcoming) :
    Sound host brotli s' content := by
  obtain ⟨hholds, hand, hclaims, hkept⟩ := h
  obtain ⟨rest, hrest⟩ := List.head?_eq_some_iff.mp hfirst
  rw [hrest] at hkept
  rw [hrest, leave_cons] at horder
  have hholds' : s'.channel.readBuffer.Holds content := by rwa [hbuffer]
  refine ⟨hholds', hand, htasks ▸ hclaims.keep (by rw [ht]; rfl) rfl,
    horder ▸ (hkept.2 message hdecode).imp ?_⟩
  intro hbehind
  refine ⟨?_, current_update hbehind.current htasks ?_ ?_⟩
  · rw [hlength, hupcoming]
    exact hbehind.facing
  · exact fun _ _ hother => hother.grow hlength (by rw [hbuffer])
  · rintro point last ⟨⟩
    trivial

/-- An operation of `parse_message` that only looks. -/
theorem Sound.test
    {point next : Point}
    (h : Sound host brotli s content)
    (ht : s.tasks t = .parsing point last)
    (hbefore : (s.tasks t).claims = false)
    (hafter : (Connection.proceed next last).claims = false)
    (htasks : s'.tasks = Function.update s.tasks t (Connection.proceed next last))
    (horder : s'.takeOrder = s.takeOrder)
    (hbuffer : s'.channel.readBuffer = s.channel.readBuffer)
    (hlength : s'.channel.readBufferLength = s.channel.readBufferLength)
    (hupcoming : s'.upcoming = s.upcoming)
    (hcurrent : point.Current s.channel → next.Current s.channel) :
    Sound host brotli s' content := by
  have hholds : s'.channel.readBuffer.Holds content := hbuffer ▸ h.buffer
  refine h.look hbefore hafter htasks horder hlength hholds le_rfl (by rw [hupcoming]) ?_
  intro after last' htask hbehind
  have hafter : after = next := by
    rw [Connection.proceed] at htask
    split at htask
    · cases last <;> cases htask
    · cases htask
      rfl
  subst hafter
  exact (hcurrent (hbehind _ _ ht)).grow hlength (by rw [hbuffer])

/-- The next task in turn enqueues its chunk. -/
theorem Sound.enqueue
    {chunk : Bytes}
    {buffer : Buffer UInt8 BUFFER_SIZE}
    (h : Sound host brotli s content)
    (ht : s.tasks t = .enqueuing chunk)
    (hfirst : s.readOrder.head? = some (t, chunk))
    (hbuffer : s.channel.readBuffer.enqueue chunk = .ok buffer) :
    Sound host brotli
      { s with
        channel := { s.channel with readBuffer := buffer }
        tasks := Function.update s.tasks t (.parsing .head false)
        readOrder := leave t s.readOrder }
      (content ++ chunk) := by
  obtain ⟨rest, hrest⟩ := List.head?_eq_some_iff.mp hfirst
  refine h.look (t := t) (by rw [ht]; rfl) rfl rfl rfl rfl (h.buffer.of_enqueue hbuffer) ?_ ?_ ?_
  · rw [List.length_append]
    omega
  · simp [Connection.upcoming, hrest, leave_cons]
  · rintro point last ⟨⟩ -
    trivial

/-- A task reads a chunk. -/
theorem Sound.read
    (h : Sound host brotli s content)
    (ht : s.tasks t = .reading)
    (n : Nat) :
    Sound host brotli
      { s with
        socket := s.socket.drop n
        tasks := Function.update s.tasks t (.enqueuing (s.socket.take n))
        readOrder := s.readOrder ++ [(t, s.socket.take n)] }
      content := by
  refine h.look (t := t) (by rw [ht]; rfl) rfl rfl rfl rfl h.buffer le_rfl ?_ ?_
  · simp only [Connection.upcoming, List.map_append, List.map_cons, List.map_nil,
      List.flatten_append, List.flatten_cons, List.flatten_nil, List.append_nil,
      List.append_assoc]
    rw [← List.append_assoc (s.socket.take n), List.take_append_drop]
  · rintro point last ⟨⟩

/-- An operation of `parse_message` that does not cut in. -/
theorem Sound.parse
    {point : Point}
    {p : Parsed}
    {n : Nat}
    (h : Sound host brotli s content)
    (ht : s.tasks t = .parsing point last)
    (hok : Uncrossed s (.advance t n))
    (hp : parseStep host brotli true s.channel point = .ok p) :
    ∃ content', Sound host brotli
      (Connection.reorder t point p.point
        { s with
          channel := p.channel
          tasks := Function.update s.tasks t (Connection.proceed p.point last)
          pushed := s.pushed ++ p.pushed
          handed := s.handed ++ p.handed }) content' := by
  simp only [Uncrossed, ht] at hok
  cases parseStep_moves hp with
  | noLength hzero =>
      exact ⟨content, h.test ht (by rw [ht]; rfl) rfl rfl rfl rfl rfl rfl fun _ => hzero⟩
  | noted hne =>
      exact ⟨content, h.test ht (by rw [ht]; rfl) rfl rfl rfl rfl rfl rfl fun _ => hne⟩
  | moreThanHeader hmore =>
      refine ⟨content, h.test ht (by rw [ht]; rfl) rfl rfl rfl rfl rfl rfl ?_⟩
      exact fun hzero => ⟨hzero, hmore⟩
  | takeHeader hdequeue => exact ⟨_, h.takeHeader ht (hok rfl) hdequeue rfl rfl rfl rfl⟩
  | storeLength hread => exact ⟨_, h.storeLength ht (hok rfl) hread rfl rfl rfl rfl⟩
  | wholeBody _ =>
      exact ⟨content, h.test ht (by rw [ht]; rfl) rfl rfl rfl rfl rfl rfl id⟩
  | takeBody hdequeue => exact ⟨_, h.takeBody ht (hok rfl) hdequeue rfl rfl rfl rfl⟩
  | clearLength => exact ⟨_, h.clearLength ht (hok rfl) rfl rfl rfl rfl⟩
  | pushMessage hdecode => exact ⟨_, h.pushMessage ht hok hdecode rfl rfl rfl rfl rfl⟩
  | testEmpty _ =>
      refine ⟨content, h.test ht (by rw [ht]; rfl) ?_ rfl rfl rfl rfl rfl fun _ => trivial⟩
      cases last <;> rfl
  | returned =>
      refine ⟨content, h.test ht (by rw [ht]; rfl) ?_ rfl rfl rfl rfl rfl fun _ => trivial⟩
      cases last <;> rfl
  | _ =>
      exact ⟨content, h.test ht (by rw [ht]; rfl) rfl rfl rfl rfl rfl rfl fun _ => trivial⟩

/-- **A step that does not cut in leaves no bad frame ahead.** -/
theorem Sound.step
    {e : ConnectionEvent}
    (h : Sound host brotli s content)
    (hok : Uncrossed s e)
    (hstep : Connection.step host brotli s e = some s') :
    ∃ content', Sound host brotli s' content' := by
  obtain ⟨-, hmoves⟩ := Connection.step_moves hstep
  cases hmoves with
  | @arrive n =>
      obtain ⟨hholds, hand, hclaims, hkept⟩ := h
      refine ⟨content, hholds, hand, hclaims, hkept.imp fun hbehind => ⟨?_, hbehind.current⟩⟩
      have hfacing := hbehind.facing
      simpa [Connection.upcoming] using hfacing
  | modify =>
      obtain ⟨hholds, hand, hclaims, hkept⟩ := h
      exact ⟨content, hholds, hand, hclaims,
        hkept.imp fun hbehind => ⟨hbehind.facing, hbehind.current⟩⟩
  | dispatch ht =>
      refine ⟨content, h.look (by rw [ht]; rfl) rfl rfl rfl rfl h.buffer le_rfl rfl ?_⟩
      rintro point last ⟨⟩
  | readNone ht _ =>
      refine ⟨content, h.look (by rw [ht]; rfl) rfl rfl rfl rfl h.buffer le_rfl rfl ?_⟩
      rintro point last ⟨⟩ -
      trivial
  | @read t n ht => exact ⟨content, h.read ht n⟩
  | enqueue ht hbuffer =>
      simp only [Uncrossed, ht] at hok
      exact ⟨_, h.enqueue ht hok hbuffer⟩
  | parse ht hp => exact h.parse ht hok hp
  | throws =>
      obtain ⟨hholds, hand, hclaims, hkept⟩ := h
      exact ⟨content, hholds, hand, hclaims,
        hkept.imp fun hbehind => ⟨hbehind.facing, hbehind.current⟩⟩
  | hangUp ht _ =>
      refine ⟨content, h.look (by rw [ht]; rfl) rfl rfl rfl rfl h.buffer le_rfl rfl ?_⟩
      rintro point last ⟨⟩

end Tests

theorem decodesDecodable_of_sound
    {stream : Bytes}
    (type : CompressionType)
    (data : Nat → UInt8)
    (hstream : ¬ Undecodable host brotli stream) :
    DecodesDecodable host brotli type data stream Uncrossed := by
  intro s hs t n body last ht hended hok
  have hsound : ∃ content, Sound host brotli s content := by
    refine hs.invariant (I := fun s => ∃ content, Sound host brotli s content) ?_ ?_
    · exact ⟨[], sound_init type data hstream⟩
    · rintro s e s' ⟨content, hs⟩ hok hstep
      exact hs.step hok hstep
  obtain ⟨content, hsound⟩ := hsound
  simp only [Uncrossed, ht] at hok
  exact hsound.decodable hok

end Sound

/-! ### Something bad ahead -/

section Reached

variable {host : Endian} {brotli : Brotli} {type : CompressionType} {data : Nat → UInt8}
  {stream : Bytes}

/-- The body that a task has taken and not pushed. -/
def Point.held : Point → List (Nat × Bytes)
  | .clearLength body => [(0, body)]
  | .pushMessage body => [(0, body)]
  | _ => []

/-- The first task is at a point, with a length noted, bytes in the buffer and bytes to come;
the others only brought chunks. -/
structure Stands (s : Connection) (point : Point) (length : Nat) (content upcoming : Bytes) :
    Prop where
  task : s.tasks 0 = .parsing point false
  others : ∀ u, u ≠ 0 → s.tasks u = .absent ∨ s.tasks u = .parsing .head false
  fresh : ∃ k, ∀ u, k ≤ u → s.tasks u = .absent
  length : s.channel.readBufferLength = length
  buffer : s.channel.readBuffer.Holds content
  socket : s.socket = []
  wire : s.wire = upcoming
  reads : s.readOrder = []
  takes : s.takeOrder = point.held
  ended : s.ended = none

/-- Steps that do not cut in lead from a state to one that stands so. -/
def LeadsTo (M : System Connection ConnectionEvent) (s : Connection) (point : Point) (length : Nat)
    (content upcoming : Bytes) : Prop :=
  ∃ t, (M.Reachable Uncrossed s → M.Reachable Uncrossed t) ∧
    Stands t point length content upcoming

theorem Stands.here
    {M : System Connection ConnectionEvent}
    {s : Connection}
    {point : Point}
    {length : Nat}
    {content upcoming : Bytes}
    (h : Stands s point length content upcoming) :
    LeadsTo M s point length content upcoming :=
  ⟨s, id, h⟩

theorem LeadsTo.trans
    {M : System Connection ConnectionEvent}
    {s : Connection}
    {point point' : Point}
    {length length' : Nat}
    {content upcoming content' upcoming' : Bytes}
    (h : LeadsTo M s point length content upcoming)
    (hnext : ∀ t, Stands t point length content upcoming →
      LeadsTo M t point' length' content' upcoming') :
    LeadsTo M s point' length' content' upcoming' := by
  obtain ⟨t, hst, ht⟩ := h
  obtain ⟨u, htu, hu⟩ := hnext t ht
  exact ⟨u, htu ∘ hst, hu⟩

/-- The others are not in the way of the first task. -/
theorem Stands.uncrossed
    {s : Connection}
    {point : Point}
    {length : Nat}
    {content upcoming : Bytes}
    (h : Stands s point length content upcoming)
    (n : Nat) :
    Uncrossed s (.advance 0 n) := by
  have hothers : ∀ u, u ≠ 0 → (s.tasks u).at Point.between = false := by
    intro u hu
    rcases h.others u hu with hother | hother
    · rw [hother]
      rfl
    · rw [hother]
      rfl
  have htakes := h.takes
  simp only [Uncrossed, h.task]
  cases point with
  | pushMessage body =>
      show s.takeOrder.head? = some (0, body)
      rw [htakes]
      rfl
  | _ => exact fun _ => hothers

/-- What the first task holds after an operation. -/
theorem reorder_held
    {channel : SocketChannel}
    {point : Point}
    {p : Parsed}
    {s : Connection}
    (hp : parseStep host brotli true channel point = .ok p)
    (h : s.takeOrder = point.held) :
    (Connection.reorder 0 point p.point s).takeOrder = p.point.held := by
  cases parseStep_moves hp with
  | takeBody _ =>
      show s.takeOrder ++ _ = _
      rw [h]
      rfl
  | pushMessage _ =>
      show leave 0 s.takeOrder = _
      rw [h]
      rfl
  | _ => exact h

/-- The first task goes on. -/
theorem Stands.next
    {s : Connection}
    {p : Parsed}
    {point : Point}
    {length : Nat}
    {content upcoming content' : Bytes}
    (h : Stands s point length content upcoming)
    (hp : parseStep host brotli true s.channel point = .ok p)
    (hreturned : p.point ≠ .returned)
    (hbuffer : p.channel.readBuffer.Holds content') :
    LeadsTo (Connection.system host brotli type data stream) s p.point p.channel.readBufferLength
      content' upcoming := by
  let s₁ : Connection :=
    { s with
      channel := p.channel
      tasks := Function.update s.tasks 0 (Connection.proceed p.point false)
      pushed := s.pushed ++ p.pushed
      handed := s.handed ++ p.handed }
  have hstep : Connection.step host brotli s (.advance 0 0) =
      some (Connection.reorder 0 point p.point s₁) := by
    simp only [Connection.step, h.ended, ne_eq, not_true_eq_false, if_false, Connection.advance,
      h.task, hp, s₁]
  obtain ⟨hchannel, htasks, hsocket, -, hreads, hended, hwire, -⟩ :=
    Connection.reorder_rest 0 point p.point s₁
  refine ⟨_, fun hs => hs.step (h.uncrossed 0) hstep, ?_⟩
  constructor
  · rw [htasks]
    show Function.update s.tasks 0 (Connection.proceed p.point false) 0 = _
    rw [Function.update_self, Connection.proceed, if_neg hreturned]
  · intro u hu
    have hsame : s₁.tasks u = s.tasks u := Function.update_of_ne hu ..
    rw [htasks, hsame]
    exact h.others u hu
  · obtain ⟨k, hk⟩ := h.fresh
    refine ⟨k + 1, fun u hu => ?_⟩
    have hsame : s₁.tasks u = s.tasks u := Function.update_of_ne (by omega) ..
    rw [htasks, hsame]
    exact hk u (by omega)
  · rw [hchannel]
  · rw [hchannel]
    exact hbuffer
  · exact hsocket.trans h.socket
  · exact hwire.trans h.wire
  · exact hreads.trans h.reads
  · exact reorder_held hp h.takes
  · exact hended.trans h.ended

/-- The connection after a new task has read a chunk and enqueued it. -/
def Connection.chunked (s : Connection) (u n : Nat) (buffer : Buffer UInt8 BUFFER_SIZE) :
    Connection :=
  { s with
    channel := { s.channel with readBuffer := buffer }
    wire := s.wire.drop n
    ready := false
    tasks := Function.update s.tasks u (.parsing .head false) }

theorem chunked_reachable
    {s : Connection}
    {u n : Nat}
    {buffer : Buffer UInt8 BUFFER_SIZE}
    (hs : (Connection.system host brotli type data stream).Reachable Uncrossed s)
    (habsent : s.tasks u = .absent)
    (hended : s.ended = none)
    (hsocket : s.socket = [])
    (hreads : s.readOrder = [])
    (hpos : 0 < n)
    (hn : n ≤ s.wire.length)
    (hfits : n ≤ BUFFER_SIZE)
    (henqueue : s.channel.readBuffer.enqueue (s.wire.take n) = .ok buffer) :
    (Connection.system host brotli type data stream).Reachable Uncrossed
      (s.chunked u n buffer) := by
  have htake : (s.wire.take n).length = n := by
    rw [List.length_take]
    omega
  have hne : s.wire.take n ≠ [] := List.ne_nil_of_length_pos (by omega)
  let arrived : Connection :=
    { s with wire := s.wire.drop n, socket := s.wire.take n, ready := true }
  have harrive : Connection.step host brotli s (.arrive n) = some arrived := by
    simp [Connection.step, hended, hpos, hn, hsocket, arrived]
  let started : Connection :=
    { arrived with ready := false, tasks := Function.update s.tasks u .reading }
  have hdispatch : Connection.step host brotli arrived (.dispatch u) = some started := by
    simp [Connection.step, hended, habsent, arrived, started]
  let read : Connection :=
    { started with
      socket := []
      tasks := Function.update s.tasks u (.enqueuing (s.wire.take n))
      readOrder := [(u, s.wire.take n)] }
  have hread : Connection.step host brotli started (.advance u n) = some read := by
    have hcount : 0 < n ∧ n ≤ min BUFFER_SIZE (s.wire.take n).length := by
      rw [htake]
      omega
    have hall : (s.wire.take n).drop n = [] := List.drop_eq_nil_of_le htake.le
    have hsame : (s.wire.take n).take n = s.wire.take n := List.take_of_length_le htake.le
    have hmine : Function.update s.tasks u Task.reading u = .reading := Function.update_self ..
    simp only [Connection.step, Connection.advance, hended, hmine, started, arrived, read, hne,
      hcount, hall, hsame, hreads, Function.update_idem, if_true, if_false, ne_eq,
      not_true_eq_false, and_self, List.nil_append]
  have henq : Connection.step host brotli read (.advance u 0) = some (s.chunked u n buffer) := by
    have hmine : Function.update s.tasks u (Task.enqueuing (s.wire.take n)) u =
        .enqueuing (s.wire.take n) := Function.update_self ..
    simp only [Connection.step, Connection.advance, hended, hmine, started, arrived, read,
      henqueue, Connection.chunked, Function.update_idem, if_false, ne_eq, not_true_eq_false,
      leave_cons, hsocket, hreads]
  have hfirst : Uncrossed read (.advance u 0) := by
    have hmine : read.tasks u = .enqueuing (s.wire.take n) := Function.update_self ..
    simp only [Uncrossed, hmine]
    rfl
  have hreading : Uncrossed started (.advance u n) := by
    have hmine : started.tasks u = .reading := Function.update_self ..
    simp only [Uncrossed, hmine]
  have harrived : (Connection.system host brotli type data stream).Reachable Uncrossed arrived :=
    hs.step (e := .arrive n) trivial harrive
  have hstarted : (Connection.system host brotli type data stream).Reachable Uncrossed started :=
    harrived.step (e := .dispatch u) trivial hdispatch
  have hred : (Connection.system host brotli type data stream).Reachable Uncrossed read :=
    hstarted.step hreading hread
  exact hred.step hfirst henq

/-- A chunk comes while the call is in its loop, unless nothing is asked for. -/
theorem Stands.enqueue
    {s : Connection}
    {point : Point}
    {length n : Nat}
    {content upcoming : Bytes}
    (h : Stands s point length content upcoming)
    (hn : n ≤ upcoming.length)
    (hroom : content.length + n ≤ BUFFER_SIZE) :
    LeadsTo (Connection.system host brotli type data stream) s point length
      (content ++ upcoming.take n) (upcoming.drop n) := by
  obtain rfl | hpos := Nat.eq_zero_or_pos n
  · rw [List.take_zero, List.append_nil, List.drop_zero]
    exact h.here
  obtain ⟨k, hk⟩ := h.fresh
  have hne : k ≠ 0 := by
    rintro rfl
    have habsent := hk 0 le_rfl
    rw [h.task] at habsent
    cases habsent
  have htake : (upcoming.take n).length = n := by
    rw [List.length_take]
    omega
  have hfits : content.length + (upcoming.take n).length ≤ BUFFER_SIZE := by omega
  obtain ⟨buffer, henqueue, hbuffer⟩ := h.buffer.enqueue hfits
  have hwire := h.wire
  refine ⟨s.chunked k n buffer, fun hs => chunked_reachable hs (hk k le_rfl) h.ended h.socket
    h.reads hpos (hwire ▸ hn) (by omega) (hwire ▸ henqueue), ?_⟩
  constructor
  · show Function.update s.tasks k _ 0 = _
    rw [Function.update_of_ne (Ne.symm hne)]
    exact h.task
  · intro u hu
    by_cases huk : u = k
    · subst huk
      exact .inr (Function.update_self ..)
    · have hsame : (s.chunked k n buffer).tasks u = s.tasks u := Function.update_of_ne huk ..
      rw [hsame]
      exact h.others u hu
  · refine ⟨k + 1, fun u hu => ?_⟩
    have hsame : (s.chunked k n buffer).tasks u = s.tasks u := Function.update_of_ne (by omega) ..
    rw [hsame]
    exact hk u (by omega)
  · exact h.length
  · exact hbuffer
  · exact h.socket
  · show s.wire.drop n = _
    rw [hwire]
  · exact h.reads
  · exact h.takes
  · exact h.ended

theorem Stands.head
    {s : Connection}
    {content upcoming : Bytes}
    (h : Stands s .head 0 content upcoming) :
    LeadsTo (Connection.system host brotli type data stream) s .sizeHeader 0 content upcoming := by
  have hp : parseStep host brotli true s.channel .head =
      .ok ⟨s.channel, .sizeHeader, [], []⟩ :=
    (ParseMoves.noLength h.length).parseStep_eq
  have hnext : LeadsTo (Connection.system host brotli type data stream) s _ _ _ _ :=
    h.next hp (by rintro ⟨⟩) h.buffer
  rwa [h.length] at hnext

theorem Stands.sizeHeader
    {s : Connection}
    {content upcoming : Bytes}
    (h : Stands s .sizeHeader 0 content upcoming)
    (hmore : HEAD_LENGTH < content.length) :
    LeadsTo (Connection.system host brotli type data stream) s .takeHeader 0 content upcoming := by
  have hsize := h.buffer.size_eq
  have hp : parseStep host brotli true s.channel .sizeHeader =
      .ok ⟨s.channel, .takeHeader, [], []⟩ :=
    (ParseMoves.moreThanHeader (hsize ▸ hmore)).parseStep_eq
  have hnext : LeadsTo (Connection.system host brotli type data stream) s _ _ _ _ :=
    h.next hp (by rintro ⟨⟩) h.buffer
  rwa [h.length] at hnext

theorem Stands.takeHeader
    {s : Connection}
    {content upcoming : Bytes}
    (h : Stands s .takeHeader 0 content upcoming)
    (hthere : HEAD_LENGTH ≤ content.length) :
    LeadsTo (Connection.system host brotli type data stream) s
      (.storeLength (content.take HEAD_LENGTH)) 0 (content.drop HEAD_LENGTH) upcoming := by
  obtain ⟨buffer, hholds, hp⟩ := parseStep_takeHeader host brotli true h.buffer hthere
  have hnext : LeadsTo (Connection.system host brotli type data stream) s _ _ _ _ :=
    h.next hp (by rintro ⟨⟩) hholds
  rwa [h.length] at hnext

theorem Stands.storeLength
    {s : Connection}
    {length : Nat}
    {temp content upcoming : Bytes}
    (h : Stands s (.storeLength temp) 0 content upcoming)
    (hread : readLength host temp = .ok length) :
    LeadsTo (Connection.system host brotli type data stream) s .sizeBody length content
      upcoming := by
  have hp : parseStep host brotli true s.channel (.storeLength temp) =
      .ok ⟨{ s.channel with readBufferLength := length }, .sizeBody, [], []⟩ :=
    (ParseMoves.storeLength hread).parseStep_eq
  exact h.next hp (by rintro ⟨⟩) h.buffer

/-- The header is read when a byte more is there. -/
theorem Stands.note
    {s : Connection}
    {length : Nat}
    {content upcoming : Bytes}
    (h : Stands s .head 0 content upcoming)
    (hmore : HEAD_LENGTH < content.length)
    (hread : readLength host (content.take HEAD_LENGTH) = .ok length) :
    LeadsTo (Connection.system host brotli type data stream) s .sizeBody length
      (content.drop HEAD_LENGTH) upcoming := by
  refine h.head.trans fun t ht => ?_
  refine (ht.sizeHeader hmore).trans fun t ht => ?_
  refine (ht.takeHeader hmore.le).trans fun t ht => ?_
  exact ht.storeLength hread

/-- The body is taken when all of it is there. -/
theorem Stands.take
    {s : Connection}
    {length : Nat}
    {content upcoming : Bytes}
    (h : Stands s .sizeBody length content upcoming)
    (hcount : length ≤ content.length) :
    LeadsTo (Connection.system host brotli type data stream) s
      (.pushMessage (content.take length)) 0 (content.drop length) upcoming := by
  have hsize := h.buffer.size_eq
  have htest : parseStep host brotli true s.channel .sizeBody =
      .ok ⟨s.channel, .takeBody, [], []⟩ :=
    (ParseMoves.wholeBody (by rw [hsize, h.length]; exact hcount)).parseStep_eq
  have htested : LeadsTo (Connection.system host brotli type data stream) s _ _ _ _ :=
    h.next htest (by rintro ⟨⟩) h.buffer
  rw [h.length] at htested
  refine htested.trans fun t ht => ?_
  obtain ⟨buffer, hholds, htake⟩ :=
    parseStep_takeBody host brotli true ht.buffer (ht.length.trans_le hcount)
  rw [ht.length] at htake hholds
  have htaken : LeadsTo (Connection.system host brotli type data stream) t _ _ _ _ :=
    ht.next htake (by rintro ⟨⟩) hholds
  refine htaken.trans fun u hu => ?_
  have hclear : parseStep host brotli true u.channel (.clearLength (content.take length)) =
      .ok ⟨{ u.channel with readBufferLength := 0 }, .pushMessage (content.take length), [], []⟩ :=
    ParseMoves.clearLength.parseStep_eq
  exact hu.next hclear (by rintro ⟨⟩) hu.buffer

/-- What decodes is pushed, and the loop starts over. -/
theorem Stands.push
    {s : Connection}
    {content upcoming body message : Bytes}
    (h : Stands s (.pushMessage body) 0 content upcoming)
    (hdecode : decodeString brotli body = .ok message) :
    LeadsTo (Connection.system host brotli type data stream) s .head 0 content upcoming := by
  have hpush : parseStep host brotli true s.channel (.pushMessage body) =
      .ok ⟨{ s.channel with readMessages := s.channel.readMessages ++ [message] }, .head,
        [message], []⟩ :=
    (ParseMoves.pushMessage hdecode).parseStep_eq
  have hnext : LeadsTo (Connection.system host brotli type data stream) s _ _ _ _ :=
    h.next hpush (by rintro ⟨⟩) h.buffer
  exact h.length ▸ hnext

/-- A header, and one byte that makes `parse_message` read it. -/
def firstChunk : Nat := HEAD_LENGTH + 1

theorem Framed.first_chunk
    {head body rest : Bytes}
    (hframed : Framed host head body rest) :
    firstChunk ≤ (head ++ (body ++ rest)).length := by
  have hfour := hframed.four
  have hpos := List.length_pos_of_ne_nil hframed.more
  rw [List.length_append, firstChunk]
  omega

/-- With the first chunk in the buffer, a frame is brought to the point where its body is
decoded: what is missing of the body comes when its length is noted. -/
theorem Framed.decoded
    {head body rest : Bytes}
    (hframed : Framed host head body rest)
    {s : Connection}
    (h : Stands s .head 0 ((head ++ (body ++ rest)).take firstChunk)
      ((head ++ (body ++ rest)).drop firstChunk)) :
    LeadsTo (Connection.system host brotli type data stream) s (.pushMessage body) 0
      (rest.take (1 - body.length)) (rest.drop (1 - body.length)) := by
  obtain ⟨hfour, hasks, hfits, hmore⟩ := hframed
  have hpos := List.length_pos_of_ne_nil hmore
  rw [List.length_append] at hpos
  have hcut : (head ++ (body ++ rest)).take firstChunk = head ++ (body ++ rest).take 1 := by
    rw [firstChunk, ← hfour, List.take_length_add_append]
  have hleft : (head ++ (body ++ rest)).drop firstChunk = (body ++ rest).drop 1 := by
    rw [firstChunk, ← hfour, List.drop_length_add_append]
  rw [hcut, hleft] at h
  have hhead : (head ++ (body ++ rest).take 1).take HEAD_LENGTH = head := by
    rw [← hfour, List.take_left]
  have htail : (head ++ (body ++ rest).take 1).drop HEAD_LENGTH = (body ++ rest).take 1 := by
    rw [← hfour, List.drop_left]
  have hone : ((body ++ rest).take 1).length = 1 := by
    rw [List.length_take, List.length_append]
    omega
  refine (h.note ?_ (hhead ▸ hasks)).trans fun t ht => ?_
  · rw [List.length_append]
    omega
  rw [htail] at ht
  refine (ht.enqueue (n := body.length - 1) ?_ ?_).trans fun t ht => ?_
  · rw [List.length_drop, List.length_append]
    omega
  · rw [hone]
    have : 1 ≤ BUFFER_SIZE := by decide
    omega
  rw [← List.take_add, List.drop_drop] at ht
  have htaken : ((body ++ rest).take (1 + (body.length - 1))).take body.length = body := by
    rw [List.take_take, Nat.min_eq_left (by omega), List.take_left]
  have hover : ((body ++ rest).take (1 + (body.length - 1))).drop body.length =
      rest.take (1 - body.length) := by
    rw [List.drop_take, List.drop_left]
    congr 1
    omega
  have hcoming : (body ++ rest).drop (1 + (body.length - 1)) = rest.drop (1 - body.length) := by
    rw [show 1 + (body.length - 1) = body.length + (1 - body.length) by omega,
      List.drop_length_add_append]
  rw [hcoming] at ht
  have hwhole : body.length ≤ ((body ++ rest).take (1 + (body.length - 1))).length := by
    rw [List.length_take, List.length_append]
    omega
  have hall : LeadsTo (Connection.system host brotli type data stream) _ _ _ _ _ := ht.take hwhole
  rwa [htaken, hover] at hall

theorem Undecodable.first_chunk
    {bytes : Bytes}
    (hbad : Undecodable host brotli bytes) :
    firstChunk ≤ bytes.length := by
  cases hbad with
  | here hframed hbody => exact hframed.first_chunk
  | later hframed hdecode hrest => exact hframed.first_chunk

/-- **The first bad frame is decoded in some run.** -/
theorem Undecodable.reached
    {bytes : Bytes}
    (hbad : Undecodable host brotli bytes)
    {s : Connection}
    (h : Stands s .head 0 (bytes.take firstChunk) (bytes.drop firstChunk)) :
    ∃ body length content upcoming, ¬ Decodable body ∧
      LeadsTo (Connection.system host brotli type data stream) s (.pushMessage body) length content
        upcoming := by
  induction hbad generalizing s with
  | @here head body rest hframed hbody => exact ⟨body, _, _, _, hbody, hframed.decoded h⟩
  | @later head body rest message hframed hdecode hrest ih =>
      have hpos := List.length_pos_of_ne_nil (body_ne_nil hdecode)
      have hnext : LeadsTo (Connection.system host brotli type data stream) s .head 0
          (rest.take firstChunk) (rest.drop firstChunk) := by
        refine (hframed.decoded h).trans fun t ht => ?_
        rw [Nat.sub_eq_zero_of_le hpos, List.take_zero, List.drop_zero] at ht
        refine (ht.push hdecode).trans fun t ht => ?_
        exact ht.enqueue hrest.first_chunk (by decide)
      obtain ⟨t, hst, ht⟩ := hnext
      obtain ⟨bad, length, content, upcoming, hbad, u, htu, hu⟩ := ih ht
      exact ⟨bad, length, content, upcoming, hbad, u, htu ∘ hst, hu⟩

/-- From a new channel on. -/
theorem Undecodable.not_decodesDecodable
    (type : CompressionType)
    (data : Nat → UInt8)
    (hbad : Undecodable host brotli stream) :
    ¬ DecodesDecodable host brotli type data stream Uncrossed := by
  intro h
  have hfirst := hbad.first_chunk
  have htake : (stream.take firstChunk).length = firstChunk := by
    rw [List.length_take]
    omega
  have hempty : (SocketChannel.init type data).readBuffer.Holds [] :=
    Buffer.init_holds data (by decide)
  have hfits : ([] : Bytes).length + (stream.take firstChunk).length ≤ BUFFER_SIZE := by
    rw [htake]
    decide
  obtain ⟨buffer, henqueue, hbuffer⟩ := hempty.enqueue hfits
  have hchunked : (Connection.system host brotli type data stream).Reachable Uncrossed
      ((Connection.init type data stream).chunked 0 firstChunk buffer) :=
    chunked_reachable .init rfl rfl rfl rfl (by decide) hfirst (by decide) henqueue
  have hstands : Stands ((Connection.init type data stream).chunked 0 firstChunk buffer) .head 0
      (stream.take firstChunk) (stream.drop firstChunk) := by
    refine ⟨?_, ?_, ⟨1, ?_⟩, rfl, hbuffer, rfl, rfl, rfl, rfl, rfl⟩
    · rfl
    · exact fun u hu => .inl (Function.update_of_ne hu ..)
    · exact fun u hu => Function.update_of_ne (by omega) ..
  have hreached : ∃ body length content upcoming, ¬ Decodable body ∧
      LeadsTo (Connection.system host brotli type data stream) _ (.pushMessage body) length content
        upcoming :=
    hbad.reached hstands
  obtain ⟨body, length, content, upcoming, hbody, t, ht, hstands⟩ := hreached
  exact hbody (h t (ht hchunked) 0 0 body false hstands.task hstands.ended (hstands.uncrossed 0))

end Reached

/-- **What is decoded can be decoded**, in every run of any number of tasks that do not cut
into one another, exactly when no bad frame that fits in the buffer comes behind frames that
decode. -/
theorem decoded_decodable_iff
    (host : Endian)
    (brotli : Brotli)
    (type : CompressionType)
    (data : Nat → UInt8)
    (stream : Bytes) :
    DecodesDecodable host brotli type data stream Uncrossed ↔ ¬ Undecodable host brotli stream := by
  constructor
  · intro h hbad
    exact hbad.not_decodesDecodable type data h
  · exact decodesDecodable_of_sound type data

/-- Without the condition on the steps there are more runs. -/
theorem DecodesDecodable.of_any
    {host : Endian}
    {brotli : Brotli}
    {type : CompressionType}
    {data : Nat → UInt8}
    {stream : Bytes}
    (h : DecodesDecodable host brotli type data stream System.anyStep) :
    DecodesDecodable host brotli type data stream Uncrossed := by
  intro s hs t n body last ht hended hok
  have hany : (Connection.system host brotli type data stream).Reachable System.anyStep s :=
    hs.imp (I := fun _ => True) trivial (fun _ _ _ _ _ _ => trivial) fun _ _ _ _ _ _ => trivial
  exact h s hany t n body last ht hended trivial

/-- A header that asks for nothing, and one byte. -/
theorem zero_header_undecodable
    (host : Endian)
    (brotli : Brotli) :
    Undecodable host brotli [0, 0, 0, 0, 7] := by
  have hframed : Framed host [0, 0, 0, 0] [] [7] := by
    refine ⟨rfl, ?_, by decide, by decide⟩
    cases host <;> rfl
  refine .here hframed ?_
  rintro ⟨tag, message, h, -⟩
  cases h

/-- The peer sends a header of four zeros and a byte: an empty body is decoded. -/
theorem zero_header_not_decodable :
    ¬ DecodesDecodable .little .identity .none (fun _ => 0) [0, 0, 0, 0, 7] System.anyStep :=
  fun h => (zero_header_undecodable .little .identity).not_decodesDecodable _ _ h.of_any

/-! ### Two tasks that cut in -/

/-- Behind a frame that is not bad, what is bad is in the rest. -/
theorem Undecodable.behind
    {host : Endian}
    {brotli : Brotli}
    {head body rest : Bytes}
    (h : Undecodable host brotli (head ++ (body ++ rest)))
    (hfour : head.length = HEAD_LENGTH)
    (hread : readLength host head = .ok body.length)
    (hbody : Decodable body) :
    Undecodable host brotli rest := by
  have hsame : ∀ {head' body' rest' : Bytes}, Framed host head' body' rest' →
      head' ++ (body' ++ rest') = head ++ (body ++ rest) → body' = body ∧ rest' = rest := by
    intro head' body' rest' hframed hbytes
    obtain ⟨hhead, hbehind⟩ := List.append_inj hbytes (hframed.four.trans hfour.symm)
    have hlength := hframed.asks
    rw [hhead, hread] at hlength
    exact List.append_inj hbehind (Except.ok.inj hlength).symm
  generalize hbytes : head ++ (body ++ rest) = bytes at h
  cases h with
  | here hframed hbad =>
      obtain ⟨rfl, -⟩ := hsame hframed hbytes.symm
      exact absurd hbody hbad
  | later hframed hdecode hrest =>
      obtain ⟨-, rfl⟩ := hsame hframed hbytes.symm
      exact hrest

/-- A frame of three bytes and one of seven. -/
def twoFrames : Bytes :=
  [3, 0, 0, 0] ++ ([0, 104, 105] ++ ([7, 0, 0, 0] ++ ([0, 112, 97, 114, 116, 101, 100] ++ [])))

def crossedTasks : System Connection ConnectionEvent :=
  Connection.system .little .identity .none (fun _ => 0) twoFrames

/-- Both tasks have found the first body when one takes it, and the other takes as much. -/
def cutIn : List ConnectionEvent :=
  [.arrive 9, .dispatch 0, .arrive 9, .dispatch 1, .advance 0 18] ++
    List.replicate 6 (.advance 0 0) ++ List.replicate 3 (.advance 1 0) ++
    [.advance 0 0, .advance 1 0, .advance 1 0]

def cut : Connection := (crossedTasks.run cutIn).getD crossedTasks.init

theorem cut_reachable : crossedTasks.Reachable System.anyStep cut :=
  System.run_reachable (show crossedTasks.run cutIn = some cut from rfl)

theorem twoFrames_not_undecodable : ¬ Undecodable .little .identity twoFrames := by
  intro h
  have hsecond := h.behind rfl rfl ⟨0, [104, 105], rfl, by decide⟩
  have hnone := hsecond.behind rfl rfl ⟨0, [112, 97, 114, 116, 101, 100], rfl, by decide⟩
  exact absurd hnone.first_chunk (by decide)

/-- Frames that can all be decoded, and a task that decodes the header of the second. -/
theorem crossed_not_decodable :
    ¬ Undecodable .little .identity twoFrames ∧
      ¬ DecodesDecodable .little .identity .none (fun _ => 0) twoFrames System.anyStep := by
  refine ⟨twoFrames_not_undecodable, fun h => ?_⟩
  have hpoint : cut.tasks 1 = .parsing (.pushMessage [7, 0, 0]) true := rfl
  obtain ⟨tag, message, hbody, htag⟩ := h cut cut_reachable 1 0 _ _ hpoint rfl trivial
  cases hbody
  exact htag (by decide)

end Core
end ZeroRPC
