import ZeroRPC.Core.Readers
import ZeroRPC.Core.WriteInterest

/-!
# What a sub-reactor does with an event

`sub_reactor_run` commits `read_data` for an event with `EPOLLIN` and does nothing else
with an event.  A `try_send` that stopped on `EAGAIN` waits for `EPOLLOUT`, which nothing
looks at.  The steps of a handling are those of the tasks it commits; the `write_data`
calls a message gives rise to are not among them.

Main facts:
* `readStep_keeps`: no step of `read_data` touches what is to be sent;
* `not_resumed`: whatever event comes after a suspension, its handling hands nothing over.
-/

namespace ZeroRPC
namespace Core

open Library

/-- The bits of `event.events` that were asked for. -/
structure EpollEvents where
  epollin : Bool
  epollout : Bool

/-- The task that the loop in `sub_reactor_run` commits for an event, if any. -/
def subReactorEvent (events : EpollEvents) : Task :=
  if events.epollin then .reading else .absent

/-- What `read` returns: a chunk, `-1` with `EAGAIN` or `EWOULDBLOCK`, or the end. -/
inductive ReadResult
  | chunk (bytes : Bytes)
  | again
  | closed

/-- The next step of a `read_data` task on a server's channel; `result` is what `read`
returns if that is the step. -/
def readStep (host : Endian) (brotli : Brotli) (s : ServerChannel) (task : Task)
    (result : ReadResult) : Option (ServerChannel × Task) :=
  match task with
  | .absent => none
  | .finished => none
  | .reading =>
      match result with
      | .chunk bytes =>
          if 0 < bytes.length ∧ bytes.length ≤ BUFFER_SIZE then
            some (s, .enqueuing bytes)
          else
            none
      | .again => some (s, .parsing .head true)
      | .closed => some ({ s with closed := true }, .finished)
  | .enqueuing bytes =>
      match s.channel.readBuffer.enqueue bytes with
      | .error _ => none
      | .ok buffer =>
          some ({ s with channel := { s.channel with readBuffer := buffer } },
            .parsing .head false)
  | .parsing point last =>
      match parseStep host brotli true s.channel point with
      | .error _ => none
      | .ok p => some ({ s with channel := p.channel }, Connection.proceed p.point last)

/-- The handling of an event for a channel. -/
def handling (host : Endian) (brotli : Brotli) (s : ServerChannel) (events : EpollEvents) :
    System (ServerChannel × Task) ReadResult where
  init := (s, subReactorEvent events)
  step := fun handled => readStep host brotli handled.1 handled.2

/-- A `try_send` has just stopped on `EAGAIN`. -/
inductive Suspended (host : Endian) (brotli : Brotli) (type : CompressionType)
    (data : Nat → UInt8) : ServerChannel → Prop
  | again {s t : ServerChannel} {u : Nat} {message : Bytes}
      (h : (ServerChannel.system host brotli type data).Reachable System.anyStep s)
      (hu : s.threads u = .sending message)
      (hstep : ServerChannel.step host brotli s (.advance u .again) = some t) :
      Suspended host brotli type data t

/-- At some point of the handling the kernel has all that was left. -/
def Resumes (host : Endian) (brotli : Brotli) (s : ServerChannel) (events : EpollEvents) : Prop :=
  ∃ handled, (handling host brotli s events).Reachable System.anyStep handled ∧
    handled.1.kernel = s.kernel ++ unsent s.channel

variable {host : Endian} {brotli : Brotli}

/-- No operation of `parse_message` touches the send queue. -/
theorem parseStep_keeps
    {onReadMessage : Bool}
    {channel : SocketChannel}
    {point : Point}
    {p : Parsed}
    (h : parseStep host brotli onReadMessage channel point = .ok p) :
    p.channel.sendMessages = channel.sendMessages ∧
      p.channel.sendOffset = channel.sendOffset := by
  cases parseStep_moves h <;> exact ⟨rfl, rfl⟩

/-- No step of `read_data` touches what is to be sent, or hands anything over. -/
theorem readStep_keeps
    {s : ServerChannel}
    {task : Task}
    {result : ReadResult}
    {handled : ServerChannel × Task}
    (h : readStep host brotli s task result = some handled) :
    handled.1.kernel = s.kernel ∧ unsent handled.1.channel = unsent s.channel := by
  cases task with
  | absent => cases h
  | finished => cases h
  | reading =>
      cases result with
      | chunk bytes =>
          simp only [readStep, Option.ite_none_right_eq_some, Option.some.injEq] at h
          obtain ⟨-, rfl⟩ := h
          exact ⟨rfl, rfl⟩
      | again =>
          cases h
          exact ⟨rfl, rfl⟩
      | closed =>
          cases h
          exact ⟨rfl, rfl⟩
  | enqueuing bytes =>
      simp only [readStep] at h
      split at h
      · cases h
      · cases h
        exact ⟨rfl, rfl⟩
  | parsing point last =>
      simp only [readStep] at h
      split at h
      case h_1 => cases h
      case h_2 p hp =>
        cases h
        obtain ⟨hmessages, hoffset⟩ := parseStep_keeps hp
        refine ⟨rfl, ?_⟩
        simp only [unsent, hmessages, hoffset]

/-- A suspended send has bytes left. -/
theorem Suspended.unsent_ne_nil
    {type : CompressionType}
    {data : Nat → UInt8}
    {s : ServerChannel}
    (h : Suspended host brotli type data s) :
    unsent s.channel ≠ [] := by
  cases h with
  | @again before _ u message hreachable hu hstep =>
      have hsending : Sending before :=
        hreachable.invariant (sending_init type data) fun _ _ _ hs _ hstep => hs.step hstep
      obtain ⟨messages, hq⟩ := List.head?_eq_some_iff.mp (hsending.sending u message hu)
      have hoffset := hsending.intact.2
      simp only [OffsetFits, hq] at hoffset
      have hchannel : s.channel = before.channel := by
        simp only [ServerChannel.step, Option.ite_none_left_eq_some, ServerChannel.advance, hu,
          Option.some.injEq] at hstep
        rw [← hstep.2]
        rfl
      rw [hchannel]
      simp only [unsent, hq]
      intro hnil
      have hdrop := congrArg List.length (List.append_eq_nil_iff.mp hnil).1
      rw [List.length_drop, List.length_nil] at hdrop
      omega

/-- **No event resumes a suspended send.** -/
theorem not_resumed
    (host : Endian)
    (brotli : Brotli)
    (type : CompressionType)
    (data : Nat → UInt8)
    (s : ServerChannel)
    (h : Suspended host brotli type data s)
    (events : EpollEvents) :
    ¬ Resumes host brotli s events := by
  rintro ⟨handled, hreachable, hkernel⟩
  have hkeeps : handled.1.kernel = s.kernel ∧ unsent handled.1.channel = unsent s.channel := by
    refine hreachable.invariant
      (I := fun handled => handled.1.kernel = s.kernel ∧
        unsent handled.1.channel = unsent s.channel) ⟨rfl, rfl⟩ ?_
    rintro before result after ⟨hbefore, hleft⟩ - hstep
    obtain ⟨hafter, hsame⟩ := readStep_keeps hstep
    exact ⟨hafter.trans hbefore, hsame.trans hleft⟩
  rw [hkeeps.1] at hkernel
  exact h.unsent_ne_nil (List.append_right_eq_self.mp hkernel.symm)

/-! ### An event -/

theorem suspended_suspended :
    Suspended .little .identity .none (fun _ => 0) suspended := by
  let before := (plainServer.run (.writeData 0 [104, 105] :: List.replicate 4
    (.advance 0 .again))).getD plainServer.init
  have hbefore : plainServer.Reachable System.anyStep before :=
    System.run_reachable (show plainServer.run (.writeData 0 [104, 105] :: List.replicate 4
      (.advance 0 .again)) = some before from rfl)
  have hsending : before.threads 0 = .sending [3, 0, 0, 0, 0, 104, 105] := rfl
  exact .again hbefore hsending rfl

theorem suspended_not_resumed :
    ¬ Resumes .little .identity suspended ⟨false, true⟩ :=
  not_resumed .little .identity .none (fun _ => 0) suspended suspended_suspended ⟨false, true⟩

theorem suspended_send_forgotten :
    ¬ ∀ (host : Endian) (brotli : Brotli) (type : CompressionType) (data : Nat → UInt8)
      (s : ServerChannel), Suspended host brotli type data s →
        ∀ events : EpollEvents, events.epollout = true → Resumes host brotli s events := by
  intro h
  obtain ⟨handled, hreachable, hkernel⟩ := h .little .identity .none (fun _ => 0) suspended
    suspended_suspended ⟨false, true⟩ rfl
  -- no task was committed, so there is nothing to reach
  have hidle : handled = (suspended, .absent) := by
    refine hreachable.invariant (I := fun handled => handled = (suspended, .absent)) rfl ?_
    rintro before result after rfl - hstep
    cases hstep
  rw [hidle] at hkernel
  exact absurd hkernel (by decide)

end Core
end ZeroRPC
