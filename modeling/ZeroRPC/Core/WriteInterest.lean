import ZeroRPC.Core.ServerSend

/-!
# Interest in EPOLLOUT

A thread that pushed a frame arms `EPOLLOUT` before it takes `_send_lock`; the holder of
the lock disarms it after it has seen an empty queue.  Between that test and the disarm
another thread may push and arm: the arm is undone, and if that thread's own `send` then
meets `EAGAIN` nothing is left that asks for the descriptor to become writable.

Main facts:
* `Armed.step`: every step keeps the interest armed while frames are queued or a thread is
  about to arm it, unless it disarms it over a queue with nobody about to;
* `interest_armed`: so no frame waits without interest in runs without such a disarm;
* `interest_not_armed`: two writers and a full socket lose it.
-/

namespace ZeroRPC
namespace Core

open Library

variable {host : Endian} {brotli : Brotli} {type : CompressionType} {data : Nat → UInt8}

/-- With no thread in the send path and the connection open, frames wait only while
`EPOLLOUT` is armed. -/
def InterestArmed (s : ServerChannel) : Prop :=
  (∀ t, s.threads t = .idle) → s.closed = false → s.channel.sendMessages ≠ [] →
    s.epollout = true

/-- `EPOLLOUT` is disarmed over an empty queue, or a thread that pushed has still to arm
it. -/
def DisarmsInTime (s : ServerChannel) : SendEvent → Prop
  | .advance t _ =>
      s.threads t = .disarming →
        s.channel.sendMessages = [] ∨ ∃ u, s.threads u = .arming
  | _ => True

/-- Frames are queued only with `EPOLLOUT` armed or about to be. -/
def Armed (s : ServerChannel) : Prop :=
  s.channel.sendMessages = [] ∨ s.epollout = true ∨ ∃ u, s.threads u = .arming

namespace Armed

variable {s s' : ServerChannel} {t : Nat}

theorem interestArmed
    (h : Armed s) :
    InterestArmed s := by
  intro hidle _ hqueue
  rcases h with hempty | harmed | ⟨u, hu⟩
  · exact absurd hempty hqueue
  · exact harmed
  · rw [hidle u] at hu
    cases hu

/-- A thread that was not about to arm goes on to a point. -/
theorem move
    {point : SendPoint}
    {lock : Option Nat}
    {closed : Bool}
    (h : Armed s)
    (ht : s.threads t ≠ .arming) :
    Armed { s with
      threads := Function.update s.threads t point
      lock := lock
      closed := closed } := by
  rcases h with hempty | harmed | ⟨u, hu⟩
  · exact .inl hempty
  · exact .inr (.inl harmed)
  · have hut : u ≠ t := by
      rintro rfl
      exact ht hu
    exact .inr (.inr ⟨u, (Function.update_of_ne hut ..).trans hu⟩)

/-- Frames leave the queue. -/
theorem account
    {kernel message : Bytes}
    {n : Nat}
    (h : Armed s) :
    Armed { s with
      kernel := kernel
      channel := ServerChannel.account s.channel message n } := by
  rcases h with hempty | hrest
  · left
    simp only [ServerChannel.account]
    split
    · rw [hempty]
      rfl
    · exact hempty
  · exact .inr hrest

theorem advance
    {result : SendResult}
    (h : Armed s)
    (hok : DisarmsInTime s (.advance t result))
    (hstep : s.advance t result = some s') :
    Armed s' := by
  cases ServerChannel.advance_moves hstep with
  | arm _ => exact .inr (.inl rfl)
  | lock ht _ => exact h.move (by simp [ht])
  | testEmpty ht _ => exact h.move (by simp [ht])
  | testFound ht _ => exact h.move (by simp [ht])
  | fetch ht _ => exact h.move (by simp [ht])
  | sent ht _ _ => exact h.account.move (by simp [ht])
  | again ht => exact h.move (by simp [ht])
  | failed ht => exact h.move (by simp [ht])
  | disarm ht =>
      rcases hok ht with hempty | ⟨u, hu⟩
      · exact .inl hempty
      · have hut : u ≠ t := by
          rintro rfl
          rw [ht] at hu
          cases hu
        exact .inr (.inr ⟨u, (Function.update_of_ne hut ..).trans hu⟩)

/-- **Every step keeps the interest, unless it disarms it too late.** -/
theorem step
    {e : SendEvent}
    (h : Armed s)
    (hok : DisarmsInTime s e)
    (hstep : ServerChannel.step host brotli s e = some s') :
    Armed s' := by
  simp only [ServerChannel.step, Option.ite_none_left_eq_some] at hstep
  obtain ⟨-, hstep⟩ := hstep
  cases e with
  | writeData t data =>
      simp only [Option.ite_none_right_eq_some] at hstep
      obtain ⟨ht, hstep⟩ := hstep
      cases hwrite : s.channel.writeData host brotli data with
      | error e =>
          rw [hwrite] at hstep
          cases hstep
      | ok pushed =>
          rw [hwrite] at hstep
          cases hstep
          exact .inr (.inr ⟨t, Function.update_self ..⟩)
  | trySend t =>
      simp only [Option.ite_none_right_eq_some, Option.some.injEq] at hstep
      obtain ⟨ht, rfl⟩ := hstep
      exact h.move (by simp [ht])
  | advance t result => exact h.advance hok hstep
  | close =>
      cases hstep
      exact h

end Armed

/-- **Write interest is armed while frames wait.** -/
theorem interest_armed
    (host : Endian)
    (brotli : Brotli)
    (type : CompressionType)
    (data : Nat → UInt8)
    (s : ServerChannel)
    (h : (ServerChannel.system host brotli type data).Reachable DisarmsInTime s) :
    InterestArmed s := by
  have harmed : Armed s :=
    h.invariant (I := Armed) (.inl rfl) fun _ _ _ hs hok hstep => hs.step hok hstep
  exact harmed.interestArmed

/-! ### Runs -/

/-- A writer whose `send` meets `EAGAIN` at once. -/
def suspension (t : Nat) : List SendEvent :=
  [.advance t .again, .advance t .again, .advance t .again, .advance t .again,
    .advance t .again]

def suspended : ServerChannel :=
  (plainServer.run (.writeData 0 [104, 105] :: suspension 0)).getD plainServer.init

theorem suspended_armed :
    suspended.channel.sendMessages ≠ [] ∧ InterestArmed suspended := by
  refine ⟨by decide, ?_⟩
  have hok : plainServer.Every DisarmsInTime plainServer.init
      (.writeData 0 [104, 105] :: suspension 0) :=
    ⟨trivial, nofun, nofun, nofun, nofun, nofun, trivial⟩
  exact interest_armed .little .identity .none (fun _ => 0) suspended (hok.reachable .init rfl)

/-- The first writer has found the queue empty when the second one pushes and arms. -/
def crossedWriters : List SendEvent :=
  [.writeData 0 [104, 105], .advance 0 .again, .advance 0 .again, .advance 0 .again,
    .advance 0 .again, .advance 0 (.sent 7), .advance 0 .again, .writeData 1 [106],
    .advance 1 .again, .advance 0 .again] ++ (suspension 1).tail

theorem interest_not_armed :
    ¬ ∀ (host : Endian) (brotli : Brotli) (type : CompressionType) (data : Nat → UInt8)
      (s : ServerChannel),
      (ServerChannel.system host brotli type data).Reachable System.anyStep s →
        InterestArmed s := by
  intro h
  let lost := (plainServer.run crossedWriters).getD plainServer.init
  have hlost : plainServer.Reachable System.anyStep lost :=
    System.run_reachable (show plainServer.run crossedWriters = some lost from rfl)
  have hidle : ∀ t, lost.threads t = .idle := by
    intro t
    rcases t with _ | _ | t <;> rfl
  have harmed : lost.epollout = true :=
    h .little .identity .none (fun _ => 0) lost hlost hidle rfl (by decide)
  exact absurd harmed (by decide)

end Core
end ZeroRPC
