import ZeroRPC.Core.Uplink

/-!
# One task at a time

When a report becomes a task only after every earlier task of the descriptor has returned,
nothing comes between a test of `parse_message` and what is done because of it.  Whatever
chunks the stream comes in, and wherever they fall, the tasks then do not cut into one
another.

Main facts:
* `Alone.orderly`: with one task under way at most, its next step does not cut in;
* `Alone.step`: so it stays, and what was tested stays true until it is used;
* `one_at_a_time_in_order`: the callback is handed what the client sent, in order and once
  each, in every run in which one task is under way at a time.
-/

namespace ZeroRPC
namespace Core

open Library

/-- What the tests on the way to a point have established. -/
def Point.Ready (channel : SocketChannel) : Point → Prop
  | .sizeHeader => channel.readBufferLength = 0
  | .takeHeader => channel.readBufferLength = 0
  | .sizeBody => channel.readBufferLength ≠ 0
  | .takeBody => channel.readBufferLength ≠ 0
  | .pop => channel.readMessages ≠ []
  | _ => True

/-- One task is under way at most, and what it has tested still holds. -/
structure Alone (s : Connection) : Prop where
  one : ∀ {t u}, (s.tasks t).underWay = true → (s.tasks u).underWay = true → t = u
  ready : ∀ {t point last}, s.tasks t = .parsing point last → point.Ready s.channel

/-- A task starts when no other is under way. -/
def Sequential (s : Connection) : ConnectionEvent → Prop
  | .dispatch _ => ∀ u, (s.tasks u).underWay = false
  | _ => True

theorem alone_init (type : CompressionType) (data : Nat → UInt8) (stream : Bytes) :
    Alone (Connection.init type data stream) where
  one := by
    intro t u ht
    cases ht
  ready := by
    intro t point last ht
    cases ht

section Alone

variable {s : Connection} {t : Nat}

theorem Alone.others
    (h : Alone s)
    (ht : (s.tasks t).underWay = true)
    (u : Nat)
    (hu : u ≠ t) :
    (s.tasks u).underWay = false := by
  cases hway : (s.tasks u).underWay with
  | false => rfl
  | true => exact absurd (h.one hway ht) hu

theorem chunk?_none {task : Task} (h : task.underWay = false) : task.chunk? = none := by
  cases task with
  | enqueuing chunk => cases h
  | _ => rfl

theorem body?_none {task : Task} (h : task.underWay = false) : task.body? = none := by
  cases task with
  | parsing point last => cases h
  | _ => rfl

theorem message?_none {task : Task} (h : task.underWay = false) : task.message? = none := by
  cases task with
  | parsing point last => cases h
  | _ => rfl

theorem claims_none {task : Task} (h : task.underWay = false) : task.claims = false := by
  cases task with
  | parsing point last => cases h
  | _ => rfl

/-- A task that claims nothing is alone: nobody does. -/
theorem Alone.noClaims
    (h : Alone s)
    (ht : (s.tasks t).underWay = true)
    (hclaims : (s.tasks t).claims = false)
    (u : Nat) :
    (s.tasks u).claims = false := by
  by_cases hut : u = t
  · rw [hut]
    exact hclaims
  · exact claims_none (h.others ht u hut)

/-- **A task that is alone does not cut in.** -/
theorem Alone.orderly
    (h : Alone s)
    (hattended : Attended s)
    (e : ConnectionEvent) :
    Orderly s e := by
  cases e with
  | advance t n =>
      rw [Orderly]
      cases ht : s.tasks t with
      | enqueuing chunk =>
          have hway : (s.tasks t).underWay = true := by rw [ht]; rfl
          have horder := hattended.reads.eq_singleton (t := t) (x := chunk) (by rw [ht]; rfl)
            fun u hu => chunk?_none (h.others hway u hu)
          show s.readOrder.head? = some (t, chunk)
          rw [horder]
          rfl
      | parsing point last =>
          have hway : (s.tasks t).underWay = true := by rw [ht]; rfl
          have hready := h.ready ht
          cases point with
          | takeHeader => exact ⟨hready, h.noClaims hway (by rw [ht]; rfl)⟩
          | takeBody => exact ⟨hready, h.noClaims hway (by rw [ht]; rfl)⟩
          | pushMessage body =>
              have horder := hattended.takes.eq_singleton (t := t) (x := body)
                (by rw [ht]; rfl) fun u hu => body?_none (h.others hway u hu)
              show s.takeOrder.head? = some (t, body)
              rw [horder]
              rfl
          | pop => exact hready
          | handOver message =>
              have horder := hattended.pops.eq_singleton (t := t) (x := message)
                (by rw [ht]; rfl) fun u hu => message?_none (h.others hway u hu)
              show s.popOrder.head? = some (t, message)
              rw [horder]
              rfl
          | _ => trivial
      | _ => trivial
  | _ => trivial

end Alone

/-! ### The steps -/

section Steps

variable {host : Endian} {brotli : Brotli} {s s' : Connection} {t : Nat}

/-- What is tested holds when it is used, if a length that is read is not 0. -/
theorem Point.Ready.parse
    {channel : SocketChannel}
    {point : Point}
    {p : Parsed}
    (h : point.Ready channel)
    (hlength : ∀ temp n, point = .storeLength temp → readLength host temp = .ok n → n ≠ 0)
    (hp : parseStep host brotli true channel point = .ok p) :
    p.point.Ready p.channel := by
  cases parseStep_moves hp with
  | noLength hzero => exact hzero
  | noted hne => exact hne
  | moreThanHeader _ => exact h
  | storeLength hread => exact hlength _ _ rfl hread
  | wholeBody _ => exact h
  | testFound hne => exact hne
  | _ => trivial

/-- The task that is under way goes on. -/
theorem Alone.one_update
    {task : Task}
    (h : Alone s)
    (ht : (s.tasks t).underWay = true)
    {u v : Nat}
    (hu : (Function.update s.tasks t task u).underWay = true)
    (hv : (Function.update s.tasks t task v).underWay = true) :
    u = v := by
  have hbefore : ∀ w, (Function.update s.tasks t task w).underWay = true →
      (s.tasks w).underWay = true := by
    intro w hw
    by_cases hwt : w = t
    · rwa [hwt]
    · rwa [Function.update_of_ne hwt] at hw
  exact h.one (hbefore u hu) (hbefore v hv)

/-- Where the task that is under way parses next, the rest of the state may be anything. -/
theorem Alone.go
    {task : Task}
    (h : Alone s)
    (ht : (s.tasks t).underWay = true)
    (hready : ∀ point last, task = .parsing point last → point.Ready s'.channel)
    (htasks : s'.tasks = Function.update s.tasks t task) :
    Alone s' where
  one := by
    intro u v hu hv
    rw [htasks] at hu hv
    exact h.one_update ht hu hv
  ready := by
    intro u point last hu
    rw [htasks] at hu
    by_cases hut : u = t
    · subst hut
      rw [Function.update_self] at hu
      exact hready point last hu
    · rw [Function.update_of_ne hut] at hu
      have hother := h.others ht u hut
      rw [hu] at hother
      cases hother

/-- **One task stays alone, if no other is started meanwhile.** -/
theorem Alone.step
    {e : ConnectionEvent}
    (h : Alone s)
    (hlength : ∀ t temp last n, s.tasks t = .parsing (.storeLength temp) last →
      readLength host temp = .ok n → n ≠ 0)
    (hok : Sequential s e)
    (hstep : Connection.step host brotli s e = some s') :
    Alone s' := by
  obtain ⟨-, hmoves⟩ := Connection.step_moves hstep
  cases hmoves with
  | arrive => exact ⟨h.one, h.ready⟩
  | modify => exact ⟨h.one, h.ready⟩
  | @dispatch t ht =>
      have hone : ∀ u, (Function.update s.tasks t .reading u).underWay = true → u = t := by
        intro u hu
        by_contra hut
        rw [Function.update_of_ne hut, hok u] at hu
        cases hu
      constructor
      · exact fun hu hv => (hone _ hu).trans (hone _ hv).symm
      · intro u point last hu
        have hway : (Function.update s.tasks t .reading u).underWay = true := by
          rw [show Function.update s.tasks t .reading u = .parsing point last from hu]
          rfl
        obtain rfl := hone u hway
        simp at hu
  | readNone ht hempty =>
      refine h.go (by rw [ht]; rfl) ?_ rfl
      rintro point last ⟨⟩
      trivial
  | read ht =>
      refine h.go (by rw [ht]; rfl) ?_ rfl
      rintro point last ⟨⟩
  | enqueue ht _ =>
      refine h.go (by rw [ht]; rfl) ?_ rfl
      rintro point last ⟨⟩
      trivial
  | @parse t n point last p ht hp =>
      obtain ⟨hchannel, htasks, -⟩ := Connection.reorder_rest t point p.point
        { s with
          channel := p.channel
          tasks := Function.update s.tasks t (Connection.proceed p.point last)
          pushed := s.pushed ++ p.pushed
          handed := s.handed ++ p.handed }
      refine h.go (by rw [ht]; rfl) ?_ htasks
      intro next last' hnext
      rw [hchannel]
      have hready := (h.ready ht).parse
        (fun temp n htemp => hlength t temp last n (htemp ▸ ht)) hp
      rw [Connection.proceed] at hnext
      split at hnext
      · cases last <;> cases hnext
      · cases hnext
        exact hready
  | throws => exact ⟨h.one, h.ready⟩
  | hangUp ht _ =>
      refine h.go (by rw [ht]; rfl) ?_ rfl
      rintro point last ⟨⟩

end Steps

/-- A length that is read from the header of a message is not 0. -/
theorem Reading.readLength_ne_zero
    {sender receiver : Endian}
    {brotli : Brotli}
    {messages : List (Sent brotli)}
    {s : Connection}
    {content : Bytes}
    (h : Reading sender messages s content)
    {t n : Nat}
    {temp : Bytes}
    {last : Bool}
    (ht : s.tasks t = .parsing (.storeLength temp) last)
    (hread : readLength receiver temp = .ok n) :
    n ≠ 0 := by
  obtain ⟨hand, hclaims, hline⟩ := h.line
  obtain ⟨rfl, -⟩ := hclaims.of_storeLength ht
  obtain ⟨length, hlength, hne, -⟩ := hline.store fun m _ => m.readLength_header sender receiver
  rw [hread] at hlength
  rw [Except.ok.inj hlength]
  exact hne

/-! ### The link -/

instance AcceptsWhole.decidable (s : ClientChannel) :
    ∀ e, Decidable (AcceptsWhole s e)
  | .sendMessage _ _ => isTrue trivial
  | .disconnect => isTrue trivial
  | .advance t result =>
      match h : s.threads t with
      | .sending message =>
          decidable_of_iff (result = .sent message.length) (by rw [AcceptsWhole, h])
      | .idle => isTrue (by rw [AcceptsWhole, h]; trivial)
      | .locking => isTrue (by rw [AcceptsWhole, h]; trivial)
      | .checking => isTrue (by rw [AcceptsWhole, h]; trivial)
      | .testing => isTrue (by rw [AcceptsWhole, h]; trivial)
      | .popping => isTrue (by rw [AcceptsWhole, h]; trivial)

namespace Uplink

/-- What is written fits the receive buffer, each `::send` accepts a whole frame, and the
server has one task at a time. -/
def OneAtATime (brotli : Brotli) (s : Uplink) : UplinkEvent → Prop
  | .client e =>
      AcceptsWhole s.client e ∧
        ∀ data ∈ e.payload, EncodedFits brotli s.client.channel.compressionType data
  | .server e => Sequential s.server e

variable {sender receiver : Endian} {brotli : Brotli} {messages : List (Sent brotli)}
  {s t : Uplink} {e : UplinkEvent}

theorem OneAtATime.undisturbed
    (hok : OneAtATime brotli s e)
    (hconnected : Connected sender messages s)
    (halone : Alone s.server) :
    Undisturbed brotli s e := by
  cases e with
  | client e => exact hok
  | server e => exact halone.orderly hconnected.attended e

theorem OneAtATime.alone
    (hok : OneAtATime brotli s e)
    (hconnected : Connected sender messages s)
    (halone : Alone s.server)
    (hstep : step sender receiver brotli s e = some t) :
    Alone t.server := by
  cases e with
  | client e =>
      simp only [step] at hstep
      cases hclient : ClientChannel.step sender brotli s.client e with
      | none =>
          rw [hclient] at hstep
          cases hstep
      | some client =>
          rw [hclient] at hstep
          cases hstep
          exact ⟨halone.one, halone.ready⟩
  | server e =>
      simp only [step, Option.ite_none_right_eq_some] at hstep
      obtain ⟨-, hstep⟩ := hstep
      cases hserver : Connection.step receiver brotli s.server e with
      | none =>
          rw [hserver] at hstep
          cases hstep
      | some server =>
          rw [hserver] at hstep
          cases hstep
          obtain ⟨content, hreading⟩ := hconnected.reading
          refine halone.step ?_ hok hserver
          intro t temp last n ht hread
          exact hreading.readLength_ne_zero (s := s.server.ahead s.client.left) ht hread

theorem reachable_alone
    (hlossless : brotli.Lossless)
    {type : CompressionType}
    {data data' : Nat → UInt8}
    (h : (system sender receiver brotli type data data').Reachable (OneAtATime brotli) s) :
    Alone s.server ∧ ∃ messages : List (Sent brotli), Connected sender messages s := by
  refine h.invariant (I := fun s => Alone s.server ∧
    ∃ messages : List (Sent brotli), Connected sender messages s) ?_ ?_
  · exact ⟨alone_init type data' [], [], connected_init type data data'⟩
  · rintro s e t ⟨halone, messages, hconnected⟩ hok hstep
    have hundisturbed := hok.undisturbed hconnected halone
    obtain ⟨sent, hafter⟩ := hconnected.step hlossless hundisturbed hstep
    exact ⟨hok.alone hconnected halone hstep, _, hafter⟩

/-- **With one task at a time** no test is out of date when it is used, and nothing is lost,
repeated or out of order, however the stream is cut into chunks. -/
theorem one_at_a_time_in_order
    (sender receiver : Endian)
    (brotli : Brotli)
    (hlossless : brotli.Lossless)
    (type : CompressionType)
    (data data' : Nat → UInt8)
    (s : Uplink)
    (h : (system sender receiver brotli type data data').Reachable (OneAtATime brotli) s) :
    (∀ e, OneAtATime brotli s e → Undisturbed brotli s e) ∧
      s.server.handed <+: s.written ∧ (s.Quiet → s.server.handed = s.written) := by
  obtain ⟨halone, messages, hconnected⟩ := reachable_alone hlossless h
  exact ⟨fun e hok => hok.undisturbed hconnected halone, hconnected.handed_prefix,
    hconnected.handed_eq⟩

/-! ### A run -/

/-- Only one task is ever started. -/
def OneTask (brotli : Brotli) (s : Uplink) : UplinkEvent → Prop
  | .client e =>
      AcceptsWhole s.client e ∧
        ∀ data ∈ e.payload, EncodedFits brotli s.client.channel.compressionType data
  | .server (.dispatch t) => t = 0
  | .server _ => True

instance OneTask.decidable (brotli : Brotli) (s : Uplink) :
    ∀ e, Decidable (OneTask brotli s e)
  | .client e => inferInstanceAs (Decidable (AcceptsWhole s.client e ∧
      ∀ data ∈ e.payload, EncodedFits brotli s.client.channel.compressionType data))
  | .server (.dispatch t) => inferInstanceAs (Decidable (t = 0))
  | .server (.arrive _) => isTrue trivial
  | .server .modify => isTrue trivial
  | .server (.advance _ _) => isTrue trivial
  | .server (.hangUp _) => isTrue trivial

/-- The other tasks are not there. -/
def Single (s : Connection) : Prop := ∀ u, u ≠ 0 → s.tasks u = .absent

theorem Single.update
    {server server' : Connection}
    {n : Nat}
    {task : Task}
    (h : Single server)
    (hn : n = 0)
    (htasks : server'.tasks = Function.update server.tasks n task) :
    Single server' := by
  intro u hu
  rw [htasks, Function.update_of_ne (hn ▸ hu)]
  exact h u hu

theorem Single.eq_zero
    {server : Connection}
    {n : Nat}
    (h : Single server)
    (hn : server.tasks n ≠ .absent) :
    n = 0 := by
  by_contra hne
  exact hn (h n hne)

theorem Single.step
    {host : Endian}
    {server server' : Connection}
    {e : ConnectionEvent}
    (h : Single server)
    (hok : ∀ n, e = .dispatch n → n = 0)
    (hstep : Connection.step host brotli server e = some server') :
    Single server' := by
  obtain ⟨-, hmoves⟩ := Connection.step_moves hstep
  cases hmoves with
  | dispatch _ => exact h.update (hok _ rfl) rfl
  | readNone ht _ => exact h.update (h.eq_zero (by simp [ht])) rfl
  | read ht => exact h.update (h.eq_zero (by simp [ht])) rfl
  | enqueue ht _ => exact h.update (h.eq_zero (by simp [ht])) rfl
  | @parse n _ point last p ht _ =>
      have htasks := (Connection.reorder_rest n point p.point
        { server with
          channel := p.channel
          tasks := Function.update server.tasks n (Connection.proceed p.point last)
          pushed := server.pushed ++ p.pushed
          handed := server.handed ++ p.handed }).2.1
      exact h.update (h.eq_zero (n := n) (by simp [ht])) htasks
  | hangUp ht _ => exact h.update (h.eq_zero (by simp [ht])) rfl
  | _ => exact h

theorem OneTask.dispatch
    {e : ConnectionEvent}
    (hok : OneTask brotli s (.server e)) :
    ∀ n, e = .dispatch n → n = 0 := by
  rintro n rfl
  exact hok

theorem OneTask.oneAtATime
    (hok : OneTask brotli s e)
    (hsingle : Single s.server)
    (hstep : step sender receiver brotli s e = some t) :
    OneAtATime brotli s e ∧ Single t.server := by
  cases e with
  | client e =>
      refine ⟨hok, ?_⟩
      simp only [step] at hstep
      cases hclient : ClientChannel.step sender brotli s.client e with
      | none =>
          rw [hclient] at hstep
          cases hstep
      | some client =>
          rw [hclient] at hstep
          cases hstep
          exact hsingle
  | server e =>
      simp only [step, Option.ite_none_right_eq_some] at hstep
      obtain ⟨-, hstep⟩ := hstep
      cases hserver : Connection.step receiver brotli s.server e with
      | none =>
          rw [hserver] at hstep
          cases hstep
      | some server =>
          rw [hserver] at hstep
          cases hstep
          refine ⟨?_, hsingle.step hok.dispatch hserver⟩
          obtain ⟨-, hmoves⟩ := Connection.step_moves hserver
          cases hmoves with
          | @dispatch n ht =>
              obtain rfl : n = 0 := hok
              intro u
              cases u with
              | zero => rw [ht]; rfl
              | succ u => rw [hsingle _ u.succ_ne_zero]; rfl
          | _ => trivial

theorem received_one_at_a_time :
    received.server.handed = [[104, 105]] ∧ received.server.handed = received.written := by
  have hok : plainUplink.Every (OneTask Brotli.identity) plainUplink.init
      (sends ++ receives) := by decide
  have htask : plainUplink.Reachable (OneTask Brotli.identity) received :=
    hok.reachable .init (show plainUplink.run (sends ++ receives) = some received from rfl)
  have hreachable : plainUplink.Reachable (OneAtATime Brotli.identity) received := by
    refine htask.imp (I := fun s => Single s.server) (fun _ _ => rfl) ?_ ?_
    · exact fun s e t hsingle hok hstep => (hok.oneAtATime hsingle hstep).2
    · exact fun s e t hsingle hok hstep => (hok.oneAtATime hsingle hstep).1
  exact ⟨rfl, (one_at_a_time_in_order .little .big .identity Brotli.identity_lossless .none
    (fun _ => 0) (fun _ => 0) received hreachable).2.2 received_quiet⟩

end Uplink

end Core
end ZeroRPC
