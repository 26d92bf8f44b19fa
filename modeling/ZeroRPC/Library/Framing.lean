import Mathlib.Tactic

/-!
# Cutting a stream into frames

A frame is a header that tells the length of the body behind it, and the body.  A
receiver takes headers and bodies off the front of a stream and keeps the length of
the body it waits for; between taking something and noting it, the stream and the
length do not agree, which `Hand` records.

Main facts:
* `Cut`: the stream behind a receiver is the framing of what is still to come;
* `Cut.takeHeader`, `Cut.store`, `Cut.takeBody`, `Cut.clear`: the four steps keep it;
* `Line`, `Line.push`: bodies taken, and not yet turned into messages, are accounted for;
* `Line.extend`: frames may be sent while others are received;
* `Line.pushed_eq`: nothing is taken and less is there than a frame when all were pushed.
-/

namespace ZeroRPC
namespace Library

universe u

/-- The frames of a list of bodies, one after another. -/
def framing {β : Type u} (header : List β → List β) (bodies : List (List β)) : List β :=
  (bodies.map fun body => header body ++ body).flatten

/-- What a receiver has taken off the stream and not noted yet. -/
inductive Hand (β : Type u)
  | empty
  | header (bytes : List β)
  | body

variable {β : Type u} {header : List β → List β}

@[simp]
theorem framing_cons (body : List β) (bodies : List (List β)) :
    framing header (body :: bodies) = header body ++ (body ++ framing header bodies) := by
  simp [framing]

theorem framing_concat (bodies : List (List β)) (body : List β) :
    framing header (bodies ++ [body]) = framing header bodies ++ (header body ++ body) := by
  simp [framing]

/-- With `length` as the length noted, the stream is the framing of the bodies to come,
less the header that was taken for it. -/
inductive Cut (header : List β → List β) :
    Hand β → Nat → List β → List (List β) → Prop
  | whole {bodies : List (List β)} : Cut header .empty 0 (framing header bodies) bodies
  | noted {body : List β} {bodies : List (List β)} (hbody : body ≠ []) :
      Cut header .empty body.length (body ++ framing header bodies) (body :: bodies)
  | header {body : List β} {bodies : List (List β)} (hbody : body ≠ []) :
      Cut header (.header (header body)) 0 (body ++ framing header bodies) (body :: bodies)
  | body {length : Nat} {bodies : List (List β)} (hlength : length ≠ 0) :
      Cut header .body length (framing header bodies) bodies

namespace Cut

variable {k length : Nat} {buffer rest : List β} {bodies : List (List β)}

/-- With as many bytes there as a header has, a header can be taken. -/
theorem takeHeader
    (hk : 0 < k)
    (hheader : ∀ body ∈ bodies, (header body).length = k)
    (hbodies : ∀ body ∈ bodies, body ≠ [])
    (hbuffer : k ≤ buffer.length)
    (h : Cut header .empty 0 (buffer ++ rest) bodies) :
    Cut header (.header (buffer.take k)) 0 (buffer.drop k ++ rest) bodies := by
  generalize hstream : buffer ++ rest = stream at h
  generalize hnone : 0 = length at h
  cases h with
  | noted hbody => exact absurd (List.length_eq_zero_iff.mp hnone.symm) hbody
  | whole =>
      cases bodies with
      | nil =>
          have hnil : buffer = [] := (List.append_eq_nil_iff.mp hstream).1
          subst hnil
          exact absurd hbuffer (Nat.not_le_of_lt hk)
      | cons body bodies =>
          have hlen := hheader body (List.mem_cons_self ..)
          rw [framing_cons] at hstream
          have htake : buffer.take k = header body := by
            have := congrArg (List.take k) hstream
            rwa [List.take_append_of_le_length hbuffer, ← hlen, List.take_left, hlen] at this
          have hdrop : buffer.drop k ++ rest = body ++ framing header bodies := by
            have := congrArg (List.drop k) hstream
            rwa [List.drop_append_of_le_length hbuffer, ← hlen, List.drop_left, hlen] at this
          rw [htake, hdrop]
          exact .header (hbodies body (List.mem_cons_self ..))

/-- The length read from a header is that of the body behind it. -/
theorem store
    {ε : Type u}
    {read : List β → Except ε Nat}
    {bytes : List β}
    (hread : ∀ body ∈ bodies, read (header body) = .ok body.length)
    (h : Cut header (.header bytes) length rest bodies) :
    ∃ n, read bytes = .ok n ∧ n ≠ 0 ∧ Cut header .empty n rest bodies := by
  cases h with
  | header hbody =>
      refine ⟨_, hread _ (List.mem_cons_self ..), ?_, .noted hbody⟩
      intro hzero
      exact hbody (List.length_eq_zero_iff.mp hzero)

/-- With the whole body there, it can be taken. -/
theorem takeBody
    (hlength : length ≠ 0)
    (hbuffer : length ≤ buffer.length)
    (h : Cut header .empty length (buffer ++ rest) bodies) :
    ∃ bodies', bodies = buffer.take length :: bodies' ∧
      Cut header .body length (buffer.drop length ++ rest) bodies' := by
  generalize hstream : buffer ++ rest = stream at h
  cases h with
  | whole => exact absurd rfl hlength
  | @noted body bodies hbody =>
      have htake : buffer.take body.length = body := by
        have := congrArg (List.take body.length) hstream
        rwa [List.take_append_of_le_length hbuffer, List.take_left] at this
      have hdrop : buffer.drop body.length ++ rest = framing header bodies := by
        have := congrArg (List.drop body.length) hstream
        rwa [List.drop_append_of_le_length hbuffer, List.drop_left] at this
      rw [htake, hdrop]
      exact ⟨bodies, rfl, .body hlength⟩

theorem clear
    (h : Cut header .body length rest bodies) :
    Cut header .empty 0 rest bodies := by
  cases h
  exact .whole

/-- One more frame is sent. -/
theorem extend
    {hand : Hand β}
    (h : Cut header hand length rest bodies)
    (body : List β) :
    Cut header hand length (rest ++ (header body ++ body)) (bodies ++ [body]) := by
  cases h with
  | whole =>
      rw [← framing_concat]
      exact .whole
  | noted hbody =>
      rw [List.append_assoc, ← framing_concat]
      exact .noted hbody
  | header hbody =>
      rw [List.append_assoc, ← framing_concat]
      exact .header hbody
  | body hlength =>
      rw [← framing_concat]
      exact .body hlength

/-- With nothing in hand and less there than a frame, no frame is to come. -/
theorem nil_of_short
    {k : Nat}
    (hheader : ∀ body ∈ bodies, (header body).length = k)
    (hbodies : ∀ body ∈ bodies, body ≠ [])
    (hshort : rest.length ≤ k)
    (h : Cut header .empty 0 rest bodies) :
    bodies = [] := by
  generalize hnone : 0 = length at h
  cases h with
  | noted hbody => exact absurd (List.length_eq_zero_iff.mp hnone.symm) hbody
  | whole =>
      cases bodies with
      | nil => rfl
      | cons body bodies =>
          have hlen := hheader body (List.mem_cons_self ..)
          have hpos := List.length_pos_of_ne_nil (hbodies body (List.mem_cons_self ..))
          rw [framing_cons, List.length_append, List.length_append] at hshort
          omega

end Cut

section Line

variable {φ μ : Type u} {encoded : φ → List β} {message : φ → μ} {frames : List φ}

/-- The frames of a stream are those pushed, those whose bodies were taken, and those
still to come. -/
structure Line (header : List β → List β) (encoded : φ → List β) (message : φ → μ)
    (frames : List φ) (hand : Hand β) (length : Nat) (stream : List β)
    (taken : List (List β)) (pushed : List μ) : Prop where
  split : ∃ done atWork todo, frames = done ++ atWork ++ todo ∧
    pushed = done.map message ∧ taken = atWork.map encoded ∧
    Cut header hand length stream (todo.map encoded)

namespace Line

variable {hand : Hand β} {k length : Nat} {stream buffer rest : List β}
  {taken : List (List β)} {pushed : List μ}

theorem init :
    Line header encoded message frames .empty 0 (framing header (frames.map encoded)) [] [] :=
  ⟨⟨[], [], frames, by simp, rfl, rfl, .whole⟩⟩

/-- What was pushed is a prefix of what was sent. -/
theorem pushed_prefix
    (h : Line header encoded message frames hand length stream taken pushed) :
    pushed <+: frames.map message := by
  obtain ⟨done, atWork, todo, rfl, rfl, _⟩ := h.split
  rw [List.append_assoc, List.map_append]
  exact List.prefix_append _ _

theorem takeHeader
    (hk : 0 < k)
    (hheader : ∀ f ∈ frames, (header (encoded f)).length = k)
    (hframes : ∀ f ∈ frames, encoded f ≠ [])
    (hbuffer : k ≤ buffer.length)
    (h : Line header encoded message frames .empty 0 (buffer ++ rest) taken pushed) :
    Line header encoded message frames (.header (buffer.take k)) 0 (buffer.drop k ++ rest)
      taken pushed := by
  obtain ⟨done, atWork, todo, rfl, hpushed, htaken, hcut⟩ := h.split
  have hmem : ∀ body ∈ todo.map encoded, ∃ f ∈ done ++ atWork ++ todo, encoded f = body := by
    intro body hbody
    obtain ⟨f, hf, rfl⟩ := List.mem_map.mp hbody
    exact ⟨f, List.mem_append_right _ hf, rfl⟩
  refine ⟨done, atWork, todo, rfl, hpushed, htaken, hcut.takeHeader hk ?_ ?_ hbuffer⟩
  · intro body hbody
    obtain ⟨f, hf, rfl⟩ := hmem body hbody
    exact hheader f hf
  · intro body hbody
    obtain ⟨f, hf, rfl⟩ := hmem body hbody
    exact hframes f hf

theorem store
    {ε : Type u}
    {read : List β → Except ε Nat}
    {bytes : List β}
    (hread : ∀ f ∈ frames, read (header (encoded f)) = .ok (encoded f).length)
    (h : Line header encoded message frames (.header bytes) length stream taken pushed) :
    ∃ n, read bytes = .ok n ∧ n ≠ 0 ∧
      Line header encoded message frames .empty n stream taken pushed := by
  obtain ⟨done, atWork, todo, rfl, hpushed, htaken, hcut⟩ := h.split
  have hbodies : ∀ body ∈ todo.map encoded, read (header body) = .ok body.length := by
    intro body hbody
    obtain ⟨f, hf, rfl⟩ := List.mem_map.mp hbody
    exact hread f (List.mem_append_right _ hf)
  obtain ⟨n, hn, hne, hcut⟩ := hcut.store hbodies
  exact ⟨n, hn, hne, ⟨done, atWork, todo, rfl, hpushed, htaken, hcut⟩⟩

theorem takeBody
    (hlength : length ≠ 0)
    (hbuffer : length ≤ buffer.length)
    (h : Line header encoded message frames .empty length (buffer ++ rest) taken pushed) :
    Line header encoded message frames .body length (buffer.drop length ++ rest)
      (taken ++ [buffer.take length]) pushed := by
  obtain ⟨done, atWork, todo, hframes, hpushed, htaken, hcut⟩ := h.split
  obtain ⟨bodies', hbodies, hcut⟩ := hcut.takeBody hlength hbuffer
  obtain ⟨f, todo', rfl, hf, rfl⟩ := List.map_eq_cons_iff.mp hbodies
  refine ⟨done, atWork ++ [f], todo', ?_, hpushed, ?_, hcut⟩
  · rw [hframes]
    simp
  · rw [htaken, ← hf]
    simp

theorem clear
    (h : Line header encoded message frames .body length stream taken pushed) :
    Line header encoded message frames .empty 0 stream taken pushed := by
  obtain ⟨done, atWork, todo, hframes, hpushed, htaken, hcut⟩ := h.split
  exact ⟨done, atWork, todo, hframes, hpushed, htaken, hcut.clear⟩

/-- One more frame is sent. -/
theorem extend
    (h : Line header encoded message frames hand length stream taken pushed)
    (f : φ) :
    Line header encoded message (frames ++ [f]) hand length
      (stream ++ (header (encoded f) ++ encoded f)) taken pushed := by
  obtain ⟨done, atWork, todo, hframes, hpushed, htaken, hcut⟩ := h.split
  refine ⟨done, atWork, todo ++ [f], ?_, hpushed, htaken, ?_⟩
  · rw [hframes, List.append_assoc]
  · rw [List.map_append, List.map_singleton]
    exact hcut.extend (encoded f)

/-- With nothing taken and less there than a frame, every frame was pushed. -/
theorem pushed_eq
    (hheader : ∀ f ∈ frames, (header (encoded f)).length = k)
    (hframes : ∀ f ∈ frames, encoded f ≠ [])
    (hshort : stream.length ≤ k)
    (h : Line header encoded message frames .empty 0 stream [] pushed) :
    pushed = frames.map message := by
  obtain ⟨done, atWork, todo, rfl, rfl, htaken, hcut⟩ := h.split
  obtain rfl : atWork = [] := List.map_eq_nil_iff.mp htaken.symm
  have htodo : todo.map encoded = [] := by
    refine hcut.nil_of_short (k := k) ?_ ?_ hshort
    · intro body hbody
      obtain ⟨f, hf, rfl⟩ := List.mem_map.mp hbody
      exact hheader f (List.mem_append_right _ hf)
    · intro body hbody
      obtain ⟨f, hf, rfl⟩ := List.mem_map.mp hbody
      exact hframes f (List.mem_append_right _ hf)
  obtain rfl : todo = [] := List.map_eq_nil_iff.mp htodo
  simp

/-- The body taken first is turned into the next message. -/
theorem push
    {ε : Type u}
    {decode : List β → Except ε μ}
    {body : List β}
    (hdecode : ∀ f ∈ frames, decode (encoded f) = .ok (message f))
    (h : Line header encoded message frames hand length stream (body :: taken) pushed) :
    ∃ m, decode body = .ok m ∧
      Line header encoded message frames hand length stream taken (pushed ++ [m]) := by
  obtain ⟨done, atWork, todo, hframes, hpushed, htaken, hcut⟩ := h.split
  obtain ⟨f, atWork', rfl, rfl, rfl⟩ := List.map_eq_cons_iff.mp htaken.symm
  refine ⟨message f, hdecode f (by simp [hframes]), ⟨done ++ [f], atWork', todo, ?_, ?_, rfl, hcut⟩⟩
  · rw [hframes]
    simp
  · rw [hpushed]
    simp

end Line

end Line

end Library
end ZeroRPC
