import ZeroRPC.Serial.Scan
import ZeroRPC.Rpc.Call

/-!
# Requests from arbitrary bytes

The server callback loads whatever a frame contained and reads a request from it.
`load` reserves storage for the bytes and copies them there, so that a read that
goes on past them meets storage that was never written, or none.

Main facts:
* `load_isOk_iff`: the bytes fit the storage reserved for them below `2 ^ 31`, and
  above that the reservation loops or the copy overruns;
* `decodes_in_bounds_iff`: a request is read within the bytes delivered exactly when
  they have the layout of one, as far as the reader gets.
-/

namespace ZeroRPC
namespace Rpc

open Library Serial

/-! ### Reservations that do not fit -/

/-- A small need does not take a large capacity. -/
theorem growCap_lt
    {need : Nat}
    (hneed : need < 2 ^ 31) :
    ∀ (fuel cap : Nat) {c : Nat}, cap < 2 ^ 32 →
      CharVector.growCap need fuel cap = some c → c < 2 ^ 32
  | 0, _, _, _, h => by cases h
  | fuel + 1, cap, c, hcap, h => by
      rw [CharVector.growCap] at h
      by_cases hlt : cap < need
      · rw [if_pos hlt] at h
        refine growCap_lt hneed fuel _ ?_ h
        by_cases hz : cap = 0
        · rw [if_pos hz]
          norm_num
        · rw [if_neg hz]
          omega
      · rw [if_neg hlt] at h
        cases h
        exact hcap

/-- **`load` of a fresh stream works below `2 ^ 31` bytes only.** -/
theorem load_isOk_iff
    (host : Endian)
    (d : List UInt8) :
    (∃ s, (DataStream.empty host).load d = .ok s) ↔ d.length < 2 ^ 31 := by
  constructor
  · rintro ⟨s, hs⟩
    by_contra hlong
    have hlong : 2 ^ 31 ≤ d.length := not_lt.mp hlong
    set len := BitVec.ofNat 32 d.length with hlen
    have hneed : needed (DataStream.empty host).buf.size len = (len.signExtend 64).toNat := by
      rw [needed, show (DataStream.empty host).buf.size = 0 from rfl, Nat.zero_add]
      exact Nat.mod_eq_of_lt (len.signExtend 64).isLt
    have hcap : (DataStream.empty host).buf.capacity = 0 := rfl
    by_cases hmsb : len.msb = true
    · -- a negative length becomes a huge one
      have hbig : 2 ^ 63 < (len.signExtend 64).toNat := by
        rw [BitVec.toNat_signExtend, hmsb]
        simp only [if_true, BitVec.toNat_setWidth]
        omega
      have hreserve : (DataStream.empty host).buf.reserve len = .error .hang := by
        unfold CharVector.reserve
        simp only [hneed, hcap]
        rw [if_pos (by omega), CharVector.growCap_none hbig 130 (.inl rfl)]
      rw [DataStream.load, ← hlen, hreserve, error_bind] at hs
      cases hs
    · -- a length that wrapped reserves too little for the copy
      have hmsb : len.msb = false := by simpa using hmsb
      have hsmall : (len.signExtend 64).toNat < 2 ^ 31 := by
        rw [BitVec.signExtend_eq_setWidth_of_msb_false hmsb, BitVec.toNat_setWidth]
        rw [BitVec.msb_eq_decide, decide_eq_false_iff_not] at hmsb
        omega
      have hwrap : 2 ^ 32 ≤ d.length := by
        rw [hlen, BitVec.msb_eq_decide, BitVec.toNat_ofNat, decide_eq_false_iff_not] at hmsb
        omega
      cases hreserve : (DataStream.empty host).buf.reserve len with
      | error e =>
          rw [DataStream.load, ← hlen, hreserve, error_bind] at hs
          cases hs
      | ok b =>
          have hroom : b.capacity < 2 ^ 32 := by
            unfold CharVector.reserve at hreserve
            simp only [hneed, hcap] at hreserve
            by_cases hlt : 0 < (len.signExtend 64).toNat
            · rw [if_pos hlt] at hreserve
              cases hgrow : CharVector.growCap (len.signExtend 64).toNat 130 0 with
              | none =>
                  rw [hgrow] at hreserve
                  cases hreserve
              | some c =>
                  rw [hgrow] at hreserve
                  cases hreserve
                  have hc := growCap_lt hsmall 130 0 (by norm_num) hgrow
                  simpa [CharVector.capacity, CharVector.grow, DataStream.empty,
                    CharVector.size] using hc
            · rw [if_neg hlt] at hreserve
              cases hreserve
              rw [hcap]
              norm_num
          rw [DataStream.load, ← hlen, hreserve, ok_bind, if_pos (by omega)] at hs
          cases hs
  · intro hshort
    obtain ⟨s, _, hs, _⟩ := load_fresh host hshort
    exact ⟨s, hs⟩

/-! ### Reading a request -/

/-- Loading the bytes and reading a request from them ends, every byte that was or
could be inspected lies below the number of bytes delivered, and no unset length is
branched on. -/
def DecodesInBounds (P : Program) (d : List UInt8) : Prop :=
  ∃ s, (DataStream.empty P.host).load d = .ok s ∧
    (∀ i c, s.buf.cell i = .ok c → 0 ≤ i ∧ i < d.length) ∧
    ∃ r, rpcRequest.read P s (RPCRequest.init P.host).members = .ok r

/-- Only bytes that were loaded can be inspected. -/
theorem cell_in_bounds
    {b : CharVector}
    {d : List UInt8}
    {k : Nat}
    (hstorage : b.storage = d.map some ++ List.replicate k none)
    {i : Int}
    {c : UInt8}
    (hc : b.cell i = .ok c) :
    0 ≤ i ∧ i < d.length := by
  unfold CharVector.cell at hc
  by_cases hneg : i < 0
  · rw [if_pos hneg] at hc
    cases hc
  · refine ⟨not_lt.mp hneg, ?_⟩
    by_contra hge
    rw [if_neg hneg, hstorage, List.getElem?_append_right (by simp; omega)] at hc
    cases hget : (List.replicate k (none : Option UInt8))[i.toNat - (d.map some).length]? with
    | none =>
        rw [hget] at hc
        cases hc
    | some x =>
        have hx : x = none := List.eq_of_mem_replicate (List.mem_of_getElem? hget)
        rw [hget, hx] at hc
        cases hc

/-- The stream into which bytes were loaded has them left. -/
theorem load_rest
    (host : Endian)
    {d : List UInt8}
    (hsize : d.length < 2 ^ 31) :
    ∃ s, (DataStream.empty host).load d = .ok s ∧ Rest host s d ∧
      ∀ i c, s.buf.cell i = .ok c → 0 ≤ i ∧ i < d.length := by
  obtain ⟨s, k, hs, hflag, hpos, hstorage⟩ := load_fresh host hsize
  refine ⟨s, hs, ⟨hflag, by rw [hpos], k, ?_⟩, fun i c hc => cell_in_bounds hstorage hc⟩
  rw [hpos, hstorage]
  rfl

theorem scans_of_decodesInBounds
    {P : Program}
    {d : List UInt8}
    (h : DecodesInBounds P d) :
    d.length < 2 ^ 31 ∧ ∃ ok rest, rpcRequest.Scans d ok rest := by
  obtain ⟨s, hs, _, r, hr⟩ := h
  have hsize := (load_isOk_iff P.host d).mp ⟨s, hs⟩
  obtain ⟨t, ht, hrest, _⟩ := load_rest P.host hsize
  rw [hs] at ht
  cases ht
  obtain ⟨rest, hscan, _⟩ := (Ty.read_scans P rpcRequest _).sound hrest hr
  exact ⟨hsize, r.ok, rest, hscan⟩

/-- **When arbitrary bytes are decoded within bounds.**  Exactly when they are fewer
than `2 ^ 31` and every tag, number and announced byte the reader gets to is there,
with an INT32 in front of each length. -/
theorem decodes_in_bounds_iff
    (P : Program)
    (d : List UInt8) :
    DecodesInBounds P d ↔ d.length < 2 ^ 31 ∧ ∃ ok rest, rpcRequest.Scans d ok rest := by
  constructor
  · exact scans_of_decodesInBounds
  · rintro ⟨hsize, ok, rest, hscan⟩
    obtain ⟨s, hs, hrest, hbounds⟩ := load_rest P.host hsize
    obtain ⟨r, hr, _, _⟩ := (Ty.read_scans P rpcRequest _).complete hrest hscan
    exact ⟨s, hs, hbounds, r, hr⟩

/-- A method name whose length has the tag of a BOOL: `read(std::string&)` ignores that
the length was not read and tests it. -/
theorem untagged_length_not_in_bounds :
    ¬ DecodesInBounds (Program.plain .little) [11, 6, 0] := by
  intro h
  obtain ⟨_, ok, rest, hscan⟩ := scans_of_decodesInBounds h
  have hname : ∀ {ok rest}, ¬ Ty.string.Scans [6, 0] ok rest := by
    intro ok rest hstring
    cases hstring with
    | other h => exact h rfl
    | tagged h =>
        cases h with
        | negative hlen _ => nomatch hlen
        | text hlen _ _ => nomatch hlen
  cases hscan with
  | other h => exact h rfl
  | members h =>
      cases h with
      | fails h => exact hname h
      | next h _ => exact hname h

/-- What a client sends is decoded within bounds. -/
theorem request_decodes_in_bounds
    (P : Program)
    {r : RPCRequest}
    (hsize : r.bytes.length < 2 ^ 31) :
    DecodesInBounds P r.bytes := by
  obtain ⟨s, hs, hrest, hbounds⟩ := load_rest P.host hsize
  have hflag : (s.isBigEndian != P.host.isBig) = false := by simp [hrest.flag]
  exact ⟨s, hs, hbounds, _,
    Ty.read_encoded P rpcRequest _ r.members hsize s hflag hrest.ahead⟩

end Rpc
end ZeroRPC
