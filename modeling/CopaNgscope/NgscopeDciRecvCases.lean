import CopaNgscope.NgscopeDciRecv

/-! What one call of `recv_buffer` can do, by the bytes it finds: one case per preamble
and per way a record can end. -/
namespace CopaNgscope
open ByteMemory

/-- Bytes the two directions of a version 0 record take. -/
def dirLen (ulDl : UInt8) : ℕ :=
  (if ulDl &&& 0x01 ≠ 0 then 5 else 0)+(if ulDl &&& 0x02 ≠ 0 then 5 else 0)

theorem bytesAre_eq_true_iff {m : ByteMem} {b : UInt8} {k n : ℕ} :
    bytesAre m b k n = some true ↔ Holds m k (List.replicate n b) := by
  induction n generalizing k with
  | zero => simp [bytesAre]
  | succ n ih =>
    rw [List.replicate_succ, holds_cons, bytesAre, ← ih]
    cases hk : m k with
    | none => simp
    | some x => by_cases hx : x = b <;> simp [hx]

/-- A preamble test without an answer ran out of memory after matching bytes only. -/
theorem bytesAre_eq_none_iff {m : ByteMem} {b : UInt8} {k n : ℕ} :
    bytesAre m b k n = none ↔ ∃ j < n, Holds m k (List.replicate j b) ∧ m (k+j) = none := by
  induction n generalizing k with
  | zero => simp [bytesAre]
  | succ n ih =>
    rw [bytesAre, Option.bind_eq_none_iff]
    constructor
    · intro h
      cases hk : m k with
      | none => exact ⟨0, by omega, holds_nil m k, hk⟩
      | some x =>
        have hx := h x hk
        split_ifs at hx with hxb
        obtain ⟨j, hj, hh, hn⟩ := ih.mp hx
        refine ⟨j+1, by omega, ?_, by rwa [show k+(j+1) = k+1+j by omega]⟩
        rw [List.replicate_succ, holds_cons]
        exact ⟨hxb ▸ hk, hh⟩
    · rintro ⟨j, hj, hh, hn⟩ x hx
      cases j with
      | zero => simp [hx] at hn
      | succ j =>
        rw [List.replicate_succ, holds_cons] at hh
        have hxb : x = b := by simpa [hx] using hh.1
        rw [if_pos hxb, ih]
        exact ⟨j, by omega, hh.2, by rwa [show k+1+j = k+(j+1) by omega]⟩

section
variable {m : ByteMem} {recvLen : ℕ}

/-- A direction that is announced takes five bytes, or is cut off. -/
theorem recvDir_cases (hm : ∀ j < recvLen, (m j).isSome) (bit : UInt8)
    (store : UeDci → UInt8 → UInt32 → UeDci) (ulDl : UInt8) (d : UeDci) (k : ℕ) :
    let n := if ulDl &&& bit ≠ 0 then 5 else 0
    (recvLen < k+n ∧ recvDir bit store ulDl d m k recvLen = some none) ∨
    ((n = 0 ∨ k+n ≤ recvLen) ∧
      ∃ d', recvDir bit store ulDl d m k recvLen = some (some (d', k+n))) := by
  unfold recvDir
  split_ifs with h hlen
  · exact Or.inl ⟨by omega, rfl⟩
  · obtain ⟨x, hx⟩ := Option.isSome_iff_exists.mp (hm k (by omega))
    obtain ⟨y, hy⟩ := Option.isSome_iff_exists.mp (readBe32_isSome.mpr
      ⟨hm (k+1) (by omega), hm (k+1+1) (by omega), hm (k+1+2) (by omega), hm (k+1+3) (by omega)⟩)
    exact Or.inr ⟨Or.inr (by omega), store d x y, by rw [hx, hy]; rfl⟩
  · exact Or.inr ⟨Or.inl rfl, d, rfl⟩

/-- A version 0 body is rejected when the flag byte or a direction is cut off. -/
theorem recvDciVer1_cases (hm : ∀ j < recvLen, (m j).isSome) (d : UeDci) (k : ℕ) :
    (recvDciVer1 d m k recvLen = some none ∧
      (recvLen ≤ k ∨ ∃ ulDl, m k = some ulDl ∧ recvLen < k+1+dirLen ulDl)) ∨
    (∃ ulDl d', m k = some ulDl ∧ k+1+dirLen ulDl ≤ recvLen ∧
      recvDciVer1 d m k recvLen = some (some (d', k+1+dirLen ulDl))) := by
  unfold recvDciVer1
  split_ifs with h
  · exact Or.inl ⟨rfl, Or.inl h⟩
  · obtain ⟨ulDl, hul⟩ := Option.isSome_iff_exists.mp (hm k (by omega))
    rw [hul, Option.bind_some]
    -- the uplink direction starts where the downlink one ended
    rcases recvDir_cases hm 0x01 _ ulDl d (k+1) with ⟨hlt, hr⟩ | ⟨hle, d', hr⟩
    · refine Or.inl ⟨by rw [recvDl, hr, Option.bind_some], Or.inr ⟨ulDl, rfl, ?_⟩⟩
      unfold dirLen
      omega
    · rw [recvDl, hr, Option.bind_some]
      rcases recvDir_cases hm 0x02 _ ulDl d' (k+1+if ulDl &&& 0x01 ≠ 0 then 5 else 0) with
        ⟨hlt, hr'⟩ | ⟨hle', d'', hr'⟩
      · refine Or.inl ⟨hr', Or.inr ⟨ulDl, rfl, ?_⟩⟩
        unfold dirLen
        omega
      · refine Or.inr ⟨ulDl, d'', rfl, ?_, ?_⟩
        · unfold dirLen
          omega
        · rw [dirLen, ← Nat.add_assoc]
          exact hr'

/-- How a DCI record after its preamble at `k` is taken: cut off in the preamble part, of an
unknown version, cut off in the body, or complete. -/
theorem recvOneDci_cases (hm : ∀ j < recvLen, (m j).isSome) (k : ℕ) :
    (recvLen < k+12 ∧ recvOneDci m k recvLen = some none) ∨
    (k+12 ≤ recvLen ∧ ∃ v d c, m k = some v ∧ v ≠ 0 ∧ m (k+11) = some c ∧
      recvOneDci m k recvLen = some (some (d, c, k+12))) ∨
    (k+12 ≤ recvLen ∧ m k = some 0 ∧
      (recvLen ≤ k+12 ∨ ∃ ulDl, m (k+12) = some ulDl ∧ recvLen < k+13+dirLen ulDl) ∧
      recvOneDci m k recvLen = some none) ∨
    (∃ ulDl d c, m k = some 0 ∧ m (k+11) = some c ∧ m (k+12) = some ulDl ∧
      k+13+dirLen ulDl ≤ recvLen ∧
      recvOneDci m k recvLen = some (some (d, c, k+13+dirLen ulDl))) := by
  by_cases h : recvLen ≤ k+11
  · exact Or.inl ⟨by omega, by simp [recvOneDci, h]⟩
  · have hread (j : ℕ) (hj : j < 12) : ∃ b, m (k+j) = some b :=
      Option.isSome_iff_exists.mp (hm (k+j) (by omega))
    obtain ⟨v, hv⟩ := hread 0 (by omega)
    obtain ⟨c, hc⟩ := hread 11 (by omega)
    obtain ⟨lo, hlo⟩ := Option.isSome_iff_exists.mp (readBe32_isSome.mpr
      ⟨hm (k+1) (by omega), hm (k+1+1) (by omega), hm (k+1+2) (by omega), hm (k+1+3) (by omega)⟩)
    obtain ⟨hi, hhi⟩ := Option.isSome_iff_exists.mp (readBe32_isSome.mpr
      ⟨hm (k+5) (by omega), hm (k+5+1) (by omega), hm (k+5+2) (by omega), hm (k+5+3) (by omega)⟩)
    obtain ⟨tti, htti⟩ := Option.isSome_iff_exists.mp (readLe16_isSome.mpr
      ⟨hm (k+9) (by omega), hm (k+9+1) (by omega)⟩)
    -- once the twelve bytes are read, the version byte decides
    have heq : recvOneDci m k recvLen =
        if v = 0 then
          (recvDciVer1 { UeDci.zero with
            timeStamp := UInt64.ofNat (lo.toNat+2^32*hi.toNat), tti := tti } m (k+12) recvLen).bind
              fun r => some (r.map fun x => (x.1, c, x.2))
        else some (some ({ UeDci.zero with
          timeStamp := UInt64.ofNat (lo.toNat+2^32*hi.toNat), tti := tti }, c, k+12)) := by
      rw [recvOneDci, if_neg h, show m k = some v from hv, hlo, hhi, htti, hc]
      rfl
    rw [heq]
    by_cases hv0 : v = 0
    · rw [if_pos hv0]
      have hvk : m k = some 0 := by rw [← hv0]; exact hv
      rcases recvDciVer1_cases hm _ (k+12) with ⟨hr, hcut⟩ | ⟨ulDl, d', hul, hle, hr⟩
      · refine Or.inr (Or.inr (Or.inl ⟨by omega, hvk, ?_, by rw [hr]; rfl⟩))
        exact hcut
      · refine Or.inr (Or.inr (Or.inr ⟨ulDl, d', c, hvk, hc, hul, hle, by rw [hr]; rfl⟩))
    · rw [if_neg hv0]
      exact Or.inr (Or.inl ⟨by omega, v, _, c, hv, hv0, hc, rfl⟩)

/-- The preamble decides which record `recv_buffer` takes. -/
theorem recvBuffer_of_dci {k : ℕ} (h : Holds m k (List.replicate 4 0xAA)) :
    recvBuffer m k recvLen = (recvOneDci m (k+4) recvLen).bind fun r =>
      match r with
      | none => some (-1, none)
      | some (ueDci, cellIdx, bufIdx) =>
        some (if bufIdx = k+4 then -1 else (bufIdx:ℤ), some (.caInsert ueDci cellIdx)) := by
  rw [recvBuffer, bytesAre_eq_true_iff.mpr h]
  rfl

theorem bytesAre_of_first_ne {k n : ℕ} {x b : UInt8} (h : m k = some x) (hx : x ≠ b) :
    bytesAre m b k (n+1) = some false := by
  rw [bytesAre, h, Option.bind_some, if_neg hx]

theorem recvBuffer_of_config {k : ℕ} (h : Holds m k (List.replicate 4 0xBB)) :
    recvBuffer m k recvLen =
      (recvConfig m (k+4)).bind fun r => some ((r.2:ℤ), some (.config r.1)) := by
  have h0 : m k = some 0xBB := by simpa using h 0 (by simp)
  rw [recvBuffer, bytesAre_of_first_ne h0 (by decide), bytesAre_eq_true_iff.mpr h]
  rfl

/-- Away from the DCI and CONFIG preambles nothing but `go_exit` can change, and the call
fails. -/
theorem recvBuffer_of_other {k : ℕ} {r : ℤ × Option DciUpdate}
    (hdci : ¬ Holds m k (List.replicate 4 0xAA)) (hconfig : ¬ Holds m k (List.replicate 4 0xBB))
    (h : recvBuffer m k recvLen = some r) :
    r.1 = -1 ∧ (r.2 = none ∨ r.2 = some .exit) := by
  obtain ⟨a, ha, h⟩ := Option.bind_eq_some_iff.mp h
  cases a with
  | true => exact absurd (bytesAre_eq_true_iff.mp ha) hdci
  | false =>
    obtain ⟨b, hb, h⟩ := Option.bind_eq_some_iff.mp h
    cases b with
    | true => exact absurd (bytesAre_eq_true_iff.mp hb) hconfig
    | false =>
      obtain ⟨e, _, h⟩ := Option.bind_eq_some_iff.mp h
      cases h
      cases e
      · exact ⟨rfl, Or.inl rfl⟩
      · exact ⟨rfl, Or.inr rfl⟩

/-- The call returns when the three preamble tests do. -/
theorem exists_recvBuffer_of_other {k : ℕ}
    (hdci : ¬ Holds m k (List.replicate 4 0xAA)) (hconfig : ¬ Holds m k (List.replicate 4 0xBB))
    {a b e : Bool} (ha : bytesAre m 0xAA k 4 = some a) (hb : bytesAre m 0xBB k 4 = some b)
    (he : bytesAre m 0xFF k 4 = some e) :
    ∃ r, recvBuffer m k recvLen = some r := by
  cases a with
  | true => exact absurd (bytesAre_eq_true_iff.mp ha) hdci
  | false =>
    cases b with
    | true => exact absurd (bytesAre_eq_true_iff.mp hb) hconfig
    | false => exact ⟨_, by rw [recvBuffer, ha, hb, he]; rfl⟩

end

end CopaNgscope
