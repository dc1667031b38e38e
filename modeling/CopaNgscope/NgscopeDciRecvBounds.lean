import CopaNgscope.NgscopeDciRecvReject

/-! Whether the parse of a datagram stays inside it. The receive array is reused, so a
read past the datagram sees bytes of earlier ones. -/
namespace CopaNgscope
open ByteMemory

/-! ### Where the records of a datagram start -/

/-- The record at `k` is taken and its bytes end at `k+n`. -/
inductive RecordSpans (d : List UInt8) (k : ℕ) : ℕ → Prop
  | dci {ulDl : UInt8} : Holds (ofList d) k (List.replicate 4 0xAA) → ofList d (k+4) = some 0 →
      ofList d (k+16) = some ulDl → k+17+dirLen ulDl ≤ d.length → RecordSpans d k (17+dirLen ulDl)
  | unknownVersion : UnknownVersion (ofList d) k d.length → RecordSpans d k 16
  | config {nofCell : UInt8} : Holds (ofList d) k (List.replicate 4 0xBB) →
      ofList d (k+4) = some nofCell → k+5+2*nofCell.toNat ≤ d.length →
      RecordSpans d k (5+2*nofCell.toNat)

/-- Record boundaries short of the end, walked from the first byte. -/
inductive RecordStart (d : List UInt8) : ℕ → Prop
  | first : RecordStart d 0
  | next {k n : ℕ} : RecordStart d k → RecordSpans d k n → k+n < d.length → RecordStart d (k+n)

/-- The datagram ends after fewer than four bytes of a preamble at `k`. -/
def CutPreamble (d : List UInt8) (k : ℕ) : Prop :=
  ∃ b : UInt8, (b = 0xAA ∨ b = 0xBB ∨ b = 0xFF) ∧
    ∃ j < 4, Holds (ofList d) k (List.replicate j b) ∧ d.length = k+j

theorem RecordSpans.pos {d : List UInt8} {k n : ℕ} (h : RecordSpans d k n) : 0 < n := by
  cases h <;> omega

theorem RecordSpans.le {d : List UInt8} {k n : ℕ} (h : RecordSpans d k n) :
    k+n ≤ d.length := by
  cases h with
  | dci _ _ _ hle => omega
  | unknownVersion h => exact h.2.1
  | config _ _ hle => omega

theorem RecordStart.lt {d : List UInt8} (hd : d ≠ []) {k : ℕ} (h : RecordStart d k) :
    k < d.length := by
  cases h with
  | first => exact List.length_pos_iff.mpr hd
  | next _ _ hlt => exact hlt

/-! ### What a call does there, on the bytes of the datagram alone -/

theorem ofList_readable (d : List UInt8) : ∀ j < d.length, (ofList d j).isSome :=
  fun _ hj => ofList_isSome.mpr hj

/-- A record that is taken returns the index after it. -/
theorem recvBuffer_of_spans {d : List UInt8} {k n : ℕ} (h : RecordSpans d k n) :
    ∃ upd, recvBuffer (ofList d) k d.length = some (((k+n : ℕ) : ℤ), some upd) := by
  cases h with
  | @dci ulDl haa hv hul hle =>
    -- the other three ways to take a DCI record contradict its bytes or its length
    rcases recvOneDci_cases (ofList_readable d) (k+4) with ⟨hlen, _⟩ | ⟨_, v, _, _, hv', hv0, _⟩ |
      ⟨_, _, hcut, _⟩ | ⟨ulDl', x, c, _, _, hul', _, hr⟩
    · omega
    · rw [hv] at hv'
      exact absurd (Option.some.inj hv').symm hv0
    · rcases hcut with hcut | ⟨ulDl', hul', hcut⟩
      · omega
      · rw [show k+4+12 = k+16 by omega, hul] at hul'
        cases hul'
        omega
    · rw [show k+4+12 = k+16 by omega, hul] at hul'
      cases hul'
      refine ⟨.caInsert x c, ?_⟩
      rw [recvBuffer_of_dci haa, hr, Option.bind_some]
      simp only
      rw [if_neg (by omega), show k+4+13+dirLen ulDl = k+(17+dirLen ulDl) by omega]
  | unknownVersion hu =>
    obtain ⟨haa, hle, hv⟩ := hu
    rcases recvOneDci_cases (ofList_readable d) (k+4) with ⟨hlen, _⟩ | ⟨_, _, x, c, _, _, _, hr⟩ |
      ⟨_, hv', _⟩ | ⟨_, _, _, hv', _⟩
    · omega
    · refine ⟨.caInsert x c, ?_⟩
      rw [recvBuffer_of_dci haa, hr, Option.bind_some]
      simp only
      rw [if_neg (by omega)]
    · exact absurd hv' hv
    · exact absurd hv' hv
  | @config nofCell hbb hn hle =>
    obtain ⟨prbs, hprbs⟩ : ∃ prbs, readLe16s (ofList d) (k+4+1) nofCell.toNat = some prbs :=
      Option.isSome_iff_exists.mp (readLe16s_isSome.mpr
        (fun i hi => ofList_isSome.mpr (by omega)))
    refine ⟨.config prbs, ?_⟩
    rw [recvBuffer_of_config hbb, recvConfig, hn, Option.bind_some, hprbs]
    simp only [Option.bind_some]
    rw [show k+4+1+2*nofCell.toNat = k+(5+2*nofCell.toNat) by omega]

/-- A preamble that is cut off makes the test read on past the datagram. -/
theorem recvBuffer_of_cutPreamble {d : List UInt8} {k : ℕ} (hk : k < d.length)
    (h : CutPreamble d k) : recvBuffer (ofList d) k d.length = none := by
  obtain ⟨b, hb, j, hj, hh, hlen⟩ := h
  have hnone : bytesAre (ofList d) b k 4 = none :=
    bytesAre_eq_none_iff.mpr ⟨j, hj, hh, by rw [← hlen]; simp [ofList]⟩
  have h0 : ofList d k = some b := by
    have := hh 0 (by rw [List.length_replicate]; omega)
    rwa [List.getElem_replicate] at this
  rcases hb with rfl | rfl | rfl
  · rw [recvBuffer, hnone, Option.bind_none]
  · rw [recvBuffer, bytesAre_of_first_ne h0 (by decide), hnone]
    rfl
  · rw [recvBuffer, bytesAre_of_first_ne h0 (by decide), Option.bind_some, if_neg (by decide),
      bytesAre_of_first_ne h0 (by decide), hnone]
    rfl

theorem recvBuffer_of_cutConfig {d : List UInt8} {k : ℕ}
    (h : CutConfig (ofList d) k d.length) : recvBuffer (ofList d) k d.length = none := by
  obtain ⟨hbb, hcut⟩ := h
  rw [recvBuffer_of_config hbb, Option.bind_eq_none_iff]
  intro r hr
  obtain ⟨nofCell, hn, hr⟩ := Option.bind_eq_some_iff.mp hr
  obtain ⟨prbs, hprbs, _⟩ := Option.bind_eq_some_iff.mp hr
  have hlt : k+4 < d.length := ofList_isSome.mp (by simp [hn])
  rcases hcut with hle | ⟨nofCell', hn', hlt'⟩
  · omega
  · rw [hn] at hn'
    cases hn'
    -- the last PRB byte was read, so it would lie inside the datagram
    have hreads := readLe16s_isSome.mp (Option.isSome_of_eq_some hprbs)
    have hlast := ofList_isSome.mp (hreads (2*nofCell.toNat-1) (by omega))
    omega

/-- Reading a preamble inside the datagram. -/
theorem bytesAre_of_not_cut {d : List UInt8} {k : ℕ} {b : UInt8}
    (hb : b = 0xAA ∨ b = 0xBB ∨ b = 0xFF) (hk : k < d.length) (h : ¬ CutPreamble d k) :
    ∃ r, bytesAre (ofList d) b k 4 = some r := by
  cases hr : bytesAre (ofList d) b k 4 with
  | some r => exact ⟨r, rfl⟩
  | none =>
    obtain ⟨j, hj, hh, hn⟩ := bytesAre_eq_none_iff.mp hr
    refine absurd ⟨b, hb, j, hj, hh, ?_⟩ h
    have hge : d.length ≤ k+j := List.getElem?_eq_none_iff.mp hn
    rcases Nat.eq_zero_or_pos j with rfl | hpos
    · omega
    · have := ofList_isSome.mp (Option.isSome_of_eq_some (hh (j-1) (by simp; omega)))
      omega

/-- The four ways a call at `k` can go. -/
theorem recvBuffer_cases {d : List UInt8} {k : ℕ} (hk : k < d.length) :
    CutPreamble d k ∨ CutConfig (ofList d) k d.length ∨ (∃ n, RecordSpans d k n) ∨
      ∃ upd, recvBuffer (ofList d) k d.length = some (-1, upd) := by
  by_cases hcut : CutPreamble d k
  · exact Or.inl hcut
  refine Or.inr ?_
  by_cases hbb : Holds (ofList d) k (List.replicate 4 0xBB)
  · -- a CONFIG, which checks no length itself
    by_cases hlen : d.length ≤ k+4
    · exact Or.inl ⟨hbb, Or.inl hlen⟩
    obtain ⟨nofCell, hn⟩ := Option.isSome_iff_exists.mp
      (ofList_readable d (k+4) (by omega))
    by_cases hle : k+5+2*nofCell.toNat ≤ d.length
    · exact Or.inr (Or.inl ⟨_, .config hbb hn hle⟩)
    · exact Or.inl ⟨hbb, Or.inr ⟨nofCell, hn, by omega⟩⟩
  refine Or.inr ?_
  by_cases haa : Holds (ofList d) k (List.replicate 4 0xAA)
  · rcases recvOneDci_cases (ofList_readable d) (k+4) with ⟨_, hr⟩ | ⟨hle, v, _, _, hv, hv0, _⟩ |
      ⟨_, _, _, hr⟩ | ⟨ulDl, _, _, hv, _, hul, hle, _⟩
    · exact Or.inr ⟨none, by rw [recvBuffer_of_dci haa, hr]; rfl⟩
    · exact Or.inl ⟨16, .unknownVersion ⟨haa, by omega, by rw [hv]; simpa using hv0⟩⟩
    · exact Or.inr ⟨none, by rw [recvBuffer_of_dci haa, hr]; rfl⟩
    · exact Or.inl ⟨_, .dci haa hv hul (by omega)⟩
  · -- neither preamble: all three tests are answered inside the datagram
    obtain ⟨a, ha⟩ := bytesAre_of_not_cut (Or.inl rfl) hk hcut
    obtain ⟨b, hb⟩ := bytesAre_of_not_cut (Or.inr (Or.inl rfl)) hk hcut
    obtain ⟨e, he⟩ := bytesAre_of_not_cut (Or.inr (Or.inr rfl)) hk hcut
    obtain ⟨⟨ret, upd⟩, hr⟩ : ∃ r, recvBuffer (ofList d) k d.length = some r :=
      exists_recvBuffer_of_other haa hbb ha hb he
    have hret : ret = -1 := (recvBuffer_of_other haa hbb hr).1
    exact Or.inr ⟨upd, by rw [hr, hret]⟩

/-! ### The whole loop -/

/-- The offsets at which the parse loop calls `recv_buffer`. -/
inductive LoopCall (m : ByteMem) (recvLen : ℕ) : ℕ → Prop
  | first : LoopCall m recvLen 0
  | next {k : ℕ} {ret : ℤ} {upd : Option DciUpdate} : LoopCall m recvLen k →
      recvBuffer m k recvLen = some (ret, upd) → 0 ≤ ret → ret ≠ recvLen →
      LoopCall m recvLen ret.toNat

/-- No record of the datagram is a cut preamble or a cut CONFIG. -/
def NothingCut (d : List UInt8) : Prop :=
  ∀ k, RecordStart d k → ¬ CutPreamble d k ∧ ¬ CutConfig (ofList d) k d.length

section
variable {d : List UInt8}

/-- At a record start of an uncut datagram a call fails or takes a record inside it. -/
theorem recvBuffer_at_start (hd : d ≠ []) (hcut : NothingCut d) {k : ℕ} (hk : RecordStart d k) :
    (∃ upd, recvBuffer (ofList d) k d.length = some (-1, upd)) ∨
      ∃ n upd, RecordSpans d k n ∧
        recvBuffer (ofList d) k d.length = some (((k+n : ℕ) : ℤ), some upd) := by
  rcases recvBuffer_cases (hk.lt hd) with h | h | ⟨n, hn⟩ | h
  · exact absurd h (hcut k hk).1
  · exact absurd h (hcut k hk).2
  · obtain ⟨upd, hupd⟩ := recvBuffer_of_spans hn
    exact Or.inr ⟨n, upd, hn, hupd⟩
  · exact Or.inl h

/-- The loop calls at record starts only, whatever lies behind the datagram. -/
theorem recordStart_of_loopCall (hd : d ≠ []) (hcut : NothingCut d) (stale : List UInt8) {k : ℕ}
    (h : LoopCall (ofList (d ++ stale)) d.length k) : RecordStart d k := by
  induction h with
  | first => exact .first
  | @next k ret upd _ hr hpos hne ih =>
    rcases recvBuffer_at_start hd hcut ih with ⟨upd', hr'⟩ | ⟨n, upd', hn, hr'⟩
    · cases hr.symm.trans (mono_recvBuffer k d.length (extends_append d stale) _ hr')
      omega
    · cases hr.symm.trans (mono_recvBuffer k d.length (extends_append d stale) _ hr')
      have hle := hn.le
      rw [Int.toNat_natCast]
      exact .next ih hn (by omega)

/-- Each call that goes on leaves fewer bytes, so the fuel is not used up. -/
theorem recvLoop_finishes (hd : d ≠ []) (hcut : NothingCut d) (fuel : ℕ) :
    ∀ k, RecordStart d k → d.length < fuel+k →
      (recvLoop (ofList d) d.length fuel k).2 ≠ none := by
  induction fuel with
  | zero =>
    intro k hk hlt
    have := hk.lt hd
    omega
  | succ fuel ih =>
    intro k hk hlt
    rcases recvBuffer_at_start hd hcut hk with ⟨upd, hr⟩ | ⟨n, upd, hn, hr⟩
    · simp [recvLoop, hr]
    · have hpos := hn.pos
      have hle := hn.le
      simp only [recvLoop, hr]
      split_ifs with h0 h1
      · simp
      · simp
      · rw [Int.toNat_natCast]
        exact ih (k+n) (.next hk hn (by omega)) (by omega)

theorem recvDatagram_of_length_pos (hd : d ≠ []) (stale : List UInt8) :
    recvDatagram (d ++ stale) d.length =
      recvLoop (ofList (d ++ stale)) d.length ((d ++ stale).length+1) 0 :=
  if_neg (List.length_pos_iff.mpr hd).ne'

/-- An uncut datagram is parsed as if nothing lay behind it. -/
theorem recvDatagram_stale (hd : d ≠ []) (hcut : NothingCut d) (stale : List UInt8) :
    recvDatagram (d ++ stale) d.length = recvLoop (ofList d) d.length (d.length+1) 0 := by
  rw [recvDatagram_of_length_pos hd]
  exact recvLoop_mono (extends_append d stale) d.length (by simp)
    (recvLoop_finishes hd hcut _ 0 .first (by omega))

/-- Every record start is called at when all calls stay inside the datagram. -/
theorem loopCall_of_recordStart {k : ℕ} (h : RecordStart d k) :
    LoopCall (ofList (d ++ [])) d.length k := by
  rw [List.append_nil]
  induction h with
  | first => exact .first
  | @next k n _ hn hlt ih =>
    obtain ⟨upd, hr⟩ := recvBuffer_of_spans hn
    have := ih.next hr (by omega) (by omega)
    rwa [Int.toNat_natCast] at this

end

end CopaNgscope
