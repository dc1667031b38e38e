import CopaNgscope.NgscopeReTxTrace

/-! Whether a retransmission is recognised as new. The buffer keeps the TTI of the last one, and
TTIs repeat after a cycle, so after more than half a cycle new ones can look old. -/
namespace CopaNgscope

/-- Entry `k` is a retransmission later than the time `last`, in a trace from `start` on. -/
structure NewReTx (trace : NgscopeReTxCa) (start last k : ℕ) : Prop where
  lt_size : k < trace.size
  reTx : trace.reTx k = true
  later : last < start+k

/-- The circular comparison puts the TTI `t`, logged `elapsed` TTIs later, after `last`. -/
def LooksLater (t last : UInt16) (elapsed : ℕ) : Prop :=
  (0 < elapsed%maxTti ∧ elapsed%maxTti < 5120) ∨
    (elapsed%maxTti = 5120 ∧ last.toNat < t.toNat)

section
variable {q : NgscopeReorderingBuf} {trace : NgscopeReTxCa} {start last : ℕ}

theorem not_skipsEntry_iff (hready : q.ready = true) (hlast : IsTtiOf q.bufLastTti last)
    (htrace : trace.Contiguous start) {k : ℕ} (hk : k < trace.size) (hlater : last ≤ start+k) :
    ¬ SkipsEntry q trace k ↔ LooksLater (trace.tti k) q.bufLastTti (start+k-last) := by
  have htti : IsTtiOf (trace.tti k) (last+(start+k-last)) := by
    rw [Nat.add_sub_cancel' hlater]
    exact htrace k hk
  rw [SkipsEntry, htti.wrapTti_eq, hlast.wrapTti_eq, and_iff_left hready]
  exact not_ttiASeB_iff htti hlast

/-- Beside a new retransmission in the trace, what is old is left out. -/
theorem skipsEntry_of_old (hready : q.ready = true) (hlast : IsTtiOf q.bufLastTti last)
    (htrace : trace.Contiguous start) (hsize : trace.size ≤ nofLogDci) {k : ℕ}
    (hk : k < trace.size) (hold : start+k ≤ last) {j : ℕ} (hj : NewReTx trace start last j) :
    SkipsEntry q trace k := by
  have htti := htrace k hk
  have hlt := hj.lt_size
  have hlater := hj.later
  unfold nofLogDci at hsize
  rw [SkipsEntry, htti.wrapTti_eq, hlast.wrapTti_eq, and_iff_left hready]
  exact (ttiASeB_iff_le htti hlast (by omega) (by omega)).mpr hold

end

/-- The buffer tracks a burst that ends with a new retransmission. -/
def TracksNew (trace : NgscopeReTxCa) (start last : ℕ) (q : NgscopeReorderingBuf) : Prop :=
  q.bufferActive = true ∧ ∃ k, NewReTx trace start last k ∧ q.bufLastTti = trace.tti k

theorem tracksNew_of_inactive {q : NgscopeReorderingBuf} (hinactive : q.bufferActive = false)
    {trace : NgscopeReTxCa} {start last i : ℕ} (hi : NewReTx trace start last i) :
    TracksNew trace start last (takeReTx q trace i) := by
  unfold takeReTx
  rw [if_neg (by simp [hinactive])]
  split_ifs
  · exact ⟨rfl, i, hi, rfl⟩
  · exact ⟨rfl, i, hi, rfl⟩

theorem tracksNew_takeReTx {q : NgscopeReorderingBuf} {trace : NgscopeReTxCa} {start last i : ℕ}
    (h : TracksNew trace start last q) (hi : NewReTx trace start last i) :
    TracksNew trace start last (takeReTx q trace i) := by
  unfold takeReTx
  rw [if_pos h.1]
  split_ifs
  · exact h
  · exact ⟨rfl, i, hi, rfl⟩

/-- From its first retransmission that is not left out on, the loop tracks new ones. -/
theorem tracksNew_updateReTxBuf {q : NgscopeReorderingBuf} (hinactive : q.bufferActive = false)
    {trace : NgscopeReTxCa} {start last k : ℕ} (hk : NewReTx trace start last k)
    (htake : ¬ SkipsEntry q trace k)
    (hfirst : ∀ i < k, trace.reTx i = true → SkipsEntry q trace i) :
    (updateReTxBuf q trace).2 = true ∧ TracksNew trace start last (updateReTxBuf q trace).1 := by
  have hnow : takeEntry q trace k = takeReTx q trace k := if_pos hk.reTx
  have htracks : TracksNew trace start last (takeEntry q trace k) := by
    rw [hnow]
    exact tracksNew_of_inactive hinactive hk
  unfold updateReTxBuf
  rw [range_split hk.lt_size,
    updateReTxLoop_append (fun i hi => quietEntry_of_inactive hinactive
      (hfirst i (List.mem_range.mp hi)))]
  by_cases hover : BurstOver (takeEntry q trace k) trace k
  · rw [updateReTxLoop_over htake hover, hk.reTx]
    exact ⟨rfl, htracks⟩
  · rw [updateReTxLoop_takes htake hover, hk.reTx, Bool.false_or]
    refine ⟨updateReTxLoop_found trace _ _, updateReTxLoop_invariant (fun i hi hreTx r hr => ?_)
      htracks true⟩
    -- the entries that follow a new one are new as well
    obtain ⟨hki, hilt⟩ := List.mem_range'_1.mp hi
    have hlater := hk.later
    exact tracksNew_takeReTx hr ⟨by omega, hreTx, by omega⟩

/-- An update from a trace with new retransmissions finds one of them exactly when one looks later
than the last one recorded: within half a cycle of it, whole cycles apart. -/
theorem update_reTx_buf_recognises_iff {q : NgscopeReorderingBuf} {trace : NgscopeReTxCa}
    {start last : ℕ} (hready : q.ready = true) (hinactive : q.bufferActive = false)
    (hlast : IsTtiOf q.bufLastTti last) (htrace : trace.Contiguous start)
    (hsize : trace.size ≤ nofLogDci) (hnew : ∃ k, NewReTx trace start last k) :
    ((updateReTxBuf q trace).2 = true ∧ (updateReTxBuf q trace).1.bufferActive = true ∧
      ∃ k, NewReTx trace start last k ∧ (updateReTxBuf q trace).1.bufLastTti = trace.tti k) ↔
    ∃ k, NewReTx trace start last k ∧ LooksLater (trace.tti k) q.bufLastTti (start+k-last) := by
  obtain ⟨j, hj⟩ := hnew
  constructor
  · rintro ⟨hfound, -, -⟩
    by_contra hnone
    -- then every retransmission of the trace is left out, old or new
    have hskip : ∀ i < trace.size, trace.reTx i = true → SkipsEntry q trace i := by
      intro i hi hreTx
      rcases Nat.lt_or_ge last (start+i) with hlater | hold
      · by_contra htake
        exact hnone ⟨i, ⟨hi, hreTx, hlater⟩,
          (not_skipsEntry_iff hready hlast htrace hi hlater.le).mp htake⟩
      · exact skipsEntry_of_old hready hlast htrace hsize hi hold hj
    rw [updateReTxBuf_of_old hskip] at hfound
    cases hfound
  · rintro ⟨k, hk, hlooks⟩
    have htake := (not_skipsEntry_iff hready hlast htrace hk.lt_size hk.later.le).mpr hlooks
    -- the first new one that looks later is taken
    classical
    have hex : ∃ i, NewReTx trace start last i ∧ ¬ SkipsEntry q trace i := ⟨k, hk, htake⟩
    obtain ⟨hi, hitake⟩ := Nat.find_spec hex
    refine tracksNew_updateReTxBuf hinactive hi hitake (fun i' hlt hreTx => ?_)
    have hi' : i' < trace.size := hlt.trans hi.lt_size
    by_contra htake'
    rcases Nat.lt_or_ge last (start+i') with hlater | hold
    · exact Nat.find_min hex hlt ⟨⟨hi', hreTx, hlater⟩, htake'⟩
    · exact htake' (skipsEntry_of_old hready hlast htrace hsize hi' hold hj)

/-- A buffer whose last retransmission was at time 0, and a trace of one retransmission. -/
def idleBuf : NgscopeReorderingBuf := { ngscopeReTxInitBuf with ready := true }

def oneReTx (t : UInt16) : NgscopeReTxCa := ⟨fun _ => true, fun _ => t, fun _ => 0, fun _ => 0, 1⟩

theorem contiguous_oneReTx {t : UInt16} {start : ℕ} (h : IsTtiOf t start) :
    (oneReTx t).Contiguous start := by
  intro k hk
  obtain rfl : k = 0 := Nat.lt_one_iff.mp hk
  exact h

/-- A retransmission after 3 ms is found, one after 6 seconds is not. -/
theorem update_reTx_buf_recognises_soon :
    ((updateReTxBuf idleBuf (oneReTx 3)).2 = true ∧
      (updateReTxBuf idleBuf (oneReTx 3)).1.bufferActive = true ∧
      ∃ k, NewReTx (oneReTx 3) 3 0 k ∧
        (updateReTxBuf idleBuf (oneReTx 3)).1.bufLastTti = (oneReTx 3).tti k) ∧
    ¬ ((updateReTxBuf idleBuf (oneReTx 6000)).2 = true ∧
      (updateReTxBuf idleBuf (oneReTx 6000)).1.bufferActive = true ∧
      ∃ k, NewReTx (oneReTx 6000) 6000 0 k ∧
        (updateReTxBuf idleBuf (oneReTx 6000)).1.bufLastTti = (oneReTx 6000).tti k) := by
  have hsoon : NewReTx (oneReTx 3) 3 0 0 := ⟨by decide, rfl, by decide⟩
  have hlate : NewReTx (oneReTx 6000) 6000 0 0 := ⟨by decide, rfl, by decide⟩
  refine ⟨?_, ?_⟩
  · have hiff := @update_reTx_buf_recognises_iff idleBuf (oneReTx 3) 3 0 rfl rfl rfl
      (contiguous_oneReTx rfl) (by decide) ⟨0, hsoon⟩
    exact hiff.mpr ⟨0, hsoon, .inl ⟨by decide, by decide⟩⟩
  · have hiff := @update_reTx_buf_recognises_iff idleBuf (oneReTx 6000) 6000 0 rfl rfl rfl
      (contiguous_oneReTx rfl) (by decide) ⟨0, hlate⟩
    rw [hiff]
    rintro ⟨k, hk, hlooks⟩
    obtain rfl : k = 0 := Nat.lt_one_iff.mp hk.lt_size
    unfold LooksLater at hlooks
    exact absurd hlooks (by decide)

/-- After 6 seconds of silence a retransmission is taken for an old one. -/
theorem late_reTx_not_recognised :
    idleBuf.ready = true ∧ idleBuf.bufferActive = false ∧ IsTtiOf idleBuf.bufLastTti 0 ∧
    (oneReTx 6000).Contiguous 6000 ∧ NewReTx (oneReTx 6000) 6000 0 0 ∧
    updateReTxBuf idleBuf (oneReTx 6000) = (idleBuf,false) :=
  ⟨rfl, rfl, rfl, contiguous_oneReTx rfl, ⟨by decide, rfl, by decide⟩, by decide⟩

end CopaNgscope
