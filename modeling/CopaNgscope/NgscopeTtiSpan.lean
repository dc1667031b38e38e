import CopaNgscope.NgscopeCAMerge
import CopaNgscope.NgscopeClient

/-! The span of TTIs that `tti_distance` gives, and what `extract_ca_trace` and the timeout of
`pkt_handling` make of it. -/
namespace CopaNgscope
open CircularDistance

/-! ### The span -/

theorem ttiDistance_self (tti : UInt16) : ttiDistance tti tti = 10241 := by
  unfold ttiDistance
  rw [if_neg (UInt16.lt_irrefl tti)]
  omega

/-- The number of TTIs from `start` to `finish`, both included. -/
def SpanRight (start finish : UInt16) : Prop :=
  ttiDistance start finish = (arc maxTti start.toNat finish.toNat).length

theorem spanRight_iff {start finish : UInt16} (hs : start.toNat < maxTti)
    (hf : finish.toNat < maxTti) : SpanRight start finish ↔ start ≠ finish := by
  unfold SpanRight
  rw [length_arc]
  constructor
  · rintro hspan rfl
    rw [ttiDistance_self, cdist_self] at hspan
    omega
  · intro hne
    exact_mod_cast ttiDistance_eq hs hf hne

/-! ### The trace -/

/-- The trace over the window lists its TTIs in order, each once. -/
def TraceSpansWindow (tailTti headerTti : UInt16) : Prop :=
  ∀ (dciAll : ℕ → NgscopeDci) (nofCell : ℕ) (res : NgscopeReTxCa), 1 ≤ nofCell →
    (dciAll 0).caTail = tailTti.toNat → (dciAll 0).caHeader = headerTti.toNat →
    extractCaTrace dciAll nofCell = some res →
    (firstEntries res.tti res.size).map UInt16.toNat = arc maxTti tailTti.toNat headerTti.toNat

/-- A cell with one TTI, which is both ends of the window. -/
def oneTtiDci (tti : UInt16) : NgscopeDci where
  nofDci := 1
  caHeader := tti.toNat
  caTail := tti.toNat
  timeStampUs := fun _ => 0
  tti := fun _ => tti
  currTime := 0
  dlDci := UeLinkDci.zero
  ulDci := UeLinkDci.zero

theorem oneTtiDci_covers {tti : UInt16} (h : tti.toNat < maxTti) :
    CellCovers (oneTtiDci tti) tti tti where
  increasing := ⟨fun x hx => by rwa [List.mem_singleton.mp hx], List.pairwise_singleton _ _⟩
  length_le := show 1 ≤ nofLogDci by decide
  tail_mem := List.mem_singleton.mpr rfl
  header_mem := List.mem_singleton.mpr rfl
  tail_first := le_rfl

theorem exists_oneTti_trace {tti : UInt16} (h : tti.toNat < maxTti) :
    ∃ res, extractCaTrace (fun _ => oneTtiDci tti) 1 = some res := by
  have hofNat : UInt16.ofNat (oneTtiDci tti).caHeader = tti := UInt16.ofNat_toNat
  have hofNat' : UInt16.ofNat (oneTtiDci tti).caTail = tti := UInt16.ofNat_toNat
  rw [extractCaTrace, hofNat, hofNat']
  exact ⟨_, foldlM_extractCaCell_eq 1 (fun _ _ => oneTtiDci_covers h)
    (cdist_lt_ttiDistance h h)⟩

theorem traceSpansWindow_iff {tailTti headerTti : UInt16} (ht : tailTti.toNat < maxTti)
    (hh : headerTti.toNat < maxTti) :
    TraceSpansWindow tailTti headerTti ↔ tailTti ≠ headerTti := by
  constructor
  · rintro hspan rfl
    obtain ⟨res, hres⟩ := exists_oneTti_trace ht
    -- with one TTI the trace has a whole cycle of entries and one more
    have harc := congrArg List.length (hspan _ 1 res le_rfl rfl rfl hres)
    have hsize := (extractCaTrace_shape hres).2
    rw [List.length_map, length_firstEntries, hsize, length_arc, cdist_self] at harc
    have hself : (ttiDistance (UInt16.ofNat (oneTtiDci tailTti).caTail)
        (UInt16.ofNat (oneTtiDci tailTti).caHeader)).toNat = 10241 :=
      congrArg Int.toNat (ttiDistance_self _)
    omega
  · intro hne dciAll nofCell res _ htail hheader hres
    obtain ⟨htti, hsize⟩ := extractCaTrace_shape hres
    rw [htail, hheader, UInt16.ofNat_toNat, UInt16.ofNat_toNat] at htti hsize
    rw [ttiDistance_eq ht hh hne] at hsize
    have hcount : res.size = cdist maxTti tailTti.toNat headerTti.toNat+1 :=
      hsize.trans (Int.toNat_natCast _)
    have hround := cdist_lt (n := maxTti) (by decide) tailTti.toNat headerTti.toNat
    rw [htti, hcount, firstEntries, List.map_map, arc]
    refine List.map_congr_left (fun k hk => ?_)
    rw [List.mem_range] at hk
    exact toNat_caTraceStart_tti headerTti ht (by omega)

/-! ### The timeout -/

/-- The buffer is given up only when the newest TTI is more than 19 steps after the start of
the burst. -/
def TimeoutRight (startTti newestTti : UInt16) : Prop :=
  ∀ (s t : ClientState) (pktTUs onewayUs : List UInt64), s.reTxBuffer.bufStartTti = startTti →
    handleBurstStart s pktTUs onewayUs newestTti.toNat = some t →
    t.statMissReTx ≠ s.statMissReTx → 19 < cdist maxTti startTti.toNat newestTti.toNat

/-- The counter of missed bursts moves only where the timeout is taken. -/
theorem handleBurstStart_timeout {s t : ClientState} {pktTUs onewayUs : List UInt64}
    {caHeader : ℕ} (h : handleBurstStart s pktTUs onewayUs caHeader = some t)
    (hmiss : t.statMissReTx ≠ s.statMissReTx) :
    20 < ttiDistance s.reTxBuffer.bufStartTti (UInt16.ofNat caHeader) := by
  unfold handleBurstStart at h
  split at h
  · extract_lets index at h
    split at h
    · obtain ⟨refOneway, _, rfl⟩ := Option.map_eq_some_iff.mp h
      exact absurd rfl hmiss
    · split at h
      · assumption
      · cases h
        exact absurd rfl hmiss
  · cases h
    exact absurd rfl hmiss

/-- A client that looks for the start of a burst at `tti`. -/
def seekingClient (tti : UInt16) : ClientState :=
  { clientInit 0 with
    reTxBuffer := { ngscopeReTxInitBuf with
      ready := true
      bufferActive := true
      bufStartTti := tti } }

/-- Without packets the start is not found, and the distance decides. -/
theorem handleBurstStart_seeking {tti : UInt16} {caHeader : ℕ}
    (h : 20 < ttiDistance tti (UInt16.ofNat caHeader)) :
    ∃ t, handleBurstStart (seekingClient tti) [] [] caHeader = some t ∧
      t.statMissReTx = 1 := by
  have hindex : ¬ 0 < ngscopeReTxFindBurstStart [] []
      (seekingClient tti).reTxBuffer.bufStartT := by
    change ¬ 0 < ngscopeReTxFindBurstStart [] [] 0
    decide
  refine ⟨{ seekingClient tti with
    reTxBuffer := ngscopeReTxResetBuf (seekingClient tti).reTxBuffer
    statMissReTx := 1 }, ?_, rfl⟩
  rw [handleBurstStart, if_pos ⟨rfl, rfl, rfl⟩]
  simp only
  rw [if_neg hindex]
  exact if_pos h

theorem timeoutRight_iff {startTti newestTti : UInt16} (hs : startTti.toNat < maxTti)
    (hn : newestTti.toNat < maxTti) : TimeoutRight startTti newestTti ↔ startTti ≠ newestTti := by
  constructor
  · rintro hright rfl
    have hself : 20 < ttiDistance startTti (UInt16.ofNat startTti.toNat) := by
      rw [UInt16.ofNat_toNat, ttiDistance_self]
      decide
    obtain ⟨t, ht, hmiss⟩ := handleBurstStart_seeking hself
    have hsteps := hright _ t [] [] rfl ht (hmiss.trans_ne Nat.one_ne_zero)
    rw [cdist_self] at hsteps
    omega
  · intro hne s t pktTUs onewayUs hstart ht hmiss
    have hdist := handleBurstStart_timeout ht hmiss
    rw [hstart, UInt16.ofNat_toNat, ttiDistance_eq hs hn hne] at hdist
    omega

/-- The span, the trace and the timeout are the circular ones exactly for two different TTIs. -/
theorem tti_span_right_iff {start finish : UInt16} (hs : start.toNat < maxTti)
    (hf : finish.toNat < maxTti) :
    (SpanRight start finish ↔ start ≠ finish) ∧ (TraceSpansWindow start finish ↔ start ≠ finish) ∧
      (TimeoutRight start finish ↔ start ≠ finish) :=
  ⟨spanRight_iff hs hf, traceSpansWindow_iff hs hf, timeoutRight_iff hs hf⟩

/-- All are right over the wrap, and none from a TTI to itself. -/
theorem tti_span_right_wrap :
    (SpanRight 10239 0 ∧ TraceSpansWindow 10239 0 ∧ TimeoutRight 10239 0) ∧
      ¬ SpanRight 7 7 ∧ ¬ TraceSpansWindow 7 7 ∧ ¬ TimeoutRight 7 7 := by
  obtain ⟨hspan, htrace, htimeout⟩ :=
    @tti_span_right_iff 10239 0 (by decide) (by decide)
  obtain ⟨hspan₇, htrace₇, htimeout₇⟩ :=
    @tti_span_right_iff 7 7 (by decide) (by decide)
  have hne : (10239:UInt16) ≠ 0 := by decide
  exact ⟨⟨hspan.mpr hne, htrace.mpr hne, htimeout.mpr hne⟩, hspan₇.not.mpr (not_not.mpr rfl),
    htrace₇.not.mpr (not_not.mpr rfl), htimeout₇.not.mpr (not_not.mpr rfl)⟩

/-- From a TTI to itself the distance is a whole cycle and one more. -/
theorem tti_span_same_tti :
    ¬ ∀ start finish : UInt16, start.toNat < maxTti → finish.toNat < maxTti →
      SpanRight start finish ∧ TraceSpansWindow start finish ∧ TimeoutRight start finish := by
  intro hall
  have hspan : ttiDistance 7 7 = (arc maxTti 7 7).length :=
    (hall 7 7 (by decide) (by decide)).1
  exact absurd hspan (by decide)

end CopaNgscope
