import CopaNgscope.NgscopeDciRecvCells

/-! The parse of one datagram as a whole: it uses the bytes of the datagram alone, and what
it writes stays inside the four-entry tables. -/
namespace CopaNgscope
open RunInvariant ByteMemory

/-! ### Updates that stay inside the tables -/

/-- No update of the list indexes past a table or inserts while no cell is configured;
`configured` says whether one is at its start. -/
def UpdatesFit : Bool → List DciUpdate → Prop
  | _, [] => True
  | configured, .caInsert _ cellIdx :: us =>
    (configured = true ∧ cellIdx.toNat < maxNofRfDev) ∧ UpdatesFit configured us
  | _, .config cellPrb :: us =>
    cellPrb.length ≤ maxNofRfDev ∧ UpdatesFit (decide (cellPrb ≠ [])) us
  | configured, .exit :: us => UpdatesFit configured us

section
variable (stray : NgscopeDciCell → ℤ → UeDci)

theorem run_of_updatesFit {us : List DciUpdate} : ∀ {configured : Bool} {s : RecvState},
    (configured = true → s.dciCa.nofCell ≠ 0) → UpdatesFit configured us →
      ∃ t, run (applyUpdate stray) s us = some t := by
  induction us with
  | nil => exact fun _ _ => ⟨_, rfl⟩
  | cons u us ih =>
    intro configured s hs hfit
    cases u with
    | caInsert ueDci cellIdx =>
      obtain ⟨⟨hconf, hc⟩, hfit⟩ := hfit
      obtain ⟨q, hq⟩ := ngscopeDciCAInsert_defined stray s.dciCa ueDci hc
        (Nat.pos_of_ne_zero (hs hconf))
      have hnof : q.nofCell = s.dciCa.nofCell := (ngscopeDciCAInsert_cases stray hq).2.2.1
      rw [run_cons, applyUpdate, hq, Option.map_some, Option.bind_some]
      exact ih (fun h => by rw [hnof]; exact hs h) hfit
    | config cellPrb =>
      obtain ⟨hlen, hfit⟩ := hfit
      rw [run_cons, applyUpdate, NgscopeDciCA.config, dif_pos hlen, Option.map_some,
        Option.bind_some]
      refine ih (fun h => ?_) hfit
      simpa using h
    | exit =>
      rw [run_cons, applyUpdate, Option.bind_some]
      exact ih hs hfit

/-- Once `ca_ready` is set, nothing else is defined. -/
theorem updatesFit_of_run {us : List DciUpdate} : ∀ {configured : Bool} {s t : RecvState},
    run (applyUpdate stray) s us = some t → s.dciCa.caReady = true →
      (s.dciCa.nofCell ≠ 0 → configured = true) → UpdatesFit configured us := by
  induction us with
  | nil => exact fun _ _ _ => trivial
  | cons u us ih =>
    intro configured s t hrun hready hs
    rw [run_cons] at hrun
    obtain ⟨s', hs', hrun⟩ := Option.bind_eq_some_iff.mp hrun
    cases u with
    | caInsert ueDci cellIdx =>
      obtain ⟨q, hq, rfl⟩ := Option.map_eq_some_iff.mp hs'
      obtain ⟨hc, _, hnof, ⟨_, hready', hupd⟩ | ⟨hnot, _⟩⟩ := ngscopeDciCAInsert_cases stray hq
      · have hcell : s.dciCa.nofCell ≠ 0 := hupd.nofCell_pos.ne'
        exact ⟨⟨hs hcell, hc⟩, ih hrun hready' (fun _ => hs hcell)⟩
      · rw [hready] at hnot
        cases hnot
    | config cellPrb =>
      obtain ⟨q, hq, rfl⟩ := Option.map_eq_some_iff.mp hs'
      unfold NgscopeDciCA.config at hq
      split_ifs at hq with hlen
      cases hq
      refine ⟨hlen, ih hrun hready (fun h => ?_)⟩
      simpa using h
    | exit =>
      cases hs'
      exact ih hrun hready hs

/-- The updates are defined from every state with a good cell table exactly when they fit. -/
theorem updates_defined_iff (us : List DciUpdate) :
    (∀ s, CellTable s → ∃ t, run (applyUpdate stray) s us = some t) ↔ UpdatesFit true us := by
  constructor
  · intro h
    -- the first DCI for the initial cell sets `ca_ready`; the state after it is good
    obtain ⟨t, ht⟩ := h { recvStateInit with dciCa := { ngscopeDciCAInit with caReady := true } }
      ⟨by decide, by decide⟩
    exact updatesFit_of_run stray ht rfl (fun _ => rfl)
  · intro h s hs
    exact run_of_updatesFit stray (fun _ => Nat.ne_of_gt hs.1) h

end

/-! ### The bytes that make them fit -/

/-- Whether a cell is configured after the record at `k`: a CONFIG record says so itself. -/
def configuredAfter (d : List UInt8) (k : ℕ) (configured : Bool) : Bool :=
  if ofList d k = some 0xBB then decide (ofList d (k+4) ≠ some 0) else configured

/-- The walk over the record boundaries, with whether a cell is configured there. A datagram
starts with one. -/
inductive WalkedTo (d : List UInt8) : ℕ → Bool → Prop
  | first : WalkedTo d 0 true
  | next {k n : ℕ} {configured : Bool} : WalkedTo d k configured → RecordSpans d k n →
      k+n < d.length → WalkedTo d (k+n) (configuredAfter d k configured)

/-- A DCI record that is taken at `k` names one of the four slots and finds a cell
configured, and a CONFIG record has room for its cells. -/
def CellBytesFit (d : List UInt8) (k : ℕ) (configured : Bool) : Prop :=
  (CompleteDci (ofList d) k d.length ∨ UnknownVersion (ofList d) k d.length →
    configured = true ∧ ∀ c, ofList d (k+15) = some c → c.toNat < maxNofRfDev) ∧
  (Holds (ofList d) k (List.replicate 4 0xBB) →
    ∀ n, ofList d (k+4) = some n → n.toNat ≤ maxNofRfDev)

theorem WalkedTo.recordStart {d : List UInt8} {k : ℕ} {configured : Bool}
    (h : WalkedTo d k configured) : RecordStart d k := by
  induction h with
  | first => exact .first
  | next _ hn hlt ih => exact ih.next hn hlt

theorem RecordStart.walked {d : List UInt8} {k : ℕ} (h : RecordStart d k) :
    ∃ configured, WalkedTo d k configured := by
  induction h with
  | first => exact ⟨true, .first⟩
  | next _ hn hlt ih =>
    obtain ⟨configured, hk⟩ := ih
    exact ⟨_, hk.next hn hlt⟩

theorem holds_replicate_first {m : ByteMem} {k : ℕ} {b : UInt8}
    (h : Holds m k (List.replicate 4 b)) : m k = some b := by
  rw [List.replicate_succ, holds_cons] at h
  exact h.1

section
variable {d : List UInt8}

/-- A record that is taken fits, and leaves the rest to fit, as its bytes say. -/
theorem updatesFit_cons_of_spans {k n : ℕ} (h : RecordSpans d k n) {upd : DciUpdate}
    (hr : recvBuffer (ofList d) k d.length = some (((k+n : ℕ) : ℤ), some upd))
    (configured : Bool) (us : List DciUpdate) :
    UpdatesFit configured (upd :: us) ↔
      CellBytesFit d k configured ∧ UpdatesFit (configuredAfter d k configured) us := by
  by_cases haa : Holds (ofList d) k (List.replicate 4 0xAA)
  · obtain ⟨htaken, x, c, rfl, hc⟩ := caInsert_of_dci (ofList_readable d) haa hr
    have h0 := holds_replicate_first haa
    have hafter : configuredAfter d k configured = configured := by
      rw [configuredAfter, h0, if_neg (by decide)]
    rw [hafter]
    refine and_congr_left fun _ => ⟨fun hfit => ⟨fun _ => ⟨hfit.1, fun c' hc' => ?_⟩, ?_⟩,
      fun hfit => ⟨(hfit.1 htaken).1, (hfit.1 htaken).2 c hc⟩⟩
    · rw [hc] at hc'
      cases hc'
      exact hfit.2
    · intro hbb
      have h0' := holds_replicate_first hbb
      rw [h0] at h0'
      exact absurd h0' (by decide)
  · have hbb : Holds (ofList d) k (List.replicate 4 0xBB) := by
      cases h with
      | dci h => exact absurd h haa
      | unknownVersion h => exact absurd h.1 haa
      | config h => exact h
    obtain ⟨nofCell, cellPrb, rfl, hn, hlen⟩ := config_of_recvBuffer hbb hr
    have hafter : configuredAfter d k configured = decide (cellPrb ≠ []) := by
      rw [configuredAfter, holds_replicate_first hbb, if_pos rfl, hn]
      refine decide_eq_decide.mpr (not_congr ?_)
      rw [Option.some.injEq, ← List.length_eq_zero_iff, hlen]
      exact (UInt8.toNat_inj (b := 0)).symm
    rw [hafter]
    refine and_congr_left fun _ => ⟨fun hfit => ⟨?_, fun _ n' hn' => ?_⟩, fun hfit => ?_⟩
    · rintro (hdci | hdci)
      · exact absurd hdci.1 haa
      · exact absurd hdci.1 haa
    · rw [hn] at hn'
      cases hn'
      rw [← hlen]
      exact hfit
    · rw [hlen]
      exact hfit.2 hbb nofCell hn

/-- A call that fails changes no cell, and its bytes ask for none. -/
theorem fits_of_rejected {k : ℕ} (hcut : ¬ CutConfig (ofList d) k d.length)
    {upd : Option DciUpdate} (hr : recvBuffer (ofList d) k d.length = some (-1, upd))
    (configured : Bool) : UpdatesFit configured upd.toList ∧ CellBytesFit d k configured := by
  have hspans : ∀ n, ¬ RecordSpans d k n := by
    intro n hn
    obtain ⟨upd', hr'⟩ := recvBuffer_of_spans hn
    rw [hr'] at hr
    simp only [Option.some.injEq, Prod.mk.injEq] at hr
    omega
  have hbb : ¬ Holds (ofList d) k (List.replicate 4 0xBB) := by
    intro hbb
    by_cases hlen : d.length ≤ k+4
    · exact hcut ⟨hbb, Or.inl hlen⟩
    obtain ⟨nofCell, hn⟩ := Option.isSome_iff_exists.mp (ofList_readable d (k+4) (by omega))
    by_cases hle : k+5+2*nofCell.toNat ≤ d.length
    · exact hspans _ (.config hbb hn hle)
    · exact hcut ⟨hbb, Or.inr ⟨nofCell, hn, by omega⟩⟩
  have hdci : ¬ (CompleteDci (ofList d) k d.length ∨ UnknownVersion (ofList d) k d.length) := by
    rintro (⟨haa, hv, ulDl, hul, hle⟩ | hu)
    · exact hspans _ (.dci haa hv hul hle)
    · exact hspans _ (.unknownVersion hu)
  refine ⟨?_, fun h => absurd h hdci, fun h => absurd h hbb⟩
  cases upd with
  | none => trivial
  | some u =>
    by_cases haa : Holds (ofList d) k (List.replicate 4 0xAA)
    · exact absurd (caInsert_of_dci (ofList_readable d) haa hr).1 hdci
    · obtain ⟨_, hnone | hexit⟩ := recvBuffer_of_other haa hbb hr
      · cases hnone
      · cases hexit
        trivial

/-- The updates of the loop from a walked boundary on fit when the bytes do. -/
theorem updatesFit_recvLoop (hd : d ≠ []) (hcut : NothingCut d)
    (hfit : ∀ k configured, WalkedTo d k configured → CellBytesFit d k configured)
    (fuel : ℕ) : ∀ k configured, WalkedTo d k configured →
      UpdatesFit configured (recvLoop (ofList d) d.length fuel k).1 := by
  induction fuel with
  | zero => exact fun _ _ _ => trivial
  | succ fuel ih =>
    intro k configured hk
    rcases recvBuffer_at_start hd hcut hk.recordStart with ⟨upd, hr⟩ | ⟨n, upd, hn, hr⟩
    · simp only [recvLoop, hr]
      rw [if_pos (by decide)]
      exact (fits_of_rejected (hcut k hk.recordStart).2 hr configured).1
    · have hle := hn.le
      have hhere := fun us => (updatesFit_cons_of_spans hn hr configured us).mpr
      simp only [recvLoop, hr]
      rw [if_neg (by omega)]
      split_ifs with h1
      · exact hhere [] ⟨hfit k configured hk, trivial⟩
      · rw [Int.toNat_natCast]
        exact hhere _ ⟨hfit k configured hk, ih _ _ (hk.next hn (by omega))⟩

/-- Fitting updates leave fitting ones from every walked boundary on. -/
theorem updatesFit_at_walked (hd : d ≠ [])
    (hall : UpdatesFit true (recvLoop (ofList d) d.length (d.length+1) 0).1) {k : ℕ}
    {configured : Bool} (hk : WalkedTo d k configured) :
    ∃ fuel, d.length < fuel+k ∧
      UpdatesFit configured (recvLoop (ofList d) d.length fuel k).1 := by
  induction hk with
  | first => exact ⟨d.length+1, by omega, hall⟩
  | @next k n configured hk hn hlt ih =>
    obtain ⟨fuel, hfuel, hfit⟩ := ih
    have hklt := hk.recordStart.lt hd
    obtain ⟨fuel, rfl⟩ : ∃ f, fuel = f+1 := ⟨fuel-1, by omega⟩
    obtain ⟨upd, hr⟩ := recvBuffer_of_spans hn
    have hpos := hn.pos
    simp only [recvLoop, hr] at hfit
    rw [if_neg (by omega), if_neg (by omega), Int.toNat_natCast] at hfit
    exact ⟨fuel, by omega, ((updatesFit_cons_of_spans hn hr configured _).mp hfit).2⟩

/-- The updates of an uncut datagram fit exactly when its bytes do. -/
theorem updatesFit_datagram_iff (hd : d ≠ []) (hcut : NothingCut d) :
    UpdatesFit true (recvLoop (ofList d) d.length (d.length+1) 0).1 ↔
      ∀ k configured, WalkedTo d k configured → CellBytesFit d k configured := by
  refine ⟨fun hall k configured hk => ?_,
    fun hfit => updatesFit_recvLoop hd hcut hfit _ 0 true .first⟩
  obtain ⟨fuel, hfuel, hfit⟩ := updatesFit_at_walked hd hall hk
  have hklt := hk.recordStart.lt hd
  obtain ⟨fuel, rfl⟩ : ∃ f, fuel = f+1 := ⟨fuel-1, by omega⟩
  rcases recvBuffer_at_start hd hcut hk.recordStart with ⟨upd, hr⟩ | ⟨n, upd, hn, hr⟩
  · exact (fits_of_rejected (hcut k hk.recordStart).2 hr configured).2
  · have hhere := fun us => (updatesFit_cons_of_spans hn hr configured us).mp
    simp only [recvLoop, hr] at hfit
    rw [if_neg (by omega)] at hfit
    split_ifs at hfit with h1
    · exact (hhere [] hfit).1
    · exact (hhere _ hfit).1

end

/-! ### The whole datagram -/

/-- The parse of `d` uses no byte but its own: stale bytes behind it make no difference,
every call reads inside it and either fails or moves on inside it, the loop ends, and from
every state with one to four cells its updates stay inside the tables. -/
structure ParsesOwnBytes (d : List UInt8) : Prop where
  stale_irrelevant : ∀ stale stale' : List UInt8,
    recvDatagram (d ++ stale) d.length = recvDatagram (d ++ stale') d.length
  reads_inside : ∀ (stale : List UInt8) (k : ℕ), LoopCall (ofList (d ++ stale)) d.length k →
    ∃ ret upd, recvBuffer (ofList d) k d.length = some (ret, upd) ∧
      (ret < 0 ∨ (k:ℤ) < ret ∧ ret ≤ d.length)
  finishes : ∀ stale : List UInt8, (recvDatagram (d ++ stale) d.length).2 ≠ none
  defined : ∀ (stray : NgscopeDciCell → ℤ → UeDci) (stale : List UInt8) (s : RecvState),
    CellTable s → ∃ t, run (applyUpdate stray) s (recvDatagram (d ++ stale) d.length).1 = some t

/-- The parse of a datagram depends on its own bytes alone, and is defined, exactly when
none of its records is a preamble or a CONFIG that runs past its end and the cell bytes of
all of them fit the tables. -/
theorem parses_own_bytes_iff (d : List UInt8) (hd : d ≠ []) :
    ParsesOwnBytes d ↔ NothingCut d ∧
      ∀ k configured, WalkedTo d k configured → CellBytesFit d k configured := by
  constructor
  · intro h
    have hcut : NothingCut d := by
      intro k hk
      -- the loop calls at every record start, and there a cut record reads past the end
      obtain ⟨ret, upd, hr, _⟩ := h.reads_inside [] k (loopCall_of_recordStart hk)
      refine ⟨fun hc => ?_, fun hc => ?_⟩
      · rw [recvBuffer_of_cutPreamble (hk.lt hd) hc] at hr
        cases hr
      · rw [recvBuffer_of_cutConfig hc] at hr
        cases hr
    refine ⟨hcut, (updatesFit_datagram_iff hd hcut).mp ?_⟩
    rw [← recvDatagram_stale hd hcut []]
    exact (updates_defined_iff (fun _ _ => UeDci.zero) _).mp (h.defined _ [])
  · rintro ⟨hcut, hfit⟩
    refine ⟨fun stale stale' => ?_, fun stale k hk => ?_, fun stale => ?_, fun stray stale => ?_⟩
    · rw [recvDatagram_stale hd hcut, recvDatagram_stale hd hcut]
    · rcases recvBuffer_at_start hd hcut (recordStart_of_loopCall hd hcut stale hk) with
        ⟨upd, hr⟩ | ⟨n, upd, hn, hr⟩
      · exact ⟨-1, upd, hr, Or.inl (by decide)⟩
      · have hpos := hn.pos
        have hle := hn.le
        exact ⟨_, _, hr, Or.inr ⟨by omega, by omega⟩⟩
    · rw [recvDatagram_stale hd hcut]
      exact recvLoop_finishes hd hcut _ 0 .first (by omega)
    · rw [recvDatagram_stale hd hcut]
      exact (updates_defined_iff stray _).mpr ((updatesFit_datagram_iff hd hcut).mpr hfit)

/-- The length of a record is what its call returns. -/
theorem RecordSpans.unique {d : List UInt8} {k n : ℕ} (h : RecordSpans d k n) {ret : ℤ}
    {upd : Option DciUpdate} (hr : recvBuffer (ofList d) k d.length = some (ret, upd)) :
    ret = k+n := by
  obtain ⟨upd', hr'⟩ := recvBuffer_of_spans h
  rw [hr'] at hr
  cases hr
  exact Nat.cast_add k n

/-- A CONFIG for two cells, a DCI of both directions for the second and one of an unknown
version for the first. -/
theorem parses_own_bytes_config_two_dcis :
    ParsesOwnBytes [0xBB, 0xBB, 0xBB, 0xBB, 2, 50, 0, 100, 0,
      0xAA, 0xAA, 0xAA, 0xAA, 0, 0, 0, 0, 9, 0, 0, 0, 0, 7, 0, 1, 3, 0, 0, 0, 1, 0, 1, 0, 0, 2, 0,
      0xAA, 0xAA, 0xAA, 0xAA, 1, 0, 0, 0, 10, 0, 0, 0, 0, 8, 0, 0] := by
  generalize hd : [0xBB, 0xBB, 0xBB, 0xBB, (2 : UInt8), 50, 0, 100, 0,
      0xAA, 0xAA, 0xAA, 0xAA, 0, 0, 0, 0, 9, 0, 0, 0, 0, 7, 0, 1, 3, 0, 0, 0, 1, 0, 1, 0, 0, 2, 0,
      0xAA, 0xAA, 0xAA, 0xAA, 1, 0, 0, 0, 10, 0, 0, 0, 0, 8, 0, 0] = d
  have hlen : d.length = 52 := by rw [← hd]; rfl
  have h0 : ∃ upd, recvBuffer (ofList d) 0 d.length = some (9, upd) := by
    subst hd
    exact ⟨_, rfl⟩
  have h9 : ∃ upd, recvBuffer (ofList d) 9 d.length = some (36, upd) := by
    subst hd
    exact ⟨_, rfl⟩
  have h36 : ∃ upd, recvBuffer (ofList d) 36 d.length = some (52, upd) := by
    subst hd
    exact ⟨_, rfl⟩
  -- the boundaries are 0, 9 and 36, and a cell is configured at each
  have hwalk : ∀ k configured, WalkedTo d k configured →
      configured = true ∧ (k = 0 ∨ k = 9 ∨ k = 36) := by
    intro k configured hk
    induction hk with
    | first => exact ⟨rfl, Or.inl rfl⟩
    | @next k n configured _ hn hlt ih =>
      obtain ⟨rfl, rfl | rfl | rfl⟩ := ih
      · obtain ⟨_, h0⟩ := h0
        have hend := hn.unique h0
        exact ⟨by subst hd; rfl, Or.inr (Or.inl (by omega))⟩
      · obtain ⟨_, h9⟩ := h9
        have hend := hn.unique h9
        exact ⟨by subst hd; rfl, Or.inr (Or.inr (by omega))⟩
      · obtain ⟨_, h36⟩ := h36
        have hend := hn.unique h36
        omega
  have hne (k : ℕ) (x y : UInt8) (hxy : x ≠ y) (hx : ofList d k = some x) :
      ¬ Holds (ofList d) k (List.replicate 4 y) := by
    intro h
    rw [holds_replicate_first h] at hx
    exact hxy (Option.some.inj hx).symm
  refine (parses_own_bytes_iff d (by subst hd; decide)).mpr ⟨fun k hk => ?_, fun k b hk => ?_⟩
  · obtain ⟨b, hk⟩ := hk.walked
    have hk := (hwalk k b hk).2
    refine ⟨?_, ?_⟩
    · rintro ⟨_, _, j, hj, _, hj'⟩
      omega
    · rintro ⟨hbb, hcut⟩
      obtain rfl | rfl | rfl := hk
      · rcases hcut with hcut | ⟨n, hn, hcut⟩
        · omega
        · subst hd
          cases hn
          exact absurd hcut (by decide)
      · exact hne 9 0xAA 0xBB (by decide) (by subst hd; rfl) hbb
      · exact hne 36 0xAA 0xBB (by decide) (by subst hd; rfl) hbb
  · obtain ⟨rfl, rfl | rfl | rfl⟩ := hwalk k b hk
    · have haa := hne 0 0xBB 0xAA (by decide) (by subst hd; rfl)
      refine ⟨fun h => absurd (h.elim (fun h => h.1) (fun h => h.1)) haa, fun _ n hn => ?_⟩
      subst hd
      cases hn
      decide
    · have hbb := hne 9 0xAA 0xBB (by decide) (by subst hd; rfl)
      refine ⟨fun _ => ⟨rfl, fun c hc => ?_⟩, fun h => absurd h hbb⟩
      subst hd
      cases hc
      decide
    · have hbb := hne 36 0xAA 0xBB (by decide) (by subst hd; rfl)
      refine ⟨fun _ => ⟨rfl, fun c hc => ?_⟩, fun h => absurd h hbb⟩
      subst hd
      cases hc
      decide

/-- A CONFIG for one cell whose PRB was not sent takes it from the bytes left behind. -/
theorem cut_config_reads_stale_bytes : ¬ ∀ d : List UInt8, d ≠ [] → ParsesOwnBytes d := by
  intro hall
  have h := (hall [0xBB, 0xBB, 0xBB, 0xBB, 1] (by decide)).stale_irrelevant [50, 0] [100, 0]
  exact absurd h (by decide)

end CopaNgscope
