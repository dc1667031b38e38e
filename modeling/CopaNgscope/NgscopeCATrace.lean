import CopaNgscope.NgscopeCAWindow

/-! The trace over the carrier aggregation window: its lookups and array accesses, and over
runs of inserts when the window holds what they need. -/
namespace CopaNgscope
open RunInvariant RingLog CircularDistance

/-! ### Indices into the trace -/

theorem ttiToIdx_eq {tti tailTti : UInt16} (h : tti.toNat < maxTti) (ht : tailTti.toNat < maxTti) :
    ttiToIdx tti tailTti = cdist maxTti tailTti.toNat tti.toNat := by
  unfold ttiToIdx cdist
  unfold maxTti at *
  rw [Int.tmod_eq_emod_of_nonneg (by omega), UInt16.ofInt]
  simp only [UInt16.toNat_ofNat']
  omega

/-- The trace has room for every TTI of the window. -/
theorem cdist_lt_ttiDistance {start finish : UInt16} (hs : start.toNat < maxTti)
    (hf : finish.toNat < maxTti) :
    cdist maxTti start.toNat finish.toNat < (ttiDistance start finish).toNat := by
  unfold ttiDistance cdist
  unfold maxTti at *
  split_ifs with h
  · rw [UInt16.lt_iff_toNat_lt] at h
    omega
  · rw [UInt16.lt_iff_toNat_lt] at h
    omega

theorem mem_indexRange {a b j : ℤ} (h : j ∈ indexRange a b) : a ≤ j ∧ j ≤ b := by
  obtain ⟨k, hk, rfl⟩ := List.mem_map.mp h
  have := List.mem_range.mp hk
  omega

/-! ### One cell -/

/-- What the extraction of a cell lists, as TTIs. -/
theorem extract_tti (q : NgscopeDciCA) (i : ℕ) :
    (firstEntries (ngscopeDciExtractSingleCell q i).tti
      (ngscopeDciExtractSingleCell q i).nofDci).map UInt16.toNat = (q.cellDci i).ttis := by
  obtain ⟨hlists, hnof⟩ := extract_single_cell_lists q i
  rw [hnof, ← NgscopeDciCell.length_log, hlists.tti_eq, List.map_map]
  rfl

/-- A TTI that is logged is found, at an index that holds it. -/
theorem findTti_of_mem {d : NgscopeDci} {tti : UInt16}
    (h : tti.toNat ∈ (firstEntries d.tti d.nofDci).map UInt16.toNat) :
    ∃ k, findTti d tti = ((k : ℕ) : ℤ) ∧ k < d.nofDci ∧ d.tti k = tti := by
  have hmem : tti ∈ firstEntries d.tti d.nofDci := by
    obtain ⟨x, hx, hxt⟩ := List.mem_map.mp h
    rwa [← UInt16.toNat_inj.mp hxt]
  have hlt := List.idxOf_lt_length_of_mem hmem
  refine ⟨_, if_pos hmem, by rwa [length_firstEntries] at hlt, ?_⟩
  have hget := List.getElem_idxOf hlt
  rwa [getElem_firstEntries] at hget

theorem getElem_firstEntries_map {d : NgscopeDci} {xs : List ℕ}
    (hxs : (firstEntries d.tti d.nofDci).map UInt16.toNat = xs) {k : ℕ} (hk : k < xs.length) :
    xs[k] = (d.tti k).toNat := by
  subst hxs
  rw [List.getElem_map, getElem_firstEntries]

/-- With consecutive TTIs and both ends of the window in the log, the copy loop of a cell
stays inside its arrays. -/
theorem extractCaCell_defined {d : NgscopeDci} {nofCell : ℕ} {headerTti tailTti : UInt16}
    {xs : List ℕ} (hxs : (firstEntries d.tti d.nofDci).map UInt16.toNat = xs)
    (hcons : Consecutive maxTti xs) (hlen : xs.length ≤ nofLogDci) (hh : headerTti.toNat ∈ xs)
    (ht : tailTti.toNat ∈ xs) {res : NgscopeReTxCa}
    (hsize : res.size = (ttiDistance tailTti headerTti).toNat) :
    ∃ res', extractCaCell d nofCell headerTti tailTti res = some res' ∧
      res'.size = (ttiDistance tailTti headerTti).toNat := by
  have hn : 0 < maxTti := by decide
  have hhlt := hcons.lt _ hh
  have htlt := hcons.lt _ ht
  obtain ⟨ss, hss, hsslt, hsstti⟩ := findTti_of_mem (by rw [hxs]; exact ht)
  obtain ⟨ee, hee, heelt, heetti⟩ := findTti_of_mem (by rw [hxs]; exact hh)
  have hnof : d.nofDci = xs.length := by rw [← hxs, List.length_map, length_firstEntries]
  cases hcase : xs with
  | nil =>
    rw [hcase] at ht
    cases ht
  | cons o ys =>
    -- in a log of consecutive TTIs the index of an entry is its distance from the oldest
    have hpos (k : ℕ) (hk : k < d.nofDci) : cdist maxTti o (d.tti k).toNat = k := by
      have hk' : k < xs.length := by omega
      rw [← getElem_firstEntries_map hxs hk']
      subst hcase
      exact hcons.cdist_getElem (by unfold nofLogDci maxTti at *; omega) k hk'
    have hposs := hpos ss hsslt
    have hpose := hpos ee heelt
    rw [hsstti] at hposs
    rw [heetti] at hpose
    rw [extractCaCell, hss, hee]
    refine run_all_invariant (extractCaEntry d nofCell tailTti) (fun j => (ss:ℤ) ≤ j ∧ j ≤ ee)
      (fun res => res.size = (ttiDistance tailTti headerTti).toNat) ?_ _ res hsize
      (fun j hj => mem_indexRange hj)
    rintro res j hres ⟨hj0, hj1⟩
    obtain ⟨k, rfl⟩ : ∃ k : ℕ, j = k := ⟨j.toNat, by omega⟩
    have hk : k < d.nofDci := by omega
    have hkpos := hpos k hk
    have hkxs : (d.tti k).toNat ∈ xs := by
      rw [← getElem_firstEntries_map hxs (show k < xs.length by omega)]
      exact List.getElem_mem _
    have hidx : ttiToIdx (d.tti k) tailTti < res.size := by
      have hkt := cdist_of_le hn (show cdist maxTti o tailTti.toNat ≤
        cdist maxTti o (d.tti k).toNat by omega)
      have hht := cdist_of_le hn (show cdist maxTti o tailTti.toNat ≤
        cdist maxTti o headerTti.toNat by omega)
      have hroom := cdist_lt_ttiDistance htlt hhlt
      rw [ttiToIdx_eq (hcons.lt _ hkxs) htlt, hres]
      omega
    rw [extractCaEntry, if_pos ⟨by omega, by omega⟩, Int.toNat_natCast]
    simp only
    rw [if_pos hidx]
    exact ⟨_, rfl, hres⟩

/-! ### All cells -/

/-- What the window must give: its TTIs are in every log, both ends are found in every cell,
and the trace is built without an access outside an array. -/
structure WindowRight (q : NgscopeDciCA) : Prop where
  covered : WindowCovered q q.tail q.header
  found : ∀ (buf : ℕ → NgscopeDci), ∀ i < q.nofCell,
    0 ≤ findTti (ngscopeDciExtractMultiCell buf q i) (UInt16.ofNat q.tail) ∧
      0 ≤ findTti (ngscopeDciExtractMultiCell buf q i) (UInt16.ofNat q.header)
  traced : ∀ buf : ℕ → NgscopeDci,
    (extractCaTrace (ngscopeDciExtractMultiCell buf q) q.nofCell).isSome

/-- Coverage is all the trace needs. -/
theorem windowRight_of_covered {q : NgscopeDciCA} (hpos : 1 ≤ q.nofCell)
    (hcons : ∀ cell ∈ q.cells, Consecutive maxTti cell.ttis) (htail : q.tail < maxTti)
    (hheader : q.header < maxTti) (hcov : WindowCovered q q.tail q.header) : WindowRight q := by
  have htail' : (UInt16.ofNat q.tail).toNat = q.tail :=
    UInt16.toNat_ofNat_of_lt' (lt_trans htail (by decide))
  have hheader' : (UInt16.ofNat q.header).toNat = q.header :=
    UInt16.toNat_ofNat_of_lt' (lt_trans hheader (by decide))
  -- coverage puts both ends of the window in every cell's log
  have htt (i : ℕ) (hi : i < q.nofCell) : q.tail ∈ (q.cellDci i).ttis :=
    hcov _ (mem_cells_of_lt hi) _ htail (by rw [cdist_self]; exact Nat.zero_le _)
  have hht (i : ℕ) (hi : i < q.nofCell) : q.header ∈ (q.cellDci i).ttis :=
    hcov _ (mem_cells_of_lt hi) _ hheader le_rfl
  have hextract (buf : ℕ → NgscopeDci) (i : ℕ) (hi : i < q.nofCell) :
      ngscopeDciExtractMultiCell buf q i = ngscopeDciExtractSingleCell q i := if_pos hi
  refine ⟨hcov, fun buf i hi => ?_, fun buf => ?_⟩
  · rw [hextract buf i hi]
    have htail'' := htt i hi
    have hheader'' := hht i hi
    rw [← extract_tti, ← htail'] at htail''
    rw [← extract_tti, ← hheader'] at hheader''
    obtain ⟨k, hk, _⟩ := findTti_of_mem htail''
    obtain ⟨j, hj, _⟩ := findTti_of_mem hheader''
    omega
  · obtain ⟨hh, ht⟩ := extract_single_cell_header q 0
    rw [extractCaTrace, hextract buf 0 hpos, hh, ht]
    obtain ⟨res, hres, _⟩ := run_all_invariant
      (fun res i => extractCaCell (ngscopeDciExtractMultiCell buf q i) q.nofCell
        (UInt16.ofNat q.header) (UInt16.ofNat q.tail) res)
      (fun i => i < q.nofCell)
      (fun res => res.size =
        (ttiDistance (UInt16.ofNat q.tail) (UInt16.ofNat q.header)).toNat)
      (fun res i hsize hi => by
        rw [hextract buf i hi]
        refine extractCaCell_defined (extract_tti q i) (hcons _ (mem_cells_of_lt hi)) ?_ ?_ ?_ hsize
        · exact (q.cellDci i).length_ttis_le
        · rw [hheader']
          exact hht i hi
        · rw [htail']
          exact htt i hi)
      (List.range q.nofCell) (caTraceStart (UInt16.ofNat q.header) (UInt16.ofNat q.tail)) rfl
      (fun i hi => List.mem_range.mp hi)
    exact Option.isSome_of_eq_some hres

/-! ### What `ca_update_header` computes -/

section
variable (stray : NgscopeDciCell → ℤ → UeDci)

/-- `find_dci_cell_tail` reads the oldest entry, wherever the ring stands. -/
theorem findDciCellTail_eq (cell : NgscopeDciCell) (h : cell.log ≠ []) :
    (findDciCellTail stray cell).toNat = cell.oldestTti := by
  have hlen : 0 < cell.nofLoggedDci := by
    rw [← cell.length_log]
    exact List.length_pos_iff.mpr h
  have hle := cell.nofLoggedDci_le
  have hlt := cell.header_lt
  have hoff : cell.ring.get 0 = cell.dci cell.tailIdx.toNat := by
    unfold Ring.get NgscopeDciCell.tailIdx
    rw [Int.tmod_eq_emod_of_nonneg (by omega)]
    split_ifs with hfull
    · have heq := cell.header_eq hfull
      rw [heq]
      simp [NgscopeDciCell.ring]
    · have hnof : cell.nofLoggedDci = nofLogDci := by
        have : ¬ cell.nofLoggedDci < nofLogDci := hfull
        omega
      rw [hnof, Int.sub_add_cancel]
      rfl
  have hhead : cell.log.head? = some (cell.ring.get 0) := by
    rw [List.head?_eq_getElem?, NgscopeDciCell.log, List.getElem?_eq_getElem
      (by rw [cell.ring.length_contents]; exact hlen), Ring.getElem_contents]
  rw [findDciCellTail, cell.dciAt_of_inDci stray cell.inDci_tailIdx, ← hoff,
    NgscopeDciCell.oldestTti, NgscopeDciCell.ttis, List.headD_eq_head?_getD, List.head?_map, hhead]
  rfl

/-- The tail is one past the numerically largest of the oldest TTIs. -/
theorem caTail_spec {q : NgscopeDciCA} (hpos : 1 ≤ q.nofCell)
    (hlog : ∀ cell ∈ q.cells, cell.log ≠ [])
    (hlt : ∀ cell ∈ q.cells, cell.oldestTti < maxTti) :
    ∃ m ∈ q.cells.map NgscopeDciCell.oldestTti,
      (∀ o ∈ q.cells.map NgscopeDciCell.oldestTti, o ≤ m) ∧
      (wrapTti (maxInArrayUint16V (caTailVec stray q)+1)).toNat = (m+1)%maxTti := by
  have hvec : (caTailVec stray q).map UInt16.toNat = q.cells.map NgscopeDciCell.oldestTti := by
    rw [caTailVec, List.map_map]
    exact List.map_congr_left fun cell hcell => findDciCellTail_eq stray cell (hlog cell hcell)
  have hne : caTailVec stray q ≠ [] := by
    rw [← List.length_pos_iff]
    simpa [caTailVec, NgscopeDciCA.cells] using Nat.lt_of_succ_le hpos
  obtain ⟨hmem, hmax⟩ := maxInArrayUint16V_spec hne
  have hin : (maxInArrayUint16V (caTailVec stray q)).toNat ∈
      q.cells.map NgscopeDciCell.oldestTti := by
    rw [← hvec]
    exact List.mem_map_of_mem hmem
  refine ⟨_, hin, fun o ho => ?_, ?_⟩
  · rw [← hvec] at ho
    obtain ⟨x, hx, rfl⟩ := List.mem_map.mp ho
    exact hmax x hx
  · obtain ⟨cell, hcell, heq⟩ := List.mem_map.mp hin
    have hm := hlt cell hcell
    rw [heq] at hm
    have hsum : (maxInArrayUint16V (caTailVec stray q)+1).toNat =
        (maxInArrayUint16V (caTailVec stray q)).toNat+1 := by
      rw [UInt16.toNat_add, UInt16.toNat_one, Nat.mod_eq_of_lt]
      unfold maxTti at hm
      omega
    rw [toNat_wrapTti, hsum]
    rfl

theorem NgscopeDciCell.oldestTti_mem (cell : NgscopeDciCell) (h : cell.log ≠ []) :
    cell.oldestTti ∈ cell.ttis := by
  unfold oldestTti
  cases hxs : cell.ttis with
  | nil => exact absurd (List.map_eq_nil_iff.mp hxs) h
  | cons o xs => exact List.mem_cons_self

theorem newest_ttis {q : NgscopeDciCA} {ds : List UeDci} (h : NewestDcis q ds) :
    ds.map (fun d => d.tti.toNat) = q.cells.map NgscopeDciCell.newestTti := by
  have hmap := congrArg (List.map (fun o : Option UeDci =>
    (o.map (fun d => d.tti.toNat)).getD 0)) h
  rw [List.map_map, List.map_map] at hmap
  refine Eq.trans ?_ (hmap.symm.trans ?_)
  · rfl
  · refine List.map_congr_left fun cell _ => ?_
    rw [NgscopeDciCell.newestTti, NgscopeDciCell.ttis, List.getLastD_eq_getLast?,
      List.getLast?_map]
    rfl

/-! ### One insert -/

/-- With the ring indices off the wrap an insert makes the window of the logs' overlap exactly
when the tail is right. -/
theorem insert_window_iff {q q' : NgscopeDciCA} {d : UeDci} {c : ℕ} (hready : q.caReady = true)
    (hov : LogsOverlap (q.logDci d c)) (hidx : ∀ cell ∈ (q.logDci d c).cells, cell.header ≠ 0)
    (h : ngscopeDciCAInsert stray q d c = some q') :
    WindowRight q' ↔ TailOk (q.logDci d c) := by
  have hsame := cells_after_insert stray h
  have hupd := updated_of_ready stray hready h
  have hnof := (ngscopeDciCAInsert_cases stray h).2.2.1
  have hpos : 1 ≤ (q.logDci d c).nofCell := hupd.nofCell_pos
  obtain ⟨e, lo, hi, hlohi, harc⟩ := hov.exists_onArc hpos
  have hlog (cell) (hcell : cell ∈ (q.logDci d c).cells) : cell.log ≠ [] :=
    cell.log_ne_nil_of_header (hidx cell hcell)
  have hds := newestDcis_of_header stray (q.logDci d c) hidx
  have hnewest := newest_ttis hds
  -- all newest TTIs are seen from `e` within two logs' lengths, so the header is the oldest
  have hheader : IsOldest maxTti ((q.logDci d c).cells.map NgscopeDciCell.newestTti)
      q'.header := by
    rw [hupd.header_eq, ← hnewest]
    refine caHeader_isOldest stray hpos hidx hds (fun x hx => ?_) ⟨e, fun x hx => ?_⟩
    · rw [hnewest] at hx
      obtain ⟨cell, hcell, rfl⟩ := List.mem_map.mp hx
      exact (harc cell hcell).newest_mem
    · rw [hnewest] at hx
      obtain ⟨cell, hcell, rfl⟩ := List.mem_map.mp hx
      have := (harc cell hcell).newest_lt
      unfold nofLogDci maxTti at *
      omega
  obtain ⟨m, hm, hmax, htail⟩ := caTail_spec stray hpos hlog (fun cell hcell =>
    (hov.consecutive cell hcell).lt _ (cell.oldestTti_mem (hlog cell hcell)))
  rw [← hupd.tail_eq] at htail
  -- the largest oldest TTI is a single value, so `TailOk` is about `m` alone
  have hcov : WindowCovered q' q'.tail q'.header ↔ TailOk (q.logDci d c) := by
    rw [htail, WindowCovered, hsame]
    refine (window_covered_iff harc hlohi hheader hm).trans
      ⟨fun h m' hm' hmax' => ?_, fun h => h m hm hmax⟩
    obtain rfl : m = m' := le_antisymm (hmax' m hm) (hmax m' hm')
    exact h
  refine ⟨fun h => hcov.mp h.covered, fun h => ?_⟩
  refine windowRight_of_covered (by rw [hnof]; exact hpos) ?_ ?_ ?_ (hcov.mpr h)
  · rw [hsame]
    exact hov.consecutive
  · rw [htail]
    exact Nat.mod_lt _ (by decide)
  · rw [hupd.header_eq, toNat_wrapTti]
    exact Nat.mod_lt _ (by decide)

/-- A cell whose ring index is 0 takes its header from outside `dci[]`, and what stands there
can move the window off every log. -/
theorem exists_stray_uncovered {q : NgscopeDciCA} {d : UeDci} {c : ℕ} (hready : q.caReady = true)
    (hov : LogsOverlap (q.logDci d c)) (hpos : 1 ≤ q.nofCell) {bad : NgscopeDciCell}
    (hbad : bad ∈ (q.logDci d c).cells) (hzero : bad.header = 0) :
    ∃ stray, ∀ q', ngscopeDciCAInsert stray q d c = some q' → ¬ WindowRight q' := by
  obtain ⟨e, lo, hi, hlohi, harc⟩ := hov.exists_onArc (q := q.logDci d c) hpos
  obtain ⟨s, hs, hse⟩ := exists_cdist_eq (n := maxTti) (k := 2*nofLogDci) (by decide) e
  have hs16 : (UInt16.ofNat s).toNat = s := UInt16.toNat_ofNat_of_lt' (lt_trans hs (by decide))
  let stray : NgscopeDciCell → ℤ → UeDci := fun _ _ => { UeDci.zero with tti := UInt16.ofNat s }
  refine ⟨stray, fun q' h hright => ?_⟩
  have hsame := cells_after_insert stray h
  have hupd := updated_of_ready stray hready h
  -- seen from `s` every log lies ahead, so `s` is the oldest entry of the header vector
  have hahead (cell) (hcell : cell ∈ (q.logDci d c).cells) (t) (ht : t ∈ cell.ttis) :=
    (harc cell hcell).cdist_of_before hse ((hov.consecutive cell hcell).lt t ht) ht
  have hentry (cell) (_ : cell ∈ (q.logDci d c).cells) :
      (cell.dciAt stray cell.caHeaderIdx).tti.toNat = s ∨
        (cell.dciAt stray cell.caHeaderIdx).tti.toNat ∈ cell.ttis := by
    by_cases hidx : cell.header = 0
    · exact Or.inl (by rw [cell.dciAt_of_header_zero stray hidx]; exact hs16)
    · have hlast := cell.getLast?_log stray hidx
      exact Or.inr (List.mem_map_of_mem (List.mem_of_getLast? hlast))
  have hfar : ∀ x ∈ (caHeaderVec stray (q.logDci d c)).map UInt16.toNat,
      x < maxTti ∧ 2*cdist maxTti s x < maxTti := by
    intro x hx
    rw [caHeaderVec, List.map_map] at hx
    obtain ⟨cell, hcell, rfl⟩ := List.mem_map.mp hx
    rcases hentry cell hcell with heq | hmem
    · rw [Function.comp_apply, heq, cdist_self]
      exact ⟨hs, by decide⟩
    · obtain ⟨hdist, hlt⟩ := hahead cell hcell _ hmem
      rw [Function.comp_apply, hdist]
      refine ⟨(hov.consecutive cell hcell).lt _ hmem, ?_⟩
      unfold nofLogDci maxTti at *
      omega
  have hsmem : s ∈ (caHeaderVec stray (q.logDci d c)).map UInt16.toNat := by
    rw [caHeaderVec, List.map_map]
    refine List.mem_map.mpr ⟨bad, hbad, ?_⟩
    rw [Function.comp_apply, bad.dciAt_of_header_zero stray hzero]
    exact hs16
  have hheader : q'.header = s := by
    have hold := isOldest_wrap_min (fun hnil => by rw [hnil] at hsmem; cases hsmem)
      (fun x hx => (hfar x hx).1) ⟨s, fun x hx => (hfar x hx).2⟩
    rw [← hupd.header_eq] at hold
    exact hold.unique (fun x hx => (hfar x hx).1) ⟨hsmem, fun x hx => (hfar x hx).2⟩
  -- but no log reaches back to `s`
  have hin := hright.covered bad (by rw [hsame]; exact hbad) s hs (by rw [hheader])
  have := (hahead bad hbad s hin).1
  rw [cdist_self] at this
  unfold nofLogDci at this
  omega

/-! ### Runs -/

/-- One to four cells are configured, and inserts go to configured cells. -/
def CAIndices (q : NgscopeDciCA) : CAAction → Prop
  | .config cellPrb => 1 ≤ cellPrb.length ∧ cellPrb.length ≤ maxNofRfDev
  | .insert _ c => c < q.nofCell

/-- What an insert made with `ca_ready` set must give when the logs overlap after it,
whatever a read outside `dci[]` returns. -/
def CAWindowRight (q : NgscopeDciCA) (a : CAAction) (_ : NgscopeDciCA) : Prop :=
  ∀ d c, a = .insert d c → q.caReady = true → LogsOverlap (q.logDci d c) →
    ∀ stray q', ngscopeDciCAInsert stray q d c = some q' → WindowRight q'

/-- When it gives that: no configured ring is left at index 0, and the numerically largest of
the oldest TTIs is at most one step behind the others. -/
def CAWindowOk (q : NgscopeDciCA) : CAAction → Prop
  | .config _ => True
  | .insert d c => q.caReady = true → LogsOverlap (q.logDci d c) →
    (∀ i < q.nofCell, if i = c then (q.cellDci i).header ≠ nofLogDci-1
      else (q.cellDci i).header ≠ 0) ∧ TailOk (q.logDci d c)

theorem window_step_iff {q : NgscopeDciCA} (hpos : 1 ≤ q.nofCell) {d : UeDci} {c : ℕ}
    (hc : c < q.nofCell) :
    (∃ q', ngscopeDciCAInsert stray q d c = some q' ∧ CAWindowRight q (.insert d c) q') ↔
      CAWindowOk q (.insert d c) := by
  have hle := q.nofCell_le
  constructor
  · rintro ⟨_, _, hright⟩ hready hov
    have hidx : ∀ cell ∈ (q.logDci d c).cells, cell.header ≠ 0 := by
      intro cell hcell hzero
      obtain ⟨stray', hbad⟩ := exists_stray_uncovered hready hov hpos hcell hzero
      obtain ⟨q', hq'⟩ := ngscopeDciCAInsert_defined stray' q d (c := c) (by omega) hpos
      exact hbad q' hq' (hright d c rfl hready hov stray' q' hq')
    obtain ⟨q', hq'⟩ := ngscopeDciCAInsert_defined stray q d (c := c) (by omega) hpos
    exact ⟨(header_logDci_iff q d c).mp hidx, (insert_window_iff stray hready hov hidx hq').mp
      (hright d c rfl hready hov stray q' hq')⟩
  · intro hok
    obtain ⟨q', hq'⟩ := ngscopeDciCAInsert_defined stray q d (c := c) (by omega) hpos
    refine ⟨q', hq', ?_⟩
    rintro _ _ ⟨rfl, rfl⟩ hready hov stray' u hu
    obtain ⟨hring, htail⟩ := hok hready hov
    exact (insert_window_iff stray' hready hov ((header_logDci_iff q d c).mpr hring) hu).mpr htail

/-- Along a run of configurations and inserts, the window of every insert is covered, its ends
are found and its trace stays inside the arrays exactly when the condition holds at every
insert. -/
theorem ca_window_run_iff (as : List CAAction)
    (hdom : RunMeets (caStep stray) CAIndices ngscopeDciCAInit as) :
    RunShows (caStep stray) CAWindowRight ngscopeDciCAInit as ↔
      RunMeets (caStep stray) CAWindowOk ngscopeDciCAInit as := by
  refine runShows_iff_runMeets (caStep stray) CAIndices CAWindowOk CAWindowRight
    (fun q => 1 ≤ q.nofCell) (fun q a hq ha => ?_) (fun q a q' hq ha hs _ => ?_) as
    ngscopeDciCAInit (by decide) hdom
  · cases a with
    | config cellPrb =>
      obtain ⟨q', hstep⟩ : ∃ q', q.config cellPrb = some q' := ⟨_, dif_pos ha.2⟩
      exact iff_of_true ⟨q', hstep, fun _ _ h => by cases h⟩ trivial
    | insert d c => exact window_step_iff stray hq ha
  · cases a with
    | config cellPrb =>
      obtain ⟨_, hnof, _⟩ := config_cases hs
      rw [hnof]
      exact ha.1
    | insert d c =>
      obtain ⟨_, _, hnof, _⟩ := ngscopeDciCAInsert_cases stray hs
      rw [hnof]
      exact hq

end

/-! ### Two runs -/

/-- Inserts alone, as actions of a run. -/
def insertActions (ins : List (UeDci × ℕ)) : List CAAction :=
  ins.map (fun x => .insert x.1 x.2)

theorem runMeets_insertActions (stray : NgscopeDciCell → ℤ → UeDci) {ins : List (UeDci × ℕ)}
    {q : NgscopeDciCA} (h : ∀ x ∈ ins, x.2 < q.nofCell) :
    RunMeets (caStep stray) CAIndices q (insertActions ins) := by
  induction ins generalizing q with
  | nil => trivial
  | cons x ins ih =>
    refine ⟨h x List.mem_cons_self, fun t ht => ih fun y hy => ?_⟩
    rw [(ngscopeDciCAInsert_cases stray ht).2.2.1]
    exact h y (List.mem_cons_of_mem x hy)

/-- Inserts leave the number of cells alone, and the last one sets `ca_ready` once no
configured ring is at index 0. -/
theorem run_insertActions {stray : NgscopeDciCell → ℤ → UeDci} {ins : List (UeDci × ℕ)}
    {q q' : NgscopeDciCA} (h : run (caStep stray) q (insertActions ins) = some q')
    (hne : ins ≠ []) :
    q'.nofCell = q.nofCell ∧ ((∀ cell ∈ q'.cells, cell.header ≠ 0) → q'.caReady = true) := by
  induction ins generalizing q with
  | nil => exact absurd rfl hne
  | cons x ins ih =>
    obtain ⟨t, ht, hrest⟩ := Option.bind_eq_some_iff.mp h
    obtain ⟨_, _, hnof, hready⟩ := ngscopeDciCAInsert_cases stray ht
    cases ins with
    | nil =>
      cases hrest
      refine ⟨hnof, fun hidx => ?_⟩
      rcases hready with ⟨_, hr, _⟩ | ⟨_, hr⟩
      · exact hr
      · rw [hr, List.all_eq_true, ← cells_after_insert stray ht]
        exact fun cell hcell => decide_eq_true (hidx cell hcell)
    | cons y ins =>
      obtain ⟨hnof', hready'⟩ := ih hrest (List.cons_ne_nil _ _)
      exact ⟨hnof'.trans hnof, hready'⟩

/-- The DCI of an empty subframe. -/
def emptyDci (tti : UInt16) : UeDci := { UeDci.zero with tti := tti }

instance : DecidablePred TailOk := fun q =>
  inferInstanceAs (Decidable (∀ m ∈ q.cells.map NgscopeDciCell.oldestTti,
    (∀ o ∈ q.cells.map NgscopeDciCell.oldestTti, o ≤ m) →
      ∀ o ∈ q.cells.map NgscopeDciCell.oldestTti,
        cdist maxTti m o ≤ 1 ∨ maxTti ≤ 2*cdist maxTti m o))

/-- The condition on the window also where the logs do not overlap. -/
def CAEndsOk (q : NgscopeDciCA) : CAAction → Prop
  | .config _ => True
  | .insert d c => q.caReady = true →
    (∀ i < q.nofCell, if i = c then (q.cellDci i).header ≠ nofLogDci-1
      else (q.cellDci i).header ≠ 0) ∧ TailOk (q.logDci d c)

instance (q : NgscopeDciCA) : DecidablePred (CAEndsOk q)
  | .config _ => inferInstanceAs (Decidable True)
  | .insert _ _ => inferInstanceAs (Decidable (_ → _ ∧ _))

theorem CAEndsOk.window {q : NgscopeDciCA} {a : CAAction} (h : CAEndsOk q a) : CAWindowOk q a := by
  cases a with
  | config cellPrb => trivial
  | insert d c => exact fun hready _ => h hready

/-- Two cells that log the same three subframes, across the TTI wrap. -/
def bothCellsInserts : List (UeDci × ℕ) :=
  [(emptyDci 10239, 0), (emptyDci 10239, 1), (emptyDci 0, 0), (emptyDci 0, 1), (emptyDci 1, 1),
    (emptyDci 1, 0)]

theorem ca_window_run_both_cells :
    RunShows (caStep fun _ _ => UeDci.zero) CAWindowRight ngscopeDciCAInit
      (.config [50, 50] :: insertActions bothCellsInserts) := by
  have hdom : RunMeets (caStep fun _ _ => UeDci.zero) CAIndices ngscopeDciCAInit
      (.config [50, 50] :: insertActions bothCellsInserts) := by
    refine ⟨⟨by decide, by decide⟩, fun t ht => runMeets_insertActions _ fun x hx => ?_⟩
    rw [(config_cases ht).2.1]
    revert x
    decide
  have hends : RunMeets (caStep fun _ _ => UeDci.zero) CAEndsOk ngscopeDciCAInit
      (.config [50, 50] :: insertActions bothCellsInserts) := by decide +kernel
  exact (ca_window_run_iff _ _ hdom).mpr (hends.mono fun _ _ => CAEndsOk.window)

def tailWrapInserts : List (UeDci × ℕ) :=
  [(emptyDci 0, 1), (emptyDci 10238, 0), (emptyDci 10239, 0), (emptyDci 0, 0), (emptyDci 1, 0)]

/-- Two cells are configured; cell 1 logs TTI 0 and cell 0 logs four TTIs across the wrap. -/
theorem tailWrap_reached {stray : NgscopeDciCell → ℤ → UeDci} {t : NgscopeDciCA}
    (ht : run (caStep stray) ngscopeDciCAInit
      (.config [50, 50] :: insertActions tailWrapInserts) = some t) :
    t.nofCell = 2 ∧ t.caReady = true ∧ (t.cellDci 0).ttis = [10238, 10239, 0, 1] ∧
      (t.cellDci 1).log = [emptyDci 0] := by
  have hlog0 : (t.cellDci 0).log =
      [emptyDci 10238, emptyDci 10239, emptyDci 0, emptyDci 1] :=
    (log_caRun stray ht 0).trans (rtake_of_length_le (by decide))
  have hlog1 : (t.cellDci 1).log = [emptyDci 0] :=
    (log_caRun stray ht 1).trans (rtake_of_length_le (by decide))
  have httis0 : (t.cellDci 0).ttis = [10238, 10239, 0, 1] := by
    rw [NgscopeDciCell.ttis, hlog0]
    rfl
  have hsplit := ht
  rw [run_cons] at hsplit
  obtain ⟨v, hv, hrest⟩ := Option.bind_eq_some_iff.mp hsplit
  obtain ⟨hnof, hready⟩ := run_insertActions hrest (show tailWrapInserts ≠ [] by decide)
  rw [(config_cases (show ngscopeDciCAInit.config [50, 50] = some v from hv)).2.1] at hnof
  refine ⟨hnof, hready fun cell hcell => ?_, httis0, hlog1⟩
  have hheader0 : (t.cellDci 0).header = 4 := by
    rw [(t.cellDci 0).header_of_log (by rw [hlog0]; decide), hlog0]
    rfl
  have hheader1 : (t.cellDci 1).header = 1 := by
    rw [(t.cellDci 1).header_of_log (by rw [hlog1]; decide), hlog1]
    rfl
  rw [NgscopeDciCA.cells, hnof] at hcell
  have hcases : cell = t.cellDci 0 ∨ cell = t.cellDci 1 := by
    simpa [List.range_succ] using hcell
  rcases hcases with rfl | rfl
  · omega
  · omega

/-- Two cells whose logs begin on either side of the TTI wrap: cell 0 holds 10238 to 1 and
cell 1 holds 0 to 1, but the tail is computed as 10239. -/
theorem ca_window_tail_across_wrap :
    ¬ ∀ (stray : NgscopeDciCell → ℤ → UeDci) (as : List CAAction),
      RunMeets (caStep stray) CAIndices ngscopeDciCAInit as →
        RunShows (caStep stray) CAWindowRight ngscopeDciCAInit as := by
  intro hall
  let stray : NgscopeDciCell → ℤ → UeDci := fun _ _ => UeDci.zero
  have htwo : CAIndices ngscopeDciCAInit (.config [50, 50]) := ⟨by decide, by decide⟩
  have hdom : RunMeets (caStep stray) CAIndices ngscopeDciCAInit
      (.config [50, 50] :: insertActions (tailWrapInserts ++ [(emptyDci 1, 1)])) := by
    refine ⟨htwo, fun t ht => runMeets_insertActions stray fun x hx => ?_⟩
    rw [(config_cases ht).2.1]
    revert x
    decide
  rw [insertActions, List.map_append, ← List.cons_append] at hdom
  obtain ⟨t, u, ht, hu, hgood⟩ := (hall stray _ hdom).last
  obtain ⟨hnof, hready, httis0, hlog1⟩ := tailWrap_reached ht
  have hcells : (t.logDci (emptyDci 1) 1).cells =
      [t.cellDci 0, (t.cellDci 1).insert (emptyDci 1)] := by
    rw [NgscopeDciCA.cells, show (t.logDci (emptyDci 1) 1).nofCell = 2 from hnof]
    simp [List.range_succ]
  have httis1 : ((t.cellDci 1).insert (emptyDci 1)).ttis = [0, 1] := by
    rw [NgscopeDciCell.ttis, NgscopeDciCell.log_insert, hlog1]
    rfl
  have hov : LogsOverlap (t.logDci (emptyDci 1) 1) := by
    refine ⟨fun cell hcell => ?_, 0, 1, by decide, fun cell hcell => ?_⟩
    all_goals
      rw [hcells] at hcell
      simp only [List.mem_cons, List.not_mem_nil, or_false] at hcell
    · rcases hcell with rfl | rfl
      · rw [httis0]
        exact ⟨by decide, by decide⟩
      · rw [httis1]
        exact ⟨by decide, by decide⟩
    · rcases hcell with rfl | rfl
      · rw [httis0]
        decide
      · rw [httis1]
        decide
  have hok := (window_step_iff stray (by rw [hnof]; decide) (by rw [hnof]; decide)).mp
    ⟨u, hu, hgood⟩ hready hov
  have hold : (t.logDci (emptyDci 1) 1).cells.map NgscopeDciCell.oldestTti = [10238, 0] := by
    rw [hcells]
    simp [NgscopeDciCell.oldestTti, httis0, httis1]
  -- 10238 is numerically the largest, but TTI 0 lies two steps after it
  have htail := hok.2
  unfold TailOk at htail
  rw [hold] at htail
  exact absurd (htail 10238 (by decide) (by decide) 0 (by decide)) (by decide)

end CopaNgscope
