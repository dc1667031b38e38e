import CopaNgscope.NgscopeDci

/-! The cells of the DCI store are rings, and extraction lists what a ring holds: the
last 1000 DCIs logged for the cell, oldest first. -/
namespace CopaNgscope
open RunInvariant RingLog

/-! ### A cell as a ring -/

def NgscopeDciCell.ring (cell : NgscopeDciCell) : Ring UeDci nofLogDci where
  slots := cell.dci
  head := cell.header
  len := cell.nofLoggedDci
  head_lt := cell.header_lt
  len_le := cell.nofLoggedDci_le
  head_eq := cell.header_eq

/-- The DCIs a cell holds, oldest first. -/
def NgscopeDciCell.log (cell : NgscopeDciCell) : List UeDci := cell.ring.contents

@[simp] theorem NgscopeDciCell.ring_insert (cell : NgscopeDciCell) (d : UeDci) :
    (cell.insert d).ring = cell.ring.push d := rfl

theorem NgscopeDciCell.log_insert (cell : NgscopeDciCell) (d : UeDci) :
    (cell.insert d).log = (cell.log ++ [d]).rtake nofLogDci := by
  rw [log, ring_insert, Ring.contents_push, log]

@[simp] theorem NgscopeDciCell.length_log (cell : NgscopeDciCell) :
    cell.log.length = cell.nofLoggedDci :=
  cell.ring.length_contents

/-! ### What an insert can do -/

section
variable (stray : NgscopeDciCell → ℤ → UeDci)

/-- The header, tail and time after an insert made with `ca_ready` set, read off the
state `q` that `ca_update_header` works on. -/
structure CAHeaderUpdated (q q' : NgscopeDciCA) : Prop where
  nofCell_pos : 0 < q.nofCell
  header_eq : q'.header = (wrapTti (minInArrayUint16V (unwrapTtiArray (caHeaderVec stray q)))).toNat
  tail_eq : q'.tail = (wrapTti (maxInArrayUint16V (caTailVec stray q)+1)).toNat
  currTime_eq : q'.currTime = meanArrayUint64 (caTimeVec stray q)

theorem ngscopeDciCAInsert_cases {q q' : NgscopeDciCA} {d : UeDci} {c : ℕ}
    (h : ngscopeDciCAInsert stray q d c = some q') :
    c < maxNofRfDev ∧ q'.cellDci = (q.logDci d c).cellDci ∧ q'.nofCell = q.nofCell ∧
      ((q.caReady = true ∧ q'.caReady = true ∧ CAHeaderUpdated stray (q.logDci d c) q') ∨
       (q.caReady = false ∧
         q'.caReady = (q.logDci d c).cells.all (fun cell => cell.header ≠ 0))) := by
  unfold ngscopeDciCAInsert caUpdateHeader at h
  split_ifs at h with hc hready hzero
  · cases h
    exact ⟨hc, rfl, rfl, Or.inl ⟨hready, hready, Nat.pos_of_ne_zero hzero, rfl, rfl, rfl⟩⟩
  · cases h
    exact ⟨hc, rfl, rfl, Or.inr ⟨Bool.eq_false_iff.mpr hready, rfl⟩⟩

/-- `ca_update_header` touches no cell. -/
theorem cells_after_insert {q q' : NgscopeDciCA} {d : UeDci} {c : ℕ}
    (h : ngscopeDciCAInsert stray q d c = some q') : q'.cells = (q.logDci d c).cells := by
  obtain ⟨_, hcells, hnof, _⟩ := ngscopeDciCAInsert_cases stray h
  rw [NgscopeDciCA.cells, hcells, hnof]
  rfl

theorem updated_of_ready {q q' : NgscopeDciCA} {d : UeDci} {c : ℕ} (hready : q.caReady = true)
    (h : ngscopeDciCAInsert stray q d c = some q') :
    CAHeaderUpdated stray (q.logDci d c) q' := by
  obtain ⟨_, _, _, ⟨_, _, hupd⟩ | ⟨hnot, _⟩⟩ := ngscopeDciCAInsert_cases stray h
  · exact hupd
  · rw [hready] at hnot
    cases hnot

theorem mem_cells_of_lt {q : NgscopeDciCA} {i : ℕ} (hi : i < q.nofCell) : q.cellDci i ∈ q.cells :=
  List.mem_map.mpr ⟨i, List.mem_range.mpr hi, rfl⟩

/-- With a cell configured and the index in range an insert is defined. -/
theorem ngscopeDciCAInsert_defined (q : NgscopeDciCA) (d : UeDci) {c : ℕ}
    (hc : c < maxNofRfDev) (hcell : 0 < q.nofCell) :
    ∃ q', ngscopeDciCAInsert stray q d c = some q' := by
  have hne : (q.logDci d c).nofCell ≠ 0 := hcell.ne'
  unfold ngscopeDciCAInsert caUpdateHeader
  rw [if_pos hc]
  split_ifs
  · exact ⟨_, rfl⟩
  · exact ⟨_, rfl⟩

@[simp] theorem logDci_cellDci_self (q : NgscopeDciCA) (d : UeDci) (c : ℕ) :
    (q.logDci d c).cellDci c = (q.cellDci c).insert d := by
  simp [NgscopeDciCA.logDci]

@[simp] theorem logDci_cellDci_of_ne (q : NgscopeDciCA) (d : UeDci) {c i : ℕ} (h : i ≠ c) :
    (q.logDci d c).cellDci i = q.cellDci i := by
  simp [NgscopeDciCA.logDci, h]

/-- A sequence of inserts, each a DCI and the index of its cell. -/
def insertAll (q : NgscopeDciCA) (ins : List (UeDci × ℕ)) : Option NgscopeDciCA :=
  run (fun q x => ngscopeDciCAInsert stray q x.1 x.2) q ins

/-- The DCIs inserted into cell `c`, in order. -/
def cellLog (ins : List (UeDci × ℕ)) (c : ℕ) : List UeDci :=
  (ins.filter (fun x => x.2 = c)).map Prod.fst

theorem cellLog_concat (ins : List (UeDci × ℕ)) (d : UeDci) (i c : ℕ) :
    cellLog (ins ++ [(d,i)]) c = if i = c then cellLog ins c ++ [d] else cellLog ins c := by
  by_cases h : i = c <;> simp [cellLog, List.filter_append, h]

/-- One insert logs the DCI in its own cell and leaves the other cells alone. -/
theorem log_after_insert {q q' : NgscopeDciCA} {d : UeDci} {i : ℕ}
    (h : ngscopeDciCAInsert stray q d i = some q') (c : ℕ) :
    (q'.cellDci c).log =
      if i = c then ((q.cellDci c).log ++ [d]).rtake nofLogDci else (q.cellDci c).log := by
  rw [(ngscopeDciCAInsert_cases stray h).2.1]
  split_ifs with hic
  · subst hic
    rw [logDci_cellDci_self, NgscopeDciCell.log_insert]
  · rw [logDci_cellDci_of_ne q d (Ne.symm hic)]

/-- After any run of inserts a cell holds the last 1000 DCIs of its unbounded log. -/
theorem log_insertAll {ins : List (UeDci × ℕ)} {q : NgscopeDciCA}
    (h : insertAll stray ngscopeDciCAInit ins = some q) (c : ℕ) :
    (q.cellDci c).log = (cellLog ins c).rtake nofLogDci := by
  refine run_history_invariant _ ngscopeDciCAInit
    (fun ins q => (q.cellDci c).log = (cellLog ins c).rtake nofLogDci) ?_ ?_ ins q h
  · simp only [cellLog, List.filter_nil, List.map_nil, List.rtake_nil]
    exact List.length_eq_zero_iff.mp (NgscopeDciCell.length_log _)
  · intro pre x t u _ ht hstep
    rw [log_after_insert stray hstep c, ht, cellLog_concat]
    split_ifs
    · exact rtake_rtake_concat _ _ _
    · rfl

/-- Inserts into existing cells never fail, since the initial state configures one cell. -/
theorem insertAll_defined {ins : List (UeDci × ℕ)} (q : NgscopeDciCA) (hcell : 0 < q.nofCell)
    (hins : ∀ x ∈ ins, x.2 < maxNofRfDev) :
    ∃ q', insertAll stray q ins = some q' ∧ q'.nofCell = q.nofCell := by
  induction ins generalizing q with
  | nil => exact ⟨q, rfl, rfl⟩
  | cons x ins ih =>
    obtain ⟨t, ht⟩ := ngscopeDciCAInsert_defined stray q x.1 (hins x List.mem_cons_self) hcell
    have hcells := (ngscopeDciCAInsert_cases stray ht).2.2.1
    obtain ⟨u, hu, hun⟩ := ih t (by omega) (fun y hy => hins y (List.mem_cons_of_mem x hy))
    exact ⟨u, by simpa [insertAll, ht] using hu, hun.trans hcells⟩

end

/-! ### What extraction lists -/

theorem firstEntries_update {α : Type*} (array : ℕ → α) (n : ℕ) (x : α) :
    firstEntries (Function.update array n x) (n+1) = firstEntries array n ++ [x] := by
  rw [firstEntries, List.range_succ, List.map_append, List.map_singleton, Function.update_self]
  congr 1
  apply List.map_congr_left
  intro i hi
  rw [Function.update_of_ne]
  have := List.mem_range.mp hi
  omega

@[simp] theorem length_firstEntries {α : Type*} (array : ℕ → α) (n : ℕ) :
    (firstEntries array n).length = n := by
  simp [firstEntries]

theorem getElem_firstEntries {α : Type*} (array : ℕ → α) (n k : ℕ)
    (h : k < (firstEntries array n).length) : (firstEntries array n)[k] = array k := by
  simp [firstEntries]

/-- One direction of an extraction lists `w`: all TBS and flags, and the time and TTI of
every entry whose retransmission flag is nonzero. -/
structure UeLinkDci.Lists (q : UeLinkDci) (w : List UeDci) (tbs : UeDci → UInt32)
    (reTx : UeDci → UInt8) (rvFlag : UeDci → Bool) : Prop where
  tbs_eq : firstEntries q.tbs w.length = w.map tbs
  reTx_eq : firstEntries q.reTx w.length = w.map reTx
  rvFlag_eq : firstEntries q.reTxRvFlag w.length = w.map rvFlag
  reTxTUs_eq : firstEntries q.reTxTUs q.nofReTx =
    (w.filter (fun d => reTx d ≠ 0)).map UeDci.timeStamp
  reTxTti_eq : firstEntries q.reTxTti q.nofReTx =
    (w.filter (fun d => reTx d ≠ 0)).map UeDci.tti

/-- An extraction lists `w` in both directions. -/
structure NgscopeDci.Lists (q : NgscopeDci) (w : List UeDci) : Prop where
  tti_eq : firstEntries q.tti w.length = w.map UeDci.tti
  timeStamp_eq : firstEntries q.timeStampUs w.length = w.map UeDci.timeStamp
  dl : q.dlDci.Lists w UeDci.dlTbs UeDci.dlReTx UeDci.dlRvFlag
  ul : q.ulDci.Lists w UeDci.ulTbs UeDci.ulReTx UeDci.ulRvFlag

theorem UeLinkDci.Lists.nofReTx_le {q : UeLinkDci} {w : List UeDci} {tbs : UeDci → UInt32}
    {reTx : UeDci → UInt8} {rvFlag : UeDci → Bool} (h : q.Lists w tbs reTx rvFlag) :
    q.nofReTx ≤ w.length := by
  have hlen := congrArg List.length h.reTxTUs_eq
  rw [length_firstEntries, List.length_map] at hlen
  rw [hlen]
  exact List.length_filter_le _ _

theorem UeLinkDci.Lists.put {q : UeLinkDci} {w : List UeDci} {tbs : UeDci → UInt32}
    {reTx : UeDci → UInt8} {rvFlag : UeDci → Bool} (h : q.Lists w tbs reTx rvFlag) (d : UeDci) :
    (q.put w.length (tbs d) (reTx d) (rvFlag d) d.timeStamp d.tti).Lists (w ++ [d])
      tbs reTx rvFlag := by
  refine ⟨?_, ?_, ?_, ?_, ?_⟩
  · simp [UeLinkDci.put, firstEntries_update, h.tbs_eq]
  · simp [UeLinkDci.put, firstEntries_update, h.reTx_eq]
  · simp [UeLinkDci.put, firstEntries_update, h.rvFlag_eq]
  · by_cases hr : reTx d = 0
    · simpa [UeLinkDci.put, hr, List.filter_append] using h.reTxTUs_eq
    · simpa [UeLinkDci.put, hr, List.filter_append, firstEntries_update] using h.reTxTUs_eq
  · by_cases hr : reTx d = 0
    · simpa [UeLinkDci.put, hr, List.filter_append] using h.reTxTti_eq
    · simpa [UeLinkDci.put, hr, List.filter_append, firstEntries_update] using h.reTxTti_eq

theorem NgscopeDci.Lists.extract {q : NgscopeDci} {w : List UeDci} (h : q.Lists w)
    (cell : NgscopeDciCell) (p : ℕ) :
    (extractSingleDci q cell w.length p).Lists (w ++ [cell.dci p]) := by
  refine ⟨?_, ?_, h.dl.put (cell.dci p), h.ul.put (cell.dci p)⟩
  · simp [extractSingleDci, firstEntries_update, h.tti_eq]
  · simp [extractSingleDci, firstEntries_update, h.timeStamp_eq]

/-- The copy loop, over any sequence `p` of ring slots. -/
theorem extract_loop_lists (q : NgscopeDci) (hq : q.Lists []) (cell : NgscopeDciCell)
    (p : ℕ → ℕ) (n : ℕ) :
    ((List.range n).foldl (fun q i => extractSingleDci q cell i (p i)) q).Lists
        ((List.range n).map (fun i => cell.dci (p i))) ∧
      ((List.range n).foldl (fun q i => extractSingleDci q cell i (p i)) q).nofDci = q.nofDci := by
  induction n with
  | zero => exact ⟨hq, rfl⟩
  | succ n ih =>
    rw [List.range_succ, List.foldl_append, List.map_append, List.foldl_cons, List.foldl_nil,
      List.map_singleton]
    have h := ih.1.extract cell (p n)
    rw [List.length_map, List.length_range] at h
    exact ⟨h, ih.2⟩

/-- Extraction lists exactly what the ring holds, whether it has wrapped or not. -/
theorem extract_single_cell_lists (q : NgscopeDciCA) (c : ℕ) :
    (ngscopeDciExtractSingleCell q c).Lists (q.cellDci c).log ∧
      (ngscopeDciExtractSingleCell q c).nofDci = (q.cellDci c).nofLoggedDci := by
  have hstart : (extractStart q c).Lists [] := ⟨rfl, rfl, ⟨rfl, rfl, rfl, rfl, rfl⟩,
    ⟨rfl, rfl, rfl, rfl, rfl⟩⟩
  unfold ngscopeDciExtractSingleCell
  simp only
  split_ifs with hlt hfull
  · have h := extract_loop_lists _ hstart (q.cellDci c) (fun i => i) (q.cellDci c).nofLoggedDci
    have hlog : (q.cellDci c).log =
        (List.range (q.cellDci c).nofLoggedDci).map (fun i => (q.cellDci c).dci i) := by
      apply List.map_congr_left
      intro i _
      exact if_pos hlt
    rw [hlog]
    exact h
  · have h := extract_loop_lists _ hstart (q.cellDci c)
      (fun i => ((q.cellDci c).header+i)%nofLogDci) (q.cellDci c).nofLoggedDci
    have hlog : (q.cellDci c).log = (List.range (q.cellDci c).nofLoggedDci).map
        (fun i => (q.cellDci c).dci (((q.cellDci c).header+i)%nofLogDci)) := by
      apply List.map_congr_left
      intro i _
      exact if_neg hlt
    rw [hlog]
    exact h
  · have := (q.cellDci c).nofLoggedDci_le
    omega

/-- Extraction copies the header and the tail. -/
theorem extract_single_cell_header (q : NgscopeDciCA) (c : ℕ) :
    (ngscopeDciExtractSingleCell q c).caHeader = q.header ∧
      (ngscopeDciExtractSingleCell q c).caTail = q.tail := by
  have hloop (p : ℕ → ℕ) (is : List ℕ) (e : NgscopeDci) (he : e.caHeader = q.header ∧
      e.caTail = q.tail) :
      (is.foldl (fun q' i => extractSingleDci q' (q.cellDci c) i (p i)) e).caHeader = q.header ∧
        (is.foldl (fun q' i => extractSingleDci q' (q.cellDci c) i (p i)) e).caTail = q.tail := by
    induction is generalizing e with
    | nil => exact he
    | cons i is ih => exact ih _ he
  unfold ngscopeDciExtractSingleCell
  simp only
  split_ifs
  · exact hloop (fun i => i) _ _ ⟨rfl, rfl⟩
  · exact hloop (fun i => ((q.cellDci c).header+i)%nofLogDci) _ _ ⟨rfl, rfl⟩
  · exact ⟨rfl, rfl⟩

/-- The DCI store refines one bounded log per cell: after any inserts, extraction of a
cell lists the last 1000 DCIs inserted into it, and inserts into other cells change nothing. -/
theorem ngscope_dci_ring_refines_log (stray : NgscopeDciCell → ℤ → UeDci)
    (ins : List (UeDci × ℕ)) (hins : ∀ x ∈ ins, x.2 < maxNofRfDev) :
    ∃ q, insertAll stray ngscopeDciCAInit ins = some q ∧
      ∀ c < maxNofRfDev,
        (ngscopeDciExtractSingleCell q c).nofDci = min (cellLog ins c).length nofLogDci ∧
        (ngscopeDciExtractSingleCell q c).Lists ((cellLog ins c).rtake nofLogDci) ∧
        (ngscopeDciExtractSingleCell q c).dlDci.nofReTx ≤
          (ngscopeDciExtractSingleCell q c).nofDci ∧
        (ngscopeDciExtractSingleCell q c).ulDci.nofReTx ≤
          (ngscopeDciExtractSingleCell q c).nofDci ∧
        ∀ others : List (UeDci × ℕ), (∀ x ∈ others, x.2 < maxNofRfDev ∧ x.2 ≠ c) →
          ∃ q', insertAll stray q others = some q' ∧
            (ngscopeDciExtractSingleCell q' c).nofDci =
              (ngscopeDciExtractSingleCell q c).nofDci ∧
            (ngscopeDciExtractSingleCell q' c).Lists ((cellLog ins c).rtake nofLogDci) := by
  obtain ⟨q, hq, hcells⟩ := insertAll_defined stray ngscopeDciCAInit (by decide) hins
  refine ⟨q, hq, fun c _ => ?_⟩
  have hlog := log_insertAll stray hq c
  obtain ⟨hlists, hnof⟩ := extract_single_cell_lists q c
  have hlen : (q.cellDci c).nofLoggedDci = min (cellLog ins c).length nofLogDci := by
    rw [← NgscopeDciCell.length_log, hlog, length_rtake]
  have hdl := hlists.dl.nofReTx_le
  have hul := hlists.ul.nofReTx_le
  rw [NgscopeDciCell.length_log, ← hnof] at hdl hul
  rw [hlog] at hlists
  refine ⟨hnof.trans hlen, hlists, hdl, hul, fun others hothers => ?_⟩
  obtain ⟨q', hq', _⟩ := insertAll_defined stray q
    (by rw [hcells]; decide) (fun x hx => (hothers x hx).1)
  have hrun : insertAll stray ngscopeDciCAInit (ins ++ others) = some q' :=
    (run_append_eq_some _).mpr ⟨q, hq, hq'⟩
  -- to the log of cell `c` the other inserts add nothing
  have hsame : cellLog (ins ++ others) c = cellLog ins c := by
    have hnone : others.filter (fun x => x.2 = c) = [] := by
      rw [List.filter_eq_nil_iff]
      intro x hx
      simpa using (hothers x hx).2
    simp [cellLog, List.filter_append, hnone]
  have hlog' := log_insertAll stray hrun c
  rw [hsame] at hlog'
  obtain ⟨hlists', hnof'⟩ := extract_single_cell_lists q' c
  rw [hlog'] at hlists'
  refine ⟨q', hq', ?_, hlists'⟩
  rw [hnof', hnof, ← NgscopeDciCell.length_log, ← NgscopeDciCell.length_log, hlog, hlog']

/-- Two cells with one DCI each, then another DCI for the second cell. -/
theorem ngscope_dci_ring_refines_log_two_cells :
    ∃ q, insertAll (fun _ _ => UeDci.zero) ngscopeDciCAInit
        [({ UeDci.zero with tti := 5, dlReTx := 1 }, 0), ({ UeDci.zero with tti := 6 }, 1)] =
          some q ∧
      (ngscopeDciExtractSingleCell q 0).nofDci = 1 ∧
      (ngscopeDciExtractSingleCell q 0).Lists [{ UeDci.zero with tti := 5, dlReTx := 1 }] ∧
      ∃ q', insertAll (fun _ _ => UeDci.zero) q [({ UeDci.zero with tti := 7 }, 1)] = some q' ∧
        (ngscopeDciExtractSingleCell q' 0).nofDci = 1 := by
  obtain ⟨q, hq, h⟩ := ngscope_dci_ring_refines_log (fun _ _ => UeDci.zero)
    [({ UeDci.zero with tti := 5, dlReTx := 1 }, 0), ({ UeDci.zero with tti := 6 }, 1)] (by decide)
  obtain ⟨hnof, hlists, _, _, hothers⟩ := h 0 (by decide)
  obtain ⟨q', hq', hnof', _⟩ := hothers [({ UeDci.zero with tti := 7 }, 1)] (by decide)
  have hone : (ngscopeDciExtractSingleCell q 0).nofDci = 1 := hnof
  exact ⟨q, hq, hone, hlists, q', hq', hnof'.trans hone⟩

end CopaNgscope
