import CopaNgscope.NgscopeDciRing

/-! Polling for retransmissions: `copy_dci_data_from_struct` compares the last retransmission of
every cell with the one it saw before, between the inserts of the receive thread. Both sides hold
the mutex, so a run interleaves whole inserts and whole polls. -/
namespace CopaNgscope
open RunInvariant RingLog

/-! ### Polls -/

/-- The loop of `ngscope_dci_new_dl_reTx` and `ngscope_dci_new_ul_reTx` over the cells `is`: the
times last seen, and whether a cell has a new one. A time of 0 is not initialised yet. -/
def ngscopeDciNewReTx (recentReTxTUs : NgscopeDciCell → UInt64) (q : NgscopeDciCA) :
    List ℕ → (ℕ → UInt64) → (ℕ → UInt64) × Bool
  | [], reTxUs => (reTxUs, false)
  | i :: is, reTxUs =>
    if reTxUs i = 0 then
      if recentReTxTUs (q.cellDci i) = 0 then ngscopeDciNewReTx recentReTxTUs q is reTxUs
      else
        ngscopeDciNewReTx recentReTxTUs q is
          (Function.update reTxUs i (recentReTxTUs (q.cellDci i)))
    else if reTxUs i ≠ recentReTxTUs (q.cellDci i) then (reTxUs, true)
    else ngscopeDciNewReTx recentReTxTUs q is reTxUs

def ngscopeDciNewDlReTx (q : NgscopeDciCA) (dlReTxUs : ℕ → UInt64) : (ℕ → UInt64) × Bool :=
  ngscopeDciNewReTx NgscopeDciCell.recentDlReTxTUs q (List.range q.nofCell) dlReTxUs

def ngscopeDciNewUlReTx (q : NgscopeDciCA) (ulReTxUs : ℕ → UInt64) : (ℕ → UInt64) × Bool :=
  ngscopeDciNewReTx NgscopeDciCell.recentUlReTxTUs q (List.range q.nofCell) ulReTxUs

def ngscopeDciCopyReTx (recentReTxTUs : NgscopeDciCell → UInt64) (q : NgscopeDciCA)
    (reTxUs : ℕ → UInt64) : ℕ → UInt64 :=
  fun i => if i < q.nofCell then recentReTxTUs (q.cellDci i) else reTxUs i

def ngscopeDciCopyDlReTx (q : NgscopeDciCA) (dlReTxUs : ℕ → UInt64) : ℕ → UInt64 :=
  ngscopeDciCopyReTx NgscopeDciCell.recentDlReTxTUs q dlReTxUs

def ngscopeDciCopyUlReTx (q : NgscopeDciCA) (ulReTxUs : ℕ → UInt64) : ℕ → UInt64 :=
  ngscopeDciCopyReTx NgscopeDciCell.recentUlReTxTUs q ulReTxUs

/-- The shared structure, and the variables of the packet thread. -/
structure DciPoller where
  dciCa : NgscopeDciCA
  dciAll : ℕ → NgscopeDci
  recentDlReTxUs : ℕ → UInt64
  recentUlReTxUs : ℕ → UInt64
  newDlReTx : Bool
  newUlReTx : Bool
  nofCell : ℕ

def copyDciDataFromStruct (s : DciPoller) : DciPoller :=
  let dl := ngscopeDciNewDlReTx s.dciCa s.recentDlReTxUs
  let ul := ngscopeDciNewUlReTx s.dciCa s.recentUlReTxUs
  { s with
    dciAll := if dl.2 || ul.2 then ngscopeDciExtractMultiCell s.dciAll s.dciCa else s.dciAll
    recentDlReTxUs := if dl.2 then ngscopeDciCopyDlReTx s.dciCa dl.1 else dl.1
    recentUlReTxUs := if ul.2 then ngscopeDciCopyUlReTx s.dciCa ul.1 else ul.1
    newDlReTx := dl.2
    newUlReTx := ul.2
    nofCell := s.dciCa.nofCell }

/-- An insert of the receive thread, or a poll of the packet thread. -/
inductive DciAction
  | insert (ueDci : UeDci) (cellIdx : ℕ)
  | poll
deriving DecidableEq

/-- Both threads start with `nofCell` cells configured and nothing seen; the arrays for the
snapshot hold anything. -/
def dciPollerInit {nofCell : ℕ} (h : nofCell ≤ maxNofRfDev) (dciAll : ℕ → NgscopeDci) :
    DciPoller where
  dciCa := { ngscopeDciCAInit with nofCell := nofCell, nofCell_le := h }
  dciAll := dciAll
  recentDlReTxUs := fun _ => 0
  recentUlReTxUs := fun _ => 0
  newDlReTx := false
  newUlReTx := false
  nofCell := 0

section
variable (stray : NgscopeDciCell → ℤ → UeDci)

def dciPollerStep (s : DciPoller) : DciAction → Option DciPoller
  | .insert ueDci cellIdx =>
    (ngscopeDciCAInsert stray s.dciCa ueDci cellIdx).map fun q => { s with dciCa := q }
  | .poll => some (copyDciDataFromStruct s)

end

/-! ### What one poll does -/

section
variable (recentReTxTUs : NgscopeDciCell → UInt64) (q : NgscopeDciCA)

/-- The time of a cell that the loop does not visit stays. -/
theorem newReTx_of_not_mem {is : List ℕ} {i : ℕ} (hi : i ∉ is) (reTxUs : ℕ → UInt64) :
    (ngscopeDciNewReTx recentReTxTUs q is reTxUs).1 i = reTxUs i := by
  induction is generalizing reTxUs with
  | nil => rfl
  | cons j is ih =>
    obtain ⟨hne, hi⟩ := List.ne_and_not_mem_of_not_mem_cons hi
    rw [ngscopeDciNewReTx]
    split_ifs
    · exact ih hi _
    · rw [ih hi, Function.update_of_ne hne]
    · rfl
    · exact ih hi _

/-- The loop reports when a cell has a time that is initialised and differs. -/
theorem newReTx_eq_true_iff {is : List ℕ} (hnodup : is.Nodup) (reTxUs : ℕ → UInt64) :
    (ngscopeDciNewReTx recentReTxTUs q is reTxUs).2 = true ↔
      ∃ i ∈ is, reTxUs i ≠ 0 ∧ reTxUs i ≠ recentReTxTUs (q.cellDci i) := by
  induction is generalizing reTxUs with
  | nil => simp [ngscopeDciNewReTx]
  | cons j is ih =>
    obtain ⟨hj, hnodup⟩ := List.nodup_cons.mp hnodup
    rw [ngscopeDciNewReTx, List.exists_mem_cons_iff]
    split_ifs with hzero hrecent hnew
    · rw [ih hnodup, or_iff_right (fun h => h.1 hzero)]
    · rw [ih hnodup, or_iff_right (fun h => h.1 hzero)]
      have hupdate (i : ℕ) (hi : i ∈ is) :
          Function.update reTxUs j (recentReTxTUs (q.cellDci j)) i = reTxUs i :=
        Function.update_of_ne (ne_of_mem_of_not_mem hi hj) _ _
      constructor
      · rintro ⟨i, hi, h⟩
        exact ⟨i, hi, by rwa [hupdate i hi] at h⟩
      · rintro ⟨i, hi, h⟩
        exact ⟨i, hi, by rwa [hupdate i hi]⟩
    · exact iff_of_true rfl (Or.inl ⟨hzero, hnew⟩)
    · rw [ih hnodup, or_iff_right (fun h => hnew h.2)]

/-- Without a report every time visited is up to date. -/
theorem newReTx_of_eq_false {is : List ℕ} (hnodup : is.Nodup) {reTxUs : ℕ → UInt64}
    (h : (ngscopeDciNewReTx recentReTxTUs q is reTxUs).2 = false) {i : ℕ} (hi : i ∈ is) :
    (ngscopeDciNewReTx recentReTxTUs q is reTxUs).1 i = recentReTxTUs (q.cellDci i) := by
  induction is generalizing reTxUs with
  | nil => exact absurd hi List.not_mem_nil
  | cons j is ih =>
    obtain ⟨hj, hnodup⟩ := List.nodup_cons.mp hnodup
    rw [ngscopeDciNewReTx] at h ⊢
    split_ifs at h ⊢ with hzero hrecent hnew
    · rcases List.mem_cons.mp hi with rfl | hi
      · rw [newReTx_of_not_mem _ _ hj, hzero, hrecent]
      · exact ih hnodup h hi
    · rcases List.mem_cons.mp hi with rfl | hi
      · rw [newReTx_of_not_mem _ _ hj, Function.update_self]
      · exact ih hnodup h hi
    · rcases List.mem_cons.mp hi with rfl | hi
      · rw [newReTx_of_not_mem _ _ hj]
        exact not_not.mp hnew
      · exact ih hnodup h hi

end

theorem newDlReTx_poll_iff (s : DciPoller) :
    (copyDciDataFromStruct s).newDlReTx = true ↔
      ∃ i < s.dciCa.nofCell, s.recentDlReTxUs i ≠ 0 ∧
        s.recentDlReTxUs i ≠ (s.dciCa.cellDci i).recentDlReTxTUs := by
  refine (newReTx_eq_true_iff _ _ List.nodup_range _).trans ?_
  simp only [List.mem_range]

/-- After a poll every cell has been seen. -/
theorem recentDlReTxUs_poll (s : DciPoller) {i : ℕ} (hi : i < s.dciCa.nofCell) :
    (copyDciDataFromStruct s).recentDlReTxUs i = (s.dciCa.cellDci i).recentDlReTxTUs := by
  unfold copyDciDataFromStruct
  extract_lets dl ul
  cases hdl : dl.2 with
  | true =>
    simp only [if_true, ngscopeDciCopyDlReTx, ngscopeDciCopyReTx, hi]
  | false =>
    exact newReTx_of_eq_false _ _ List.nodup_range hdl (List.mem_range.mpr hi)

/-- A poll that reports copies the logs of all cells. -/
theorem dciAll_poll {s : DciPoller} (h : (copyDciDataFromStruct s).newDlReTx = true) {i : ℕ}
    (hi : i < s.dciCa.nofCell) :
    (copyDciDataFromStruct s).dciAll i = ngscopeDciExtractSingleCell s.dciCa i := by
  have hdl : (ngscopeDciNewDlReTx s.dciCa s.recentDlReTxUs).2 = true := h
  unfold copyDciDataFromStruct
  simp only [hdl, Bool.true_or, if_true]
  exact if_pos hi

/-! ### What has been logged -/

/-- The DCIs inserted into cell `c`, in order. -/
def loggedDci (as : List DciAction) (c : ℕ) : List UeDci :=
  as.filterMap fun
    | .insert d i => if i = c then some d else none
    | .poll => none

/-- A downlink retransmission is among the DCIs inserted into cell `c`. -/
def LogsDlReTx (as : List DciAction) (c : ℕ) : Prop := ∃ d ∈ loggedDci as c, d.dlReTx = 1

/-- The times of the DCIs of a cell are nonzero and increase. -/
def TimesIncrease (ds : List UeDci) : Prop :=
  ds.Pairwise (fun d e => d.timeStamp < e.timeStamp) ∧ ∀ d ∈ ds, d.timeStamp ≠ 0

theorem loggedDci_append (as bs : List DciAction) (c : ℕ) :
    loggedDci (as ++ bs) c = loggedDci as c ++ loggedDci bs c := List.filterMap_append

theorem loggedDci_concat_insert (as : List DciAction) (d : UeDci) (i c : ℕ) :
    loggedDci (as ++ [.insert d i]) c =
      if i = c then loggedDci as c ++ [d] else loggedDci as c := by
  rw [loggedDci_append]
  by_cases h : i = c <;> simp [loggedDci, h]

theorem loggedDci_concat_poll (as : List DciAction) (c : ℕ) :
    loggedDci (as ++ [.poll]) c = loggedDci as c := by
  rw [loggedDci_append]
  exact List.append_nil _

/-- The time of the last downlink retransmission among DCIs, 0 when there is none. -/
def lastDlReTx (ds : List UeDci) : UInt64 :=
  ds.foldl (fun t d => if d.dlReTx = 1 then d.timeStamp else t) 0

theorem lastDlReTx_concat (ds : List UeDci) (d : UeDci) :
    lastDlReTx (ds ++ [d]) = if d.dlReTx = 1 then d.timeStamp else lastDlReTx ds := by
  simp [lastDlReTx, List.foldl_append]

theorem lastDlReTx_cases (ds : List UeDci) :
    lastDlReTx ds = 0 ∨ ∃ d ∈ ds, lastDlReTx ds = d.timeStamp := by
  induction ds using List.reverseRecOn with
  | nil => exact Or.inl rfl
  | append_singleton ds d ih =>
    rw [lastDlReTx_concat]
    split_ifs
    · exact Or.inr ⟨d, by simp, rfl⟩
    · exact ih.imp_right (fun ⟨e, he, h⟩ => ⟨e, List.mem_append_left _ he, h⟩)

/-- With increasing times the last retransmission changes exactly when there is another one. -/
theorem lastDlReTx_append_ne_iff {ds es : List UeDci} (h : TimesIncrease (ds ++ es)) :
    lastDlReTx ds ≠ lastDlReTx (ds ++ es) ↔ ∃ d ∈ es, d.dlReTx = 1 := by
  induction es using List.reverseRecOn with
  | nil => simp
  | append_singleton es e ih =>
    rw [← List.append_assoc] at h ⊢
    obtain ⟨hpairwise, hnonzero⟩ := h
    obtain ⟨hinit, _, hlast⟩ := List.pairwise_append.mp hpairwise
    rw [lastDlReTx_concat]
    split_ifs with hreTx
    · refine iff_of_true (fun heq => ?_) ⟨e, by simp, hreTx⟩
      rcases lastDlReTx_cases ds with hzero | ⟨d, hd, htime⟩
      · exact hnonzero e (by simp) (heq.symm.trans hzero)
      · have hlt := hlast d (List.mem_append_left _ hd) e List.mem_cons_self
        rw [← htime, heq] at hlt
        exact UInt64.lt_irrefl _ hlt
    · rw [ih ⟨hinit, fun d hd => hnonzero d (List.mem_append_left _ hd)⟩]
      constructor
      · rintro ⟨d, hd, h⟩
        exact ⟨d, List.mem_append_left _ hd, h⟩
      · rintro ⟨d, hd, h⟩
        rcases List.mem_append.mp hd with hd | hd
        · exact ⟨d, hd, h⟩
        · exact absurd (List.mem_singleton.mp hd ▸ h) hreTx

theorem lastDlReTx_ne_zero_iff {ds : List UeDci} (h : TimesIncrease ds) :
    lastDlReTx ds ≠ 0 ↔ ∃ d ∈ ds, d.dlReTx = 1 :=
  ne_comm.trans (lastDlReTx_append_ne_iff (show TimesIncrease ([] ++ ds) from h))

/-! ### Runs -/

section
variable (stray : NgscopeDciCell → ℤ → UeDci)

/-- What the store holds after the actions `as`: the cells' last 1000 DCIs, and the times of their
last retransmissions. -/
structure DciPoller.Holds (nofCell : ℕ) (as : List DciAction) (s : DciPoller) : Prop where
  nofCell_eq : s.dciCa.nofCell = nofCell
  log_eq : ∀ c, (s.dciCa.cellDci c).log = (loggedDci as c).rtake nofLogDci
  recent_eq : ∀ c, (s.dciCa.cellDci c).recentDlReTxTUs = lastDlReTx (loggedDci as c)

theorem holds_step {nofCell : ℕ} {as : List DciAction} {s t : DciPoller} {a : DciAction}
    (h : s.Holds nofCell as) (ht : dciPollerStep stray s a = some t) :
    t.Holds nofCell (as ++ [a]) := by
  cases a with
  | poll =>
    cases ht
    refine ⟨h.nofCell_eq, fun c => ?_, fun c => ?_⟩
    · rw [loggedDci_concat_poll]
      exact h.log_eq c
    · rw [loggedDci_concat_poll]
      exact h.recent_eq c
  | insert d i =>
    obtain ⟨q, hq, rfl⟩ := Option.map_eq_some_iff.mp ht
    obtain ⟨_, hcells, hnof, _⟩ := ngscopeDciCAInsert_cases stray hq
    refine ⟨hnof.trans h.nofCell_eq, fun c => ?_, fun c => ?_⟩
    · rw [log_after_insert stray hq c, loggedDci_concat_insert, h.log_eq]
      split_ifs
      · exact rtake_rtake_concat _ _ _
      · rfl
    · rw [loggedDci_concat_insert]
      simp only [hcells]
      split_ifs with hic
      · subst hic
        rw [logDci_cellDci_self, lastDlReTx_concat, ← h.recent_eq]
        rfl
      · rw [logDci_cellDci_of_ne _ _ (Ne.symm hic)]
        exact h.recent_eq c

theorem holds_run {nofCell : ℕ} (hcell : nofCell ≤ maxNofRfDev) (dciAll : ℕ → NgscopeDci)
    {as : List DciAction} {s : DciPoller}
    (h : run (dciPollerStep stray) (dciPollerInit hcell dciAll) as = some s) :
    s.Holds nofCell as := by
  refine run_history_invariant (dciPollerStep stray) (dciPollerInit hcell dciAll)
    (fun as s => s.Holds nofCell as) ⟨rfl, fun c => ?_, fun c => rfl⟩
    (fun _ _ _ _ _ hs hstep => holds_step stray hs hstep) as s h
  rw [show loggedDci [] c = [] from rfl, List.rtake_nil]
  exact List.length_eq_zero_iff.mp (NgscopeDciCell.length_log _)

/-- Inserts leave the packet thread's times alone. -/
theorem recentDlReTxUs_inserts {s t : DciPoller} {ins : List DciAction}
    (hins : ∀ a ∈ ins, a ≠ .poll) (h : run (dciPollerStep stray) s ins = some t) :
    t.recentDlReTxUs = s.recentDlReTxUs := by
  refine run_invariant_of_meets (dciPollerStep stray)
    (fun t => t.recentDlReTxUs = s.recentDlReTxUs) (fun _ a => a ≠ .poll) ?_ rfl
    ((runMeets_actions_iff _ (· ≠ .poll) h).mpr hins) h
  intro r a u hr ha hu
  cases a with
  | poll => exact absurd rfl ha
  | insert d i =>
    obtain ⟨q, _, rfl⟩ := Option.map_eq_some_iff.mp hu
    exact hr

/-- After its last poll the packet thread has seen the last retransmission of every cell. -/
theorem recentDlReTxUs_run {nofCell : ℕ} (hcell : nofCell ≤ maxNofRfDev) (dciAll : ℕ → NgscopeDci)
    {as : List DciAction} (has : as = [] ∨ as.getLast? = some .poll) {s : DciPoller}
    (h : run (dciPollerStep stray) (dciPollerInit hcell dciAll) as = some s) {c : ℕ}
    (hc : c < nofCell) : s.recentDlReTxUs c = lastDlReTx (loggedDci as c) := by
  rcases has with rfl | hlast
  · cases h
    rfl
  · obtain ⟨as, rfl⟩ := List.getLast?_eq_some_iff.mp hlast
    obtain ⟨t, ht, hstep⟩ := (run_concat_eq_some _).mp h
    cases hstep
    have hholds := holds_run stray hcell dciAll ht
    rw [recentDlReTxUs_poll t (by rw [hholds.nofCell_eq]; exact hc), loggedDci_concat_poll]
    exact hholds.recent_eq c

/-- In every interleaving of inserts and polls, a poll reports exactly when some configured cell
has logged a downlink retransmission since the poll before and had logged one before that poll;
and when it reports, the arrays hold the logs of all cells at that instant. -/
theorem dl_reTx_poll_reports_iff {nofCell : ℕ} (hcell : nofCell ≤ maxNofRfDev)
    (dciAll : ℕ → NgscopeDci) {before ins : List DciAction} {s u : DciPoller}
    (hbefore : before = [] ∨ before.getLast? = some .poll) (hins : ∀ a ∈ ins, a ≠ .poll)
    (htimes : ∀ c, TimesIncrease (loggedDci (before ++ ins) c))
    (hs : run (dciPollerStep stray) (dciPollerInit hcell dciAll) (before ++ ins) = some s)
    (hu : dciPollerStep stray s .poll = some u) :
    (u.newDlReTx = true ↔ ∃ c < nofCell, LogsDlReTx ins c ∧ LogsDlReTx before c) ∧
      (u.newDlReTx = true → ∀ c < nofCell,
        u.dciAll c = ngscopeDciExtractSingleCell s.dciCa c ∧
        (u.dciAll c).Lists ((loggedDci (before ++ ins) c).rtake nofLogDci)) := by
  have hholds := holds_run stray hcell dciAll hs
  obtain ⟨t, ht, hrest⟩ := (run_append_eq_some _).mp hs
  cases hu
  have hcells {c : ℕ} (hc : c < nofCell) : c < s.dciCa.nofCell := by rwa [hholds.nofCell_eq]
  refine ⟨?_, fun hreport c hc => ?_⟩
  · rw [newDlReTx_poll_iff, hholds.nofCell_eq]
    refine exists_congr (fun c => and_congr_right (fun hc => ?_))
    have hsplit := htimes c
    rw [loggedDci_append] at hsplit
    -- the time last seen is that of the log at the previous poll, the recent one that of now
    have hpre : TimesIncrease (loggedDci before c) :=
      ⟨(List.pairwise_append.mp hsplit.1).1, fun d hd => hsplit.2 d (List.mem_append_left _ hd)⟩
    rw [recentDlReTxUs_inserts stray hins hrest,
      recentDlReTxUs_run stray hcell dciAll hbefore ht hc, hholds.recent_eq,
      loggedDci_append, lastDlReTx_append_ne_iff hsplit, lastDlReTx_ne_zero_iff hpre]
    exact and_comm
  · have hcopy := dciAll_poll hreport (hcells hc)
    refine ⟨hcopy, ?_⟩
    rw [hcopy, ← hholds.log_eq]
    exact (extract_single_cell_lists s.dciCa c).1

end

/-- A DCI with a downlink retransmission at time `t`. -/
def dlReTxDci (t : UInt64) : UeDci := { UeDci.zero with timeStamp := t, dlReTx := 1 }

/-- One cell, with cleared arrays and cleared records outside of them. -/
def oneCellRun (as : List DciAction) : Option DciPoller :=
  run (dciPollerStep fun _ _ => UeDci.zero)
    (dciPollerInit ngscopeDciCAInit.nofCell_le fun _ => extractStart ngscopeDciCAInit 0) as

theorem dl_reTx_poll_reports_second : ∃ s u,
    oneCellRun [.insert (dlReTxDci 5) 0, .poll, .insert (dlReTxDci 6) 0] = some s ∧
    dciPollerStep (fun _ _ => UeDci.zero) s .poll = some u ∧ u.newDlReTx = true ∧
    ∀ c < 1, u.dciAll c = ngscopeDciExtractSingleCell s.dciCa c ∧
      (u.dciAll c).Lists ((loggedDci ([.insert (dlReTxDci 5) 0, .poll] ++
        [.insert (dlReTxDci 6) 0]) c).rtake nofLogDci) := by
  have hs := (Option.some_get (x := oneCellRun [.insert (dlReTxDci 5) 0, .poll,
    .insert (dlReTxDci 6) 0]) (by decide +kernel)).symm
  have hbefore : [.insert (dlReTxDci 5) 0, .poll] = ([] : List DciAction) ∨
      [DciAction.insert (dlReTxDci 5) 0, .poll].getLast? = some .poll := Or.inr rfl
  have hins : ∀ a ∈ [DciAction.insert (dlReTxDci 6) 0], a ≠ .poll := by simp
  have htimes (c : ℕ) :
      TimesIncrease (loggedDci ([.insert (dlReTxDci 5) 0, .poll] ++ [.insert (dlReTxDci 6) 0]) c) := by
    by_cases hc : 0 = c
    · subst hc
      exact ⟨by decide, by decide⟩
    · simp [loggedDci, TimesIncrease, hc]
  obtain ⟨hreports, hextracted⟩ := dl_reTx_poll_reports_iff (fun _ _ => UeDci.zero) (by decide) _
    hbefore hins htimes hs rfl
  have hnew := hreports.mpr ⟨0, one_pos, ⟨dlReTxDci 6, by decide, rfl⟩, dlReTxDci 5, by decide, rfl⟩
  exact ⟨_, _, hs, rfl, hnew, hextracted hnew⟩

/-- The first retransmission of a cell is not reported: it only sets the time last seen. -/
theorem first_dl_reTx_not_reported :
    LogsDlReTx [.insert (dlReTxDci 5) 0] 0 ∧ TimesIncrease (loggedDci [.insert (dlReTxDci 5) 0] 0) ∧
    (oneCellRun [.insert (dlReTxDci 5) 0, .poll]).map (fun u => u.newDlReTx) = some false :=
  ⟨⟨dlReTxDci 5, by decide, rfl⟩, ⟨by decide, by decide⟩, by decide +kernel⟩

end CopaNgscope
