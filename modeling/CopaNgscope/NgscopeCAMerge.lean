import CopaNgscope.NgscopeCATrace
import CopaNgscope.Scatter

/-! What `extract_ca_trace` puts at each TTI of the window: the merge of the cells' entries for
that TTI, with gaps in the logs and the TTI wrap anywhere inside them. -/
namespace CopaNgscope
open RunInvariant CircularDistance Scatter

/-! ### The loops as accumulations -/

/-- The index of entry `j` in the trace. -/
def traceIdx (d : NgscopeDci) (tailTti : UInt16) (j : ℤ) : ℕ := ttiToIdx (d.tti j.toNat) tailTti

/-- The trace with the entries `js` of one cell added. -/
def addEntries (d : NgscopeDci) (nofCell : ℕ) (tailTti : UInt16) (js : List ℤ)
    (res : NgscopeReTxCa) : NgscopeReTxCa :=
  { res with
    reTx := scatter (· || ·) (traceIdx d tailTti) (fun j => decide (d.dlDci.reTx j.toNat ≠ 0)) js
      res.reTx
    tbs := scatter (· + ·) (traceIdx d tailTti) (fun j => d.dlDci.tbs j.toNat) js res.tbs
    rxTUs := scatter (· + ·) (traceIdx d tailTti)
      (fun j => d.timeStampUs j.toNat/UInt64.ofNat nofCell) js res.rxTUs }

/-- Entry `j` is in the log's array and goes to an index of the trace. -/
def EntryInBounds (d : NgscopeDci) (tailTti : UInt16) (size : ℕ) (j : ℤ) : Prop :=
  0 ≤ j ∧ j < nofLogDci ∧ traceIdx d tailTti j < size

theorem extractCaEntries_eq {d : NgscopeDci} (nofCell : ℕ) {tailTti : UInt16} {js : List ℤ}
    {res : NgscopeReTxCa} (h : ∀ j ∈ js, EntryInBounds d tailTti res.size j) :
    js.foldlM (extractCaEntry d nofCell tailTti) res =
      some (addEntries d nofCell tailTti js res) := by
  induction js generalizing res with
  | nil => rfl
  | cons j js ih =>
    obtain ⟨hj, hrest⟩ := List.forall_mem_cons.mp h
    obtain ⟨hnonneg, hlt, hidx⟩ := hj
    have hentry : extractCaEntry d nofCell tailTti res j =
        some (addEntries d nofCell tailTti [j] res) := by
      rw [extractCaEntry, if_pos ⟨hnonneg, hlt⟩]
      exact if_pos hidx
    rw [List.foldlM_cons, hentry, Option.bind_eq_bind, Option.bind_some]
    exact ih hrest

theorem extractCaCell_eq {d : NgscopeDci} (nofCell : ℕ) {headerTti tailTti : UInt16}
    {res : NgscopeReTxCa}
    (h : ∀ j ∈ indexRange (findTti d tailTti) (findTti d headerTti),
      EntryInBounds d tailTti res.size j) :
    extractCaCell d nofCell headerTti tailTti res =
      some (addEntries d nofCell tailTti
        (indexRange (findTti d tailTti) (findTti d headerTti)) res) :=
  extractCaEntries_eq nofCell h

/-- An entry only adds to the three arrays of values. -/
theorem extractCaEntry_shape {d : NgscopeDci} {nofCell : ℕ} {tailTti : UInt16}
    {res res' : NgscopeReTxCa} {j : ℤ} (h : extractCaEntry d nofCell tailTti res j = some res') :
    res'.tti = res.tti ∧ res'.size = res.size := by
  unfold extractCaEntry at h
  extract_lets index at h
  split at h
  · split at h
    · cases h
      exact ⟨rfl, rfl⟩
    · cases h
  · cases h

/-- The TTIs and the size of the trace are set before the cells are looked at. -/
theorem extractCaTrace_shape {dciAll : ℕ → NgscopeDci} {nofCell : ℕ} {res : NgscopeReTxCa}
    (h : extractCaTrace dciAll nofCell = some res) :
    res.tti = (caTraceStart (UInt16.ofNat (dciAll 0).caHeader)
        (UInt16.ofNat (dciAll 0).caTail)).tti ∧
      res.size = (ttiDistance (UInt16.ofNat (dciAll 0).caTail)
        (UInt16.ofNat (dciAll 0).caHeader)).toNat := by
  set header := UInt16.ofNat (dciAll 0).caHeader with hheader
  set tail := UInt16.ofNat (dciAll 0).caTail with htail
  let Inv (r : NgscopeReTxCa) : Prop :=
    r.tti = (caTraceStart header tail).tti ∧ r.size = (ttiDistance tail header).toNat
  have hentries (i : ℕ) (s : NgscopeReTxCa) (j : ℤ) (t : NgscopeReTxCa) (hs : Inv s)
      (ht : extractCaEntry (dciAll i) nofCell tail s j = some t) : Inv t := by
    obtain ⟨htti, hsize⟩ := extractCaEntry_shape ht
    exact ⟨htti.trans hs.1, hsize.trans hs.2⟩
  have hcell (s : NgscopeReTxCa) (i : ℕ) (t : NgscopeReTxCa) (hs : Inv s)
      (ht : extractCaCell (dciAll i) nofCell header tail s = some t) : Inv t :=
    run_invariant (extractCaEntry (dciAll i) nofCell tail) Inv (hentries i) hs ht
  exact run_invariant (fun s i => extractCaCell (dciAll i) nofCell header tail s) Inv hcell
    (show Inv (caTraceStart header tail) from ⟨rfl, rfl⟩) h

/-! ### One cell at one TTI -/

/-- The TTIs a cell lists, oldest first. -/
def logTtis (d : NgscopeDci) : List ℕ := (firstEntries d.tti d.nofDci).map UInt16.toNat

/-- The entry of a cell for a TTI. -/
def entryAt (d : NgscopeDci) (t : ℕ) : Option ℕ :=
  (List.range d.nofDci).find? (fun j => (d.tti j).toNat = t)

def cellReTx (d : NgscopeDci) (t : ℕ) : Bool :=
  (entryAt d t).any (fun j => decide (d.dlDci.reTx j ≠ 0))

/-- A cell without an entry for the TTI contributes nothing. -/
def cellTbs (d : NgscopeDci) (t : ℕ) : ℕ := (entryAt d t).elim 0 (fun j => (d.dlDci.tbs j).toNat)

theorem length_logTtis (d : NgscopeDci) : (logTtis d).length = d.nofDci := by
  rw [logTtis, List.length_map, length_firstEntries]

theorem getElem_logTtis (d : NgscopeDci) {j : ℕ} (hj : j < (logTtis d).length) :
    (logTtis d)[j] = (d.tti j).toNat :=
  getElem_firstEntries_map rfl hj

/-- A log in circular order, of at most as many TTIs as the array holds, with both ends of the
window. -/
structure CellLists (d : NgscopeDci) (tailTti headerTti : UInt16) : Prop where
  increasing : Increasing maxTti (logTtis d)
  length_le : d.nofDci ≤ nofLogDci
  tail_mem : tailTti.toNat ∈ logTtis d
  header_mem : headerTti.toNat ∈ logTtis d

/-- What the copy loop of a cell relies on besides: the tail is logged before the header. -/
structure CellCovers (d : NgscopeDci) (tailTti headerTti : UInt16) : Prop
    extends CellLists d tailTti headerTti where
  tail_first : findTti d tailTti ≤ findTti d headerTti

/-- The ends of the loop, as indices into the log. -/
theorem CellCovers.exists_ends {d : NgscopeDci} {tailTti headerTti : UInt16}
    (h : CellCovers d tailTti headerTti) :
    ∃ ss ee : ℕ, ss ≤ ee ∧ ee < d.nofDci ∧ d.tti ss = tailTti ∧ d.tti ee = headerTti ∧
      indexRange (findTti d tailTti) (findTti d headerTti) =
        (List.range' ss (ee+1-ss)).map (fun j : ℕ => (j:ℤ)) := by
  obtain ⟨ss, hss, _, hsstti⟩ := findTti_of_mem h.tail_mem
  obtain ⟨ee, hee, heelt, heetti⟩ := findTti_of_mem h.header_mem
  have hle := h.tail_first
  rw [hss, hee] at hle ⊢
  refine ⟨ss, ee, by omega, heelt, hsstti, heetti, ?_⟩
  unfold indexRange
  rw [List.range'_eq_map_range, List.map_map, show ((ee:ℤ)-ss+1).toNat = ee+1-ss by omega]
  exact List.map_congr_left (fun k _ => (Nat.cast_add ss k).symm)

section
variable {d : NgscopeDci} {tailTti headerTti : UInt16} (h : CellCovers d tailTti headerTti)
include h

theorem CellCovers.lt_maxTti {j : ℕ} (hj : j < d.nofDci) : (d.tti j).toNat < maxTti := by
  rw [← length_logTtis] at hj
  rw [← getElem_logTtis d hj]
  exact h.increasing.lt _ (List.getElem_mem hj)

theorem CellCovers.traceIdx_eq {j : ℕ} (hj : j < d.nofDci) :
    traceIdx d tailTti (j:ℤ) = cdist maxTti tailTti.toNat (d.tti j).toNat :=
  ttiToIdx_eq (h.lt_maxTti hj) (h.increasing.lt _ h.tail_mem)

/-- The loop visits the entries of the window. -/
theorem CellCovers.mem_loop_iff {j : ℕ} (hj : j < d.nofDci) :
    (j:ℤ) ∈ indexRange (findTti d tailTti) (findTti d headerTti) ↔
      cdist maxTti tailTti.toNat (d.tti j).toNat ≤
        cdist maxTti tailTti.toNat headerTti.toNat := by
  obtain ⟨ss, ee, hse, hee, hss, hheader, hrange⟩ := h.exists_ends
  have hlen := length_logTtis d
  have hwindow := h.increasing.cdist_le_iff hse (by omega) (show j < (logTtis d).length by omega)
  simp only [getElem_logTtis, hss, hheader] at hwindow
  rw [hwindow, hrange, List.mem_map]
  constructor
  · intro hmem
    obtain ⟨k, hk, hkj⟩ := hmem
    rw [List.mem_range'_1] at hk
    omega
  · intro hin
    exact ⟨j, List.mem_range'_1.mpr (by omega), rfl⟩

/-- Every entry the loop visits has its place in the trace. -/
theorem CellCovers.inBounds {size : ℕ}
    (hsize : cdist maxTti tailTti.toNat headerTti.toNat < size) {j : ℤ}
    (hj : j ∈ indexRange (findTti d tailTti) (findTti d headerTti)) :
    EntryInBounds d tailTti size j := by
  obtain ⟨ss, ee, hse, hee, _, _, hrange⟩ := h.exists_ends
  have hmem := hj
  rw [hrange] at hmem
  obtain ⟨k, hk, rfl⟩ := List.mem_map.mp hmem
  rw [List.mem_range'_1] at hk
  have hlt : k < d.nofDci := by omega
  have hcap := h.length_le
  have hle := (h.mem_loop_iff hlt).mp hj
  refine ⟨by omega, by omega, ?_⟩
  rw [h.traceIdx_eq hlt]
  omega

/-- An entry goes to `k` when its TTI is `k` steps after the tail. -/
theorem CellCovers.traceIdx_eq_iff {k : ℕ} (hk : k < maxTti) {j : ℕ} (hj : j < d.nofDci) :
    traceIdx d tailTti (j:ℤ) = k ↔ (d.tti j).toNat = (tailTti.toNat+k)%maxTti := by
  have hn : 0 < maxTti := by decide
  rw [h.traceIdx_eq hj]
  constructor
  · intro hdist
    have hwalk := add_cdist_mod hn tailTti.toNat (d.tti j).toNat
    rw [hdist, Nat.mod_eq_of_lt (h.lt_maxTti hj)] at hwalk
    exact hwalk.symm
  · intro htti
    rw [htti, cdist_add_right hn, Nat.mod_eq_of_lt hk]

/-- The TTIs of a log are distinct. -/
theorem CellCovers.tti_inj {i j : ℕ} (hi : i < d.nofDci) (hj : j < d.nofDci) :
    (d.tti i).toNat = (d.tti j).toNat ↔ i = j := by
  constructor
  · intro heq
    have hlen := length_logTtis d
    refine h.increasing.getElem_inj (by omega) (by omega) ?_
    rw [getElem_logTtis, getElem_logTtis, heq]
  · rintro rfl
    rfl

/-- At index `k` of the window the loop adds the cell's entry for that TTI, if there is one. -/
theorem CellCovers.filter_eq {k : ℕ} (hk : k ≤ cdist maxTti tailTti.toNat headerTti.toNat) :
    (indexRange (findTti d tailTti) (findTti d headerTti)).filter
        (fun j => traceIdx d tailTti j = k) =
      (entryAt d ((tailTti.toNat+k)%maxTti)).toList.map (fun j : ℕ => (j:ℤ)) := by
  have hn : 0 < maxTti := by decide
  have hklt : k < maxTti := lt_of_le_of_lt hk (cdist_lt hn _ _)
  obtain ⟨ss, ee, hse, hee, _, _, hrange⟩ := h.exists_ends
  have hlt {j : ℕ} (hj : j ∈ List.range' ss (ee+1-ss)) : j < d.nofDci := by
    rw [List.mem_range'_1] at hj
    omega
  rw [hrange, List.filter_map]
  congr 1
  cases hentry : entryAt d ((tailTti.toNat+k)%maxTti) with
  | none =>
    have hnone := List.find?_eq_none.mp hentry
    refine List.filter_eq_nil_iff.mpr (fun j hj hidx => ?_)
    have htti := (h.traceIdx_eq_iff hklt (hlt hj)).mp (of_decide_eq_true hidx)
    exact hnone j (List.mem_range.mpr (hlt hj)) (decide_eq_true htti)
  | some e =>
    unfold entryAt at hentry
    have htti : (d.tti e).toNat = (tailTti.toNat+k)%maxTti := by
      simpa using List.find?_some hentry
    have helt : e < d.nofDci := List.mem_range.mp (List.mem_of_find?_eq_some hentry)
    have hloop : e ∈ List.range' ss (ee+1-ss) := by
      have hmem := (h.mem_loop_iff helt).mpr (by
        rw [htti, cdist_add_right hn, Nat.mod_eq_of_lt hklt]
        exact hk)
      rw [hrange] at hmem
      obtain ⟨i, hi, hie⟩ := List.mem_map.mp hmem
      rwa [← Int.ofNat.inj hie]
    -- so no other entry goes there
    have honly {j : ℕ} (hj : j ∈ List.range' ss (ee+1-ss)) :
        traceIdx d tailTti (j:ℤ) = k ↔ j = e := by
      rw [h.traceIdx_eq_iff hklt (hlt hj), ← htti, h.tti_inj (hlt hj) helt]
    have hcount := List.count_eq_one_of_mem (List.nodup_range' (s := ss) (n := ee+1-ss)) hloop
    calc (List.range' ss (ee+1-ss)).filter _ = (List.range' ss (ee+1-ss)).filter (· == e) :=
          List.filter_congr (fun j hj => decide_eq_decide.mpr (honly hj))
      _ = (some e).toList := by rw [List.filter_beq, hcount]; rfl

end

/-! ### All cells -/

/-- What a merged trace holds at each TTI of the window. -/
structure MergedTrace (dciAll : ℕ → NgscopeDci) (nofCell : ℕ) (tailTti headerTti : UInt16)
    (res : NgscopeReTxCa) : Prop where
  size_eq : res.size = cdist maxTti tailTti.toNat headerTti.toNat+1
  tti_eq : ∀ k < res.size, (res.tti k).toNat = (tailTti.toNat+k)%maxTti
  reTx_eq : ∀ k < res.size, res.reTx k =
    (List.range nofCell).any (fun i => cellReTx (dciAll i) ((tailTti.toNat+k)%maxTti))
  tbs_eq : ∀ k < res.size, (res.tbs k).toNat = ((List.range nofCell).map
    (fun i => cellTbs (dciAll i) ((tailTti.toNat+k)%maxTti))).sum%2^32

theorem foldl_or (bs : List Bool) (b : Bool) : bs.foldl (· || ·) b = (b || bs.any id) := by
  induction bs generalizing b with
  | nil => simp
  | cons x bs ih => rw [List.foldl_cons, ih, List.any_cons, id_eq, Bool.or_assoc]

/-- The loop of a cell, as indices into its log. -/
def cellLoop (d : NgscopeDci) (tailTti headerTti : UInt16) : List ℤ :=
  indexRange (findTti d tailTti) (findTti d headerTti)

/-- The trace with all cells added. -/
def addCells (dciAll : ℕ → NgscopeDci) (nofCell : ℕ) (tailTti headerTti : UInt16) (is : List ℕ)
    (res : NgscopeReTxCa) : NgscopeReTxCa :=
  is.foldl (fun res i => addEntries (dciAll i) nofCell tailTti
    (cellLoop (dciAll i) tailTti headerTti) res) res

/-- Loops that stay inside the arrays add their cells to the trace. -/
theorem foldlM_extractCaCell_of_inBounds {dciAll : ℕ → NgscopeDci} (nofCell : ℕ)
    {tailTti headerTti : UInt16} {is : List ℕ} {res : NgscopeReTxCa}
    (hin : ∀ i ∈ is, ∀ j ∈ cellLoop (dciAll i) tailTti headerTti,
      EntryInBounds (dciAll i) tailTti res.size j) :
    is.foldlM (fun res i => extractCaCell (dciAll i) nofCell headerTti tailTti res) res =
      some (addCells dciAll nofCell tailTti headerTti is res) := by
  induction is generalizing res with
  | nil => rfl
  | cons i is ih =>
    obtain ⟨hcell, hrest⟩ := List.forall_mem_cons.mp hin
    rw [List.foldlM_cons, extractCaCell_eq nofCell hcell, Option.bind_eq_bind, Option.bind_some]
    exact ih hrest

theorem foldlM_extractCaCell_eq {dciAll : ℕ → NgscopeDci} (nofCell : ℕ)
    {tailTti headerTti : UInt16} {is : List ℕ}
    (hcover : ∀ i ∈ is, CellCovers (dciAll i) tailTti headerTti) {res : NgscopeReTxCa}
    (hsize : cdist maxTti tailTti.toNat headerTti.toNat < res.size) :
    is.foldlM (fun res i => extractCaCell (dciAll i) nofCell headerTti tailTti res) res =
      some (addCells dciAll nofCell tailTti headerTti is res) :=
  foldlM_extractCaCell_of_inBounds nofCell fun i hi _ hj => (hcover i hi).inBounds hsize hj

/-- The arrays accumulate the loops of the cells one after the other. -/
theorem addCells_arrays (dciAll : ℕ → NgscopeDci) (nofCell : ℕ) (tailTti headerTti : UInt16)
    (is : List ℕ) (res : NgscopeReTxCa) :
    (addCells dciAll nofCell tailTti headerTti is res).size = res.size ∧
    (addCells dciAll nofCell tailTti headerTti is res).tti = res.tti ∧
    (addCells dciAll nofCell tailTti headerTti is res).reTx =
      is.foldl (fun f i => scatter (· || ·) (traceIdx (dciAll i) tailTti)
        (fun j => decide ((dciAll i).dlDci.reTx j.toNat ≠ 0))
        (cellLoop (dciAll i) tailTti headerTti) f) res.reTx ∧
    (addCells dciAll nofCell tailTti headerTti is res).tbs =
      is.foldl (fun f i => scatter (· + ·) (traceIdx (dciAll i) tailTti)
        (fun j => (dciAll i).dlDci.tbs j.toNat) (cellLoop (dciAll i) tailTti headerTti) f)
        res.tbs ∧
    (addCells dciAll nofCell tailTti headerTti is res).rxTUs =
      is.foldl (fun f i => scatter (· + ·) (traceIdx (dciAll i) tailTti)
        (fun j => (dciAll i).timeStampUs j.toNat/UInt64.ofNat nofCell)
        (cellLoop (dciAll i) tailTti headerTti) f) res.rxTUs := by
  induction is generalizing res with
  | nil => exact ⟨rfl, rfl, rfl, rfl, rfl⟩
  | cons i is ih =>
    exact ih (addEntries (dciAll i) nofCell tailTti (cellLoop (dciAll i) tailTti headerTti) res)

theorem ttiDistance_eq {start finish : UInt16} (hs : start.toNat < maxTti)
    (hf : finish.toNat < maxTti) (hne : start ≠ finish) :
    ttiDistance start finish = cdist maxTti start.toNat finish.toNat+1 := by
  have hne' : start.toNat ≠ finish.toNat := fun heq => hne (UInt16.toNat_inj.mp heq)
  unfold ttiDistance cdist
  unfold maxTti at *
  split_ifs with hlt
  · rw [UInt16.lt_iff_toNat_lt] at hlt
    omega
  · rw [UInt16.lt_iff_toNat_lt] at hlt
    omega

theorem toNat_caTraceStart_tti (headerTti : UInt16) {tailTti : UInt16}
    (htail : tailTti.toNat < maxTti) {k : ℕ} (hk : k < maxTti) :
    ((caTraceStart headerTti tailTti).tti k).toNat = (tailTti.toNat+k)%maxTti := by
  have hmax : maxTti = 10240 := rfl
  have hk16 : (UInt16.ofNat k).toNat = k := UInt16.toNat_ofNat_of_lt' (lt_trans hk (by decide))
  have hsum : (tailTti+UInt16.ofNat k).toNat = tailTti.toNat+k := by
    rw [UInt16.toNat_add, hk16]
    omega
  change (wrapTti (tailTti+UInt16.ofNat k)).toNat = _
  rw [toNat_wrapTti, hsum]
  rfl

/-- The entries of a cell that go to index `k`, for any value read from them. -/
theorem CellCovers.map_filter_eq {d : NgscopeDci} {tailTti headerTti : UInt16}
    (h : CellCovers d tailTti headerTti) {k : ℕ}
    (hk : k ≤ cdist maxTti tailTti.toNat headerTti.toNat) {α : Type*} (value : ℕ → α) :
    ((cellLoop d tailTti headerTti).filter (fun j => traceIdx d tailTti j = k)).map
        (fun j => value j.toNat) =
      (entryAt d ((tailTti.toNat+k)%maxTti)).toList.map value := by
  rw [cellLoop, h.filter_eq hk, List.map_map]
  rfl

section
variable {dciAll : ℕ → NgscopeDci} {nofCell : ℕ} {tailTti headerTti : UInt16}
  (hcover : ∀ i < nofCell, CellCovers (dciAll i) tailTti headerTti)
include hcover

/-- At an index of the window, the values read from the cells' entries for its TTI. -/
theorem flatMap_filter_eq {k : ℕ} (hk : k ≤ cdist maxTti tailTti.toNat headerTti.toNat)
    {α : Type*} (value : NgscopeDci → ℕ → α) :
    (List.range nofCell).flatMap (fun i => ((cellLoop (dciAll i) tailTti headerTti).filter
        (fun j => traceIdx (dciAll i) tailTti j = k)).map (fun j => value (dciAll i) j.toNat)) =
      (List.range nofCell).flatMap (fun i =>
        (entryAt (dciAll i) ((tailTti.toNat+k)%maxTti)).toList.map (value (dciAll i))) :=
  List.flatMap_congr fun i hi => (hcover i (List.mem_range.mp hi)).map_filter_eq hk _

theorem mergedTrace_addCells (htail : tailTti.toNat < maxTti) (hheader : headerTti.toNat < maxTti)
    (hne : tailTti ≠ headerTti) :
    MergedTrace dciAll nofCell tailTti headerTti
      (addCells dciAll nofCell tailTti headerTti (List.range nofCell)
        (caTraceStart headerTti tailTti)) := by
  obtain ⟨hsize, htti, hreTx, htbs, _⟩ := addCells_arrays dciAll nofCell tailTti headerTti
    (List.range nofCell) (caTraceStart headerTti tailTti)
  have hlen : (caTraceStart headerTti tailTti).size =
      cdist maxTti tailTti.toNat headerTti.toNat+1 := by
    have hdist := ttiDistance_eq htail hheader hne
    change (ttiDistance tailTti headerTti).toNat = _
    rw [hdist]
    exact Int.toNat_natCast _
  have hround := cdist_lt (n := maxTti) (by decide) tailTti.toNat headerTti.toNat
  refine ⟨hsize.trans hlen, fun k hk => ?_, fun k hk => ?_, fun k hk => ?_⟩
  all_goals rw [hsize, hlen] at hk
  · rw [htti]
    exact toNat_caTraceStart_tti headerTti htail (by omega)
  -- a flag is set when that of some cell is
  · rw [hreTx, foldl_scatter_apply, flatMap_filter_eq hcover (by omega)
      (fun d j => decide (d.dlDci.reTx j ≠ 0)), foldl_or, List.any_flatMap]
    refine (Bool.false_or _).trans (congrArg (List.any (List.range nofCell)) (funext fun i => ?_))
    unfold cellReTx
    cases entryAt (dciAll i) ((tailTti.toNat+k)%maxTti) <;> simp
  -- the sizes add up in 32 bits
  · rw [htbs, foldl_scatter_apply, flatMap_filter_eq hcover (by omega) (fun d j => d.dlDci.tbs j),
      toNat_foldl_add32, List.map_flatMap, List.flatMap_def, List.sum_flatten, List.map_map]
    refine congrArg (· % 2^32) ((Nat.zero_add _).trans (congrArg List.sum ?_))
    refine List.map_congr_left fun i _ => ?_
    rw [Function.comp_apply, cellTbs]
    cases entryAt (dciAll i) ((tailTti.toNat+k)%maxTti) <;> simp

end

/-- With the tail logged before the header in every cell, `extract_ca_trace` stays inside its
arrays and merges the cells at every TTI of the window. -/
theorem extract_ca_trace_merges {dciAll : ℕ → NgscopeDci} {nofCell : ℕ}
    {tailTti headerTti : UInt16} (hpos : 1 ≤ nofCell)
    (htail : (dciAll 0).caTail = tailTti.toNat) (hheader : (dciAll 0).caHeader = headerTti.toNat)
    (hne : tailTti ≠ headerTti)
    (hcover : ∀ i < nofCell, CellCovers (dciAll i) tailTti headerTti) :
    ∃ res, extractCaTrace dciAll nofCell = some res ∧
      MergedTrace dciAll nofCell tailTti headerTti res := by
  have hfirst := hcover 0 hpos
  have htlt := hfirst.increasing.lt _ hfirst.tail_mem
  have hhlt := hfirst.increasing.lt _ hfirst.header_mem
  refine ⟨_, ?_, mergedTrace_addCells hcover htlt hhlt hne⟩
  rw [extractCaTrace, htail, hheader, UInt16.ofNat_toNat, UInt16.ofNat_toNat]
  refine foldlM_extractCaCell_eq nofCell (fun i hi => hcover i (List.mem_range.mp hi)) ?_
  exact cdist_lt_ttiDistance htlt hhlt

/-- A cell with TTIs 5 and 10, 100 bits in each. -/
def gapDci (caTail caHeader : ℕ) : NgscopeDci where
  nofDci := 2
  caHeader := caHeader
  caTail := caTail
  timeStampUs := fun _ => 0
  tti := fun j => if j = 0 then 5 else 10
  currTime := 0
  dlDci := { UeLinkDci.zero with tbs := fun _ => 100 }
  ulDci := UeLinkDci.zero

theorem increasing_gapDci (caTail caHeader : ℕ) :
    Increasing maxTti (logTtis (gapDci caTail caHeader)) := by
  change Increasing maxTti [5, 10]
  exact ⟨by decide, by decide⟩

theorem extract_ca_trace_merges_gap :
    ∃ res, extractCaTrace (fun _ => gapDci 5 10) 1 = some res ∧
      MergedTrace (fun _ => gapDci 5 10) 1 5 10 res :=
  extract_ca_trace_merges le_rfl rfl rfl (by decide) fun _ _ =>
    ⟨⟨increasing_gapDci 5 10, by decide, by decide, by decide⟩, by decide⟩

/-- Where the header is logged before the tail the copy loop is empty: TTI 10 opens the window
from 10 round to 5, but its bits are missing. -/
theorem extract_ca_trace_header_first :
    ¬ ∀ (dciAll : ℕ → NgscopeDci) (nofCell : ℕ) (tailTti headerTti : UInt16), 1 ≤ nofCell →
      nofCell ≤ maxNofRfDev → (dciAll 0).caTail = tailTti.toNat →
      (dciAll 0).caHeader = headerTti.toNat → tailTti ≠ headerTti →
      (∀ i < nofCell, CellLists (dciAll i) tailTti headerTti) →
      ∃ res, extractCaTrace dciAll nofCell = some res ∧
        MergedTrace dciAll nofCell tailTti headerTti res := by
  intro hall
  obtain ⟨res, hres, hmerged⟩ := hall (fun _ => gapDci 10 5) 1 10 5 (by decide) (by decide) rfl rfl
    (by decide) (fun _ _ => ⟨increasing_gapDci 10 5, by decide, by decide, by decide⟩)
  have hstart : extractCaTrace (fun _ => gapDci 10 5) 1 = some (caTraceStart 5 10) := rfl
  rw [hstart] at hres
  cases hres
  have htbs := hmerged.tbs_eq 0 (by decide)
  exact absurd htbs (by decide)

end CopaNgscope
