import CopaNgscope.NgscopeDciRing
import CopaNgscope.NgscopeDciRecv

/-! The carrier aggregation header over runs of configurations and inserts: when it is the
oldest of the cells' newest TTIs, and where the ring index of a cell spoils it. -/
namespace CopaNgscope
open RunInvariant RingLog CircularDistance

inductive CAAction
  | config (cellPrb : List UInt16)
  | insert (ueDci : UeDci) (cellIdx : ℕ)

def caStep (stray : NgscopeDciCell → ℤ → UeDci) (q : NgscopeDciCA) :
    CAAction → Option NgscopeDciCA
  | .config cellPrb => q.config cellPrb
  | .insert ueDci cellIdx => ngscopeDciCAInsert stray q ueDci cellIdx

/-- The DCIs logged last, one for each configured cell. -/
def NewestDcis (q : NgscopeDciCA) (ds : List UeDci) : Prop :=
  q.cells.map (fun cell => cell.log.getLast?) = ds.map some

/-- The index `k` is inside `dci[]`. -/
def InDci (k : ℤ) : Prop := 0 ≤ k ∧ k < nofLogDci

/-! ### The oldest TTI -/

/-- Unwrapping, taking the minimum and wrapping again finds the oldest TTI. -/
theorem isOldest_wrap_min {array : List UInt16} (hne : array ≠ [])
    (hlt : ∀ x ∈ array.map UInt16.toNat, x < maxTti)
    (harc : HalfArc maxTti (array.map UInt16.toNat)) :
    IsOldest maxTti (array.map UInt16.toNat)
      (wrapTti (minInArrayUint16V (unwrapTtiArray array))).toNat := by
  obtain ⟨o, ho⟩ := exists_isOldest (by decide) (by simpa using hne) harc
  have hunwrap := map_toNat_unwrapTtiArray hlt ho
  have hne' : unwrapTtiArray array ≠ [] := by
    intro h
    rw [h, List.map_nil, eq_comm, List.map_eq_nil_iff, List.map_eq_nil_iff] at hunwrap
    exact hne hunwrap
  obtain ⟨hmem, hmin⟩ := minInArrayUint16V_spec hne'
  -- unwrapped, the oldest TTI keeps its value and the others come after it
  have hval : (minInArrayUint16V (unwrapTtiArray array)).toNat = o := by
    have hge : o ≤ (minInArrayUint16V (unwrapTtiArray array)).toNat := by
      have h := List.mem_map_of_mem (f := UInt16.toNat) hmem
      rw [hunwrap] at h
      obtain ⟨x, _, hx⟩ := List.mem_map.mp h
      omega
    have hle : (minInArrayUint16V (unwrapTtiArray array)).toNat ≤ o := by
      have h : o ∈ (unwrapTtiArray array).map UInt16.toNat := by
        rw [hunwrap]
        exact List.mem_map.mpr ⟨o, ho.1, by rw [cdist_self, Nat.add_zero]⟩
      obtain ⟨y, hy, hyo⟩ := List.mem_map.mp h
      have := hmin y hy
      omega
    omega
  have ho' : o%10240 = o := Nat.mod_eq_of_lt (hlt o ho.1)
  rwa [toNat_wrapTti, hval, ho']

/-! ### The newest DCI of a cell -/

section
variable (stray : NgscopeDciCell → ℤ → UeDci)

theorem NgscopeDciCell.dciAt_of_inDci (cell : NgscopeDciCell) {k : ℤ} (h : InDci k) :
    cell.dciAt stray k = cell.dci k.toNat := if_pos h

theorem NgscopeDciCell.log_ne_nil_of_header (cell : NgscopeDciCell) (h : cell.header ≠ 0) :
    cell.log ≠ [] := by
  rw [← List.length_pos_iff, cell.length_log]
  have hle := cell.nofLoggedDci_le
  rcases Nat.lt_or_ge cell.nofLoggedDci nofLogDci with hlt | hge
  · have := cell.header_eq hlt
    omega
  · exact lt_of_lt_of_le (by decide) hge

/-- Until the ring is full its index counts the log. -/
theorem NgscopeDciCell.header_of_log (cell : NgscopeDciCell) (h : cell.log.length < nofLogDci) :
    cell.header = cell.log.length := by
  rw [cell.length_log] at h ⊢
  exact cell.header_eq h

/-- The header index is in range exactly when the ring index is not zero. -/
theorem NgscopeDciCell.inDci_caHeaderIdx (cell : NgscopeDciCell) :
    InDci cell.caHeaderIdx ↔ cell.header ≠ 0 := by
  have hlt := cell.header_lt
  unfold InDci caHeaderIdx
  constructor
  · rintro ⟨h0, _⟩ hzero
    rw [hzero] at h0
    exact absurd h0 (by decide)
  · intro h
    rw [Int.tmod_eq_of_lt (by omega) (by omega)]
    omega

/-- At ring index 0 the newest entry is looked for outside the array. -/
theorem NgscopeDciCell.dciAt_of_header_zero (cell : NgscopeDciCell) (h : cell.header = 0) :
    cell.dciAt stray cell.caHeaderIdx = stray cell cell.caHeaderIdx :=
  if_neg (fun hin => cell.inDci_caHeaderIdx.mp hin h)

theorem NgscopeDciCell.inDci_tailIdx (cell : NgscopeDciCell) : InDci cell.tailIdx := by
  have hle := cell.nofLoggedDci_le
  unfold InDci tailIdx
  rw [Int.tmod_eq_emod_of_nonneg (by omega)]
  exact ⟨Int.emod_nonneg _ (by decide), Int.emod_lt_of_pos _ (by decide)⟩

/-- Off the wrap, the entry before the ring index is the newest one. -/
theorem NgscopeDciCell.getLast?_log (cell : NgscopeDciCell) (h : cell.header ≠ 0) :
    cell.log.getLast? = some (cell.dciAt stray cell.caHeaderIdx) := by
  have hlen : 0 < cell.ring.len := by
    have := List.length_pos_iff.mpr (cell.log_ne_nil_of_header h)
    rwa [cell.length_log] at this
  have hlt := cell.header_lt
  have hidx : cell.caHeaderIdx = ((cell.header-1 : ℕ) : ℤ) := by
    unfold caHeaderIdx
    rw [Int.tmod_eq_of_lt (by omega) (by omega)]
    omega
  have hslot : (cell.header+nofLogDci-1)%nofLogDci = cell.header-1 := by
    rw [show cell.header+nofLogDci-1 = cell.header-1+nofLogDci by omega, Nat.add_mod_right,
      Nat.mod_eq_of_lt (by omega)]
  have hnewest := cell.ring.get_newest hlen
  rw [show cell.ring.head = cell.header from rfl, hslot] at hnewest
  rw [cell.dciAt_of_inDci stray ((inDci_caHeaderIdx cell).mpr h), hidx, Int.toNat_natCast, log,
    List.getLast?_eq_getElem?, cell.ring.length_contents, List.getElem?_eq_getElem
      (by rw [cell.ring.length_contents]; omega), Ring.getElem_contents, hnewest]
  rfl

/-- With all ring indices off the wrap the vectors of `ca_update_header` are those of the
newest DCIs. -/
theorem newestDcis_of_header (q : NgscopeDciCA) (h : ∀ cell ∈ q.cells, cell.header ≠ 0) :
    NewestDcis q (q.cells.map (fun cell => cell.dciAt stray cell.caHeaderIdx)) := by
  unfold NewestDcis
  rw [List.map_map]
  apply List.map_congr_left
  intro cell hcell
  exact cell.getLast?_log stray (h cell hcell)

theorem NewestDcis.unique {q : NgscopeDciCA} {ds ds' : List UeDci} (h : NewestDcis q ds)
    (h' : NewestDcis q ds') : ds = ds' :=
  List.map_injective_iff.mpr (Option.some_injective _) (h.symm.trans h')

/-! ### One step -/

/-- What a step may be given: one to four cells, a configured cell, TTIs below the cycle
length, and newest TTIs within half a cycle. -/
def CADomain (q : NgscopeDciCA) : CAAction → Prop
  | .config cellPrb => 1 ≤ cellPrb.length ∧ cellPrb.length ≤ maxNofRfDev
  | .insert d c => c < q.nofCell ∧ d.tti.toNat < maxTti ∧
      ∀ ds, NewestDcis (q.logDci d c) ds → HalfArc maxTti (ds.map (fun d => d.tti.toNat))

/-- What an insert must do: indices in range, and with `ca_ready` set before it the header
is the oldest of the newest TTIs and the time their mean time. -/
structure CAInsertRight (q q' : NgscopeDciCA) : Prop where
  inDci : ∀ cell ∈ q'.cells, InDci cell.caHeaderIdx ∧ InDci cell.tailIdx
  header : q.caReady = true → ∃ ds, NewestDcis q' ds ∧
    IsOldest maxTti (ds.map (fun d => d.tti.toNat)) q'.header ∧
    q'.currTime.toNat = (ds.map (fun d => d.timeStamp.toNat)).sum/ds.length

/-- What every step must do: `ca_ready` says that each configured cell has logged a DCI. -/
def CAStepRight (q : NgscopeDciCA) (a : CAAction) (q' : NgscopeDciCA) : Prop :=
  (q'.caReady = true → ∀ cell ∈ q'.cells, cell.log ≠ []) ∧
    ∀ d c, a = .insert d c → CAInsertRight q q'

/-- When a step does that. A configuration made with `ca_ready` set names no cell without a
DCI; an insert leaves no configured ring at index 0, and the times to average sum below 2^64. -/
def CAStepOk (q : NgscopeDciCA) : CAAction → Prop
  | .config cellPrb => q.caReady = true → ∀ i < cellPrb.length, (q.cellDci i).log ≠ []
  | .insert d c =>
    (∀ i < q.nofCell, if i = c then (q.cellDci i).header ≠ nofLogDci-1
      else (q.cellDci i).header ≠ 0) ∧
    (q.caReady = true → ∀ ds, NewestDcis (q.logDci d c) ds →
      (ds.map (fun d => d.timeStamp.toNat)).sum < 2^64)

structure CAInv (q : NgscopeDciCA) : Prop where
  nofCell_pos : 1 ≤ q.nofCell
  tti_lt : ∀ i, ∀ d ∈ (q.cellDci i).log, d.tti.toNat < maxTti
  logged : q.caReady = true → ∀ cell ∈ q.cells, cell.log ≠ []

theorem forall_mem_cells {q : NgscopeDciCA} {p : NgscopeDciCell → Prop} :
    (∀ cell ∈ q.cells, p cell) ↔ ∀ i < q.nofCell, p (q.cellDci i) := by
  simp [NgscopeDciCA.cells]

/-- A configuration changes no log. -/
theorem config_cases {q q' : NgscopeDciCA} {cellPrb : List UInt16}
    (h : q.config cellPrb = some q') :
    cellPrb.length ≤ maxNofRfDev ∧ q'.nofCell = cellPrb.length ∧ q'.caReady = q.caReady ∧
      ∀ i, (q'.cellDci i).log = (q.cellDci i).log := by
  unfold NgscopeDciCA.config at h
  split_ifs at h with hlen
  cases h
  refine ⟨hlen, rfl, rfl, fun i => ?_⟩
  simp only
  cases cellPrb[i]? <;> rfl

/-- The DCIs a run inserts into cell `c`, in order. -/
def caLog (as : List CAAction) (c : ℕ) : List UeDci :=
  as.filterMap fun
    | .config _ => none
    | .insert d i => if i = c then some d else none

/-- After a run of configurations and inserts a cell holds the last 1000 DCIs inserted. -/
theorem log_caRun {as : List CAAction} {q : NgscopeDciCA}
    (h : run (caStep stray) ngscopeDciCAInit as = some q) (c : ℕ) :
    (q.cellDci c).log = (caLog as c).rtake nofLogDci := by
  refine run_history_invariant _ ngscopeDciCAInit
    (fun as q => (q.cellDci c).log = (caLog as c).rtake nofLogDci) ?_ ?_ as q h
  · rw [show caLog [] c = [] from rfl, List.rtake_nil]
    exact List.length_eq_zero_iff.mp (NgscopeDciCell.length_log _)
  · intro pre a t u _ ht hstep
    cases a with
    | config cellPrb =>
      rw [(config_cases hstep).2.2.2 c, ht]
      simp [caLog, List.filterMap_append]
    | insert d i =>
      rw [log_after_insert stray hstep c, ht]
      split_ifs with hic
      · rw [rtake_rtake_concat]
        simp [caLog, List.filterMap_append, hic]
      · simp [caLog, List.filterMap_append, hic]

/-- The ring indices an insert leaves, read off the state before it. -/
theorem header_logDci_iff (q : NgscopeDciCA) (d : UeDci) (c : ℕ) :
    (∀ cell ∈ (q.logDci d c).cells, cell.header ≠ 0) ↔
      ∀ i < q.nofCell, if i = c then (q.cellDci i).header ≠ nofLogDci-1
        else (q.cellDci i).header ≠ 0 := by
  rw [forall_mem_cells]
  refine forall₂_congr fun i _ => ?_
  split_ifs with hic
  · subst hic
    have hlt := (q.cellDci i).header_lt
    rw [logDci_cellDci_self]
    simp only [NgscopeDciCell.insert, nofLogDci] at hlt ⊢
    omega
  · rw [logDci_cellDci_of_ne q d hic]

theorem config_step_iff {q : NgscopeDciCA} {cellPrb : List UInt16}
    (hdom : CADomain q (.config cellPrb)) :
    (∃ q', caStep stray q (.config cellPrb) = some q' ∧ CAStepRight q (.config cellPrb) q') ↔
      CAStepOk q (.config cellPrb) := by
  constructor
  · rintro ⟨q', hstep, hlogged, _⟩ hready i hi
    obtain ⟨_, hnof, hready', hlog⟩ := config_cases hstep
    rw [← hlog i]
    exact forall_mem_cells.mp (hlogged (hready'.trans hready)) i (by omega)
  · intro hok
    obtain ⟨q', hstep⟩ : ∃ q', q.config cellPrb = some q' := ⟨_, dif_pos hdom.2⟩
    obtain ⟨_, hnof, hready, hlog⟩ := config_cases hstep
    refine ⟨q', hstep, fun hr => forall_mem_cells.mpr fun i hi => ?_, fun _ _ h => by cases h⟩
    rw [hlog i]
    exact hok (hready.symm.trans hr) i (by omega)

/-- All logged TTIs stay below the cycle length. -/
theorem tti_lt_logDci {q : NgscopeDciCA} (hq : CAInv q) {d : UeDci} (hd : d.tti.toNat < maxTti)
    (c i : ℕ) : ∀ x ∈ ((q.logDci d c).cellDci i).log, x.tti.toNat < maxTti := by
  intro x hx
  by_cases hic : i = c
  · subst hic
    rw [logDci_cellDci_self, NgscopeDciCell.log_insert] at hx
    rcases List.mem_append.mp (List.mem_of_mem_drop hx) with hx | hx
    · exact hq.tti_lt i x hx
    · rwa [List.mem_singleton.mp hx]
  · rw [logDci_cellDci_of_ne q d hic] at hx
    exact hq.tti_lt i x hx

theorem tti_lt_of_newest {q : NgscopeDciCA} {ds : List UeDci} (h : NewestDcis q ds)
    (hlt : ∀ i, ∀ x ∈ (q.cellDci i).log, x.tti.toNat < maxTti) :
    ∀ x ∈ ds.map (fun d => d.tti.toNat), x < maxTti := by
  intro x hx
  obtain ⟨d, hd, rfl⟩ := List.mem_map.mp hx
  have hmem : some d ∈ q.cells.map (fun cell => cell.log.getLast?) := by
    rw [h]
    exact List.mem_map_of_mem hd
  obtain ⟨cell, hcell, hlast⟩ := List.mem_map.mp hmem
  obtain ⟨i, _, rfl⟩ := List.mem_map.mp hcell
  exact hlt i d (List.mem_of_getLast? hlast)

/-- With the ring indices off the wrap, `ca_update_header` finds the oldest newest TTI. -/
theorem caHeader_isOldest {q : NgscopeDciCA} (hpos : 0 < q.nofCell)
    (hidx : ∀ cell ∈ q.cells, cell.header ≠ 0)
    {ds : List UeDci} (hds : NewestDcis q ds)
    (hlt : ∀ x ∈ ds.map (fun d => d.tti.toNat), x < maxTti)
    (harc : HalfArc maxTti (ds.map (fun d => d.tti.toNat))) :
    IsOldest maxTti (ds.map (fun d => d.tti.toNat))
      (wrapTti (minInArrayUint16V (unwrapTtiArray (caHeaderVec stray q)))).toNat := by
  have hvec : (caHeaderVec stray q).map UInt16.toNat = ds.map (fun d => d.tti.toNat) := by
    rw [hds.unique (newestDcis_of_header stray q hidx), caHeaderVec, List.map_map, List.map_map]
    rfl
  have hne : caHeaderVec stray q ≠ [] := by
    rw [← List.length_pos_iff]
    simpa [caHeaderVec, NgscopeDciCA.cells] using hpos
  rw [← hvec] at hlt harc ⊢
  exact isOldest_wrap_min hne hlt harc

theorem mod_div_eq_div_iff {n : ℕ} (hpos : 0 < n) (hle : n ≤ 4) (total : ℕ) :
    total%2^64/n = total/n ↔ total < 2^64 := by
  -- a wrap takes 2^64 off, which changes the quotient for any divisor up to four
  obtain rfl | rfl | rfl | rfl : n = 1 ∨ n = 2 ∨ n = 3 ∨ n = 4 := by omega
  all_goals omega

/-- The mean over one to four cells is the floored mean exactly when the sum does not wrap. -/
theorem currTime_floored_iff {q : NgscopeDciCA} (hpos : 0 < q.nofCell)
    (hidx : ∀ cell ∈ q.cells, cell.header ≠ 0) {ds : List UeDci} (hds : NewestDcis q ds) :
    (meanArrayUint64 (caTimeVec stray q)).toNat =
        (ds.map (fun d => d.timeStamp.toNat)).sum/ds.length ↔
      (ds.map (fun d => d.timeStamp.toNat)).sum < 2^64 := by
  have hlen : ds.length = q.nofCell := by
    have := congrArg List.length hds
    simpa [NgscopeDciCA.cells] using this.symm
  have hle : q.nofCell ≤ 4 := q.nofCell_le
  have hvec : caTimeVec stray q = ds.map UeDci.timeStamp := by
    rw [hds.unique (newestDcis_of_header stray q hidx), caTimeVec, List.map_map]
    rfl
  have hmean := toNat_meanArrayUint64
    (show (caTimeVec stray q).length < 2^64 by rw [hvec, List.length_map, hlen]; omega)
  rw [hvec, List.length_map, List.map_map, hlen] at hmean
  rw [hvec, hmean, hlen]
  change _%2^64/_ = (ds.map (fun d => d.timeStamp.toNat)).sum/_ ↔ _
  exact mod_div_eq_div_iff hpos hle _

theorem insert_step_iff {q : NgscopeDciCA} (hq : CAInv q) {d : UeDci} {c : ℕ}
    (hdom : CADomain q (.insert d c)) :
    (∃ q', caStep stray q (.insert d c) = some q' ∧ CAStepRight q (.insert d c) q') ↔
      CAStepOk q (.insert d c) := by
  obtain ⟨hc, htti, harc⟩ := hdom
  have hle := q.nofCell_le
  constructor
  · rintro ⟨q', hstep, _, hright⟩
    have hsame := cells_after_insert stray hstep
    obtain ⟨hin, hheader⟩ := hright d c rfl
    have hidx : ∀ cell ∈ (q.logDci d c).cells, cell.header ≠ 0 := fun cell hcell =>
      (cell.inDci_caHeaderIdx).mp (hin cell (hsame ▸ hcell)).1
    refine ⟨(header_logDci_iff q d c).mp hidx, fun hready ds hds => ?_⟩
    -- the time of the step is the floored mean, so the sum did not wrap
    obtain ⟨ds', hds', _, htime⟩ := hheader hready
    have hupd := updated_of_ready stray hready hstep
    have hds'' : NewestDcis (q.logDci d c) ds' := by rwa [NewestDcis, ← hsame]
    rw [← hds.unique hds'', hupd.currTime_eq] at htime
    exact (currTime_floored_iff stray hupd.nofCell_pos hidx hds).mp htime
  · rintro ⟨hring, hsum⟩
    have hidx := (header_logDci_iff q d c).mpr hring
    obtain ⟨q', hstep⟩ := ngscopeDciCAInsert_defined stray q d (c := c) (by omega) hq.nofCell_pos
    have hsame := cells_after_insert stray hstep
    have hds := newestDcis_of_header stray (q.logDci d c) hidx
    refine ⟨q', hstep, fun _ cell hcell => ?_, ?_⟩
    · exact cell.log_ne_nil_of_header (hidx cell (hsame ▸ hcell))
    · rintro _ _ ⟨rfl, rfl⟩
      refine ⟨fun cell hcell => ⟨?_, cell.inDci_tailIdx⟩, fun hready => ?_⟩
      · exact (cell.inDci_caHeaderIdx).mpr (hidx cell (hsame ▸ hcell))
      · have hupd := updated_of_ready stray hready hstep
        refine ⟨_, by rw [NewestDcis, hsame]; exact hds, ?_, ?_⟩
        · rw [hupd.header_eq]
          exact caHeader_isOldest stray hupd.nofCell_pos hidx hds
            (tti_lt_of_newest hds (tti_lt_logDci hq htti c)) (harc _ hds)
        · rw [hupd.currTime_eq]
          exact (currTime_floored_iff stray hupd.nofCell_pos hidx hds).mpr (hsum hready _ hds)

theorem caInv_step {q q' : NgscopeDciCA} {a : CAAction} (hq : CAInv q) (hdom : CADomain q a)
    (hstep : caStep stray q a = some q') (hright : CAStepRight q a q') : CAInv q' := by
  cases a with
  | config cellPrb =>
    obtain ⟨_, hnof, _, hlog⟩ := config_cases hstep
    refine ⟨by rw [hnof]; exact hdom.1, fun i d hd => ?_, hright.1⟩
    rw [hlog i] at hd
    exact hq.tti_lt i d hd
  | insert d c =>
    obtain ⟨_, hcells, hnof, _⟩ := ngscopeDciCAInsert_cases stray hstep
    refine ⟨by rw [hnof]; exact hq.nofCell_pos, fun i x hx => ?_, hright.1⟩
    rw [hcells] at hx
    exact tti_lt_logDci hq hdom.2.1 c i x hx

theorem caInv_init : CAInv ngscopeDciCAInit := by
  refine ⟨by decide, fun i d hd => ?_, fun h => by cases h⟩
  have hnil : (ngscopeDciCAInit.cellDci i).log = [] := List.length_eq_zero_iff.mp
    (NgscopeDciCell.length_log _)
  rw [hnil] at hd
  cases hd

/-- The header, the time and `ca_ready` are right at every step of a run exactly when no
insert leaves a configured ring at index 0 or lets the times overflow, and no configuration
adds a cell without a DCI once `ca_ready` is set. -/
theorem ca_header_run_iff (as : List CAAction)
    (hdom : RunMeets (caStep stray) CADomain ngscopeDciCAInit as) :
    RunShows (caStep stray) CAStepRight ngscopeDciCAInit as ↔
      RunMeets (caStep stray) CAStepOk ngscopeDciCAInit as := by
  refine runShows_iff_runMeets (caStep stray) CADomain CAStepOk CAStepRight CAInv
    (fun q a hq ha => ?_) (fun q a q' hq ha hs hr => caInv_step stray hq ha hs hr) as
    ngscopeDciCAInit caInv_init hdom
  cases a with
  | config cellPrb => exact config_step_iff stray ha
  | insert d c => exact insert_step_iff stray hq ha

end

theorem newestDcis_one_cell {q : NgscopeDciCA} (h : q.nofCell = 1) {ds : List UeDci}
    (hds : NewestDcis q ds) : ∃ d, ds = [d] := by
  have hlen : 1 = ds.length := by simpa [NgscopeDciCA.cells, h] using congrArg List.length hds
  exact List.length_eq_one_iff.mp hlen.symm

/-- A configured cell without a DCI has no newest one. -/
theorem not_newestDcis {q : NgscopeDciCA} {i : ℕ} (hi : i < q.nofCell)
    (hempty : (q.cellDci i).log = []) (ds : List UeDci) : ¬ NewestDcis q ds := by
  intro hds
  have hcell : q.cellDci i ∈ q.cells := List.mem_map.mpr ⟨i, List.mem_range.mpr hi, rfl⟩
  have hmem := List.mem_map_of_mem (f := fun cell => cell.log.getLast?) hcell
  rw [hds, hempty] at hmem
  obtain ⟨_, _, hd⟩ := List.mem_map.mp hmem
  cases hd

def firstInsert : CAAction := .insert { UeDci.zero with tti := 8 } 0

theorem firstInsert_step {t : NgscopeDciCA}
    (ht : caStep (fun _ _ => UeDci.zero) ngscopeDciCAInit firstInsert = some t) :
    t.nofCell = 1 ∧ t.caReady = true ∧ (t.cellDci 0).header = 1 ∧ (t.cellDci 1).log = [] := by
  have hstep : (caStep (fun _ _ => UeDci.zero) ngscopeDciCAInit firstInsert).map (fun t =>
      (t.nofCell, t.caReady, (t.cellDci 0).header, (t.cellDci 1).log.length)) =
        some (1, true, 1, 0) := by decide +kernel
  rw [ht, Option.map_some, Option.some.injEq, Prod.mk.injEq, Prod.mk.injEq, Prod.mk.injEq] at hstep
  obtain ⟨hnof, hready, hheader, hlength⟩ := hstep
  exact ⟨hnof, hready, hheader, List.length_eq_zero_iff.mp hlength⟩

/-- Two DCIs of a single cell, the second with `ca_ready` set, and the same with a second cell
configured between them. -/
theorem ca_header_run_second_cell :
    RunShows (caStep fun _ _ => UeDci.zero) CAStepRight ngscopeDciCAInit
      [firstInsert, .insert { UeDci.zero with tti := 9 } 0] ∧
    ¬ RunShows (caStep fun _ _ => UeDci.zero) CAStepRight ngscopeDciCAInit
      [firstInsert, .config [50, 50], .insert { UeDci.zero with tti := 9 } 0] := by
  have harc {q : NgscopeDciCA} (h : q.nofCell = 1) (ds : List UeDci) (hds : NewestDcis q ds) :
      HalfArc maxTti (ds.map (fun d => d.tti.toNat)) := by
    obtain ⟨d, rfl⟩ := newestDcis_one_cell h hds
    refine ⟨d.tti.toNat, fun x hx => ?_⟩
    rw [List.mem_singleton.mp hx, cdist_self]
    decide
  have hsum {q : NgscopeDciCA} (h : q.nofCell = 1) (ds : List UeDci) (hds : NewestDcis q ds) :
      (ds.map (fun d => d.timeStamp.toNat)).sum < 2^64 := by
    obtain ⟨d, rfl⟩ := newestDcis_one_cell h hds
    simpa using d.timeStamp.toNat_lt
  have hfirst : CADomain ngscopeDciCAInit firstInsert := ⟨by decide, by decide, harc rfl⟩
  refine ⟨?_, ?_⟩
  · have hdom : RunMeets (caStep fun _ _ => UeDci.zero) CADomain ngscopeDciCAInit
        [firstInsert, .insert { UeDci.zero with tti := 9 } 0] := by
      refine ⟨hfirst, fun t ht => ?_⟩
      have hnof := (firstInsert_step ht).1
      exact ⟨⟨by omega, by decide, harc hnof⟩, fun _ _ => trivial⟩
    refine (ca_header_run_iff _ _ hdom).mpr ⟨⟨fun i hi => ?_, fun _ => hsum rfl⟩, fun t ht => ?_⟩
    · obtain rfl : i = 0 := Nat.lt_one_iff.mp hi
      decide
    · obtain ⟨hnof, _, hheader, _⟩ := firstInsert_step ht
      refine ⟨⟨fun i hi => ?_, fun _ => hsum hnof⟩, fun _ _ => trivial⟩
      obtain rfl : i = 0 := by omega
      rw [if_pos rfl, hheader]
      decide
  · have hdom : RunMeets (caStep fun _ _ => UeDci.zero) CADomain ngscopeDciCAInit
        [firstInsert, .config [50, 50], .insert { UeDci.zero with tti := 9 } 0] := by
      refine ⟨hfirst, fun t ht => ⟨⟨by decide, by decide⟩, fun u hu => ⟨?_, fun _ _ => trivial⟩⟩⟩
      obtain ⟨_, hnof, _, hlog⟩ := config_cases hu
      -- the second cell has no newest DCI
      have hnewest : ∀ ds, ¬ NewestDcis (u.logDci { UeDci.zero with tti := 9 } 0) ds := by
        apply not_newestDcis (i := 1)
        · exact lt_of_lt_of_eq (by decide : 1 < 2) hnof.symm
        · rw [logDci_cellDci_of_ne u _ (by decide), hlog 1]
          exact (firstInsert_step ht).2.2.2
      exact ⟨lt_of_lt_of_eq (by decide) hnof.symm, by decide, fun ds hds => absurd hds (hnewest ds)⟩
    rw [ca_header_run_iff _ _ hdom]
    rintro ⟨_, hrest⟩
    obtain ⟨t, ht⟩ : ∃ t, caStep (fun _ _ => UeDci.zero) ngscopeDciCAInit firstInsert = some t :=
      ngscopeDciCAInsert_defined _ _ _ (by decide) (by decide)
    obtain ⟨_, hready, _, hempty⟩ := firstInsert_step ht
    exact (hrest t ht).1 hready 1 (by decide) hempty

/-- Two cells are configured and the first logs a DCI: `ca_update_header` reads the second
cell's `dci[-1]`. -/
theorem ca_header_index_below_zero :
    ¬ ∀ (stray : NgscopeDciCell → ℤ → UeDci) (as : List CAAction),
      RunMeets (caStep stray) CADomain ngscopeDciCAInit as →
        RunShows (caStep stray) CAStepRight ngscopeDciCAInit as := by
  intro hall
  have hconfig : ∃ q, ngscopeDciCAInit.config [50, 50] = some q := ⟨_, dif_pos (by decide)⟩
  obtain ⟨q, hq⟩ := hconfig
  obtain ⟨_, hnof, _, hlog⟩ := config_cases hq
  have hempty : (q.cellDci 1).log = [] := by
    rw [hlog 1]
    rfl
  have hheader : (q.cellDci 1).header = 0 := by
    have hlen : (q.cellDci 1).nofLoggedDci = 0 := by
      rw [← NgscopeDciCell.length_log, hempty]
      rfl
    rw [(q.cellDci 1).header_eq (by rw [hlen]; decide), hlen]
  have hnewest : ∀ ds, ¬ NewestDcis (q.logDci { UeDci.zero with tti := 8 } 0) ds := by
    apply not_newestDcis (i := 1)
    · exact lt_of_lt_of_eq (by decide : 1 < 2) hnof.symm
    · rw [logDci_cellDci_of_ne q _ (by decide), hempty]
  have hdom : CADomain q (.insert { UeDci.zero with tti := 8 } 0) :=
    ⟨by rw [hnof]; decide, by decide, fun ds hds => absurd hds (hnewest ds)⟩
  have htwo : CADomain ngscopeDciCAInit (.config [50, 50]) := ⟨by decide, by decide⟩
  obtain ⟨t, ht, hgood, u, hu, hright, _⟩ := hall (fun _ _ => UeDci.zero)
    [.config [50, 50], .insert { UeDci.zero with tti := 8 } 0] ⟨htwo, fun t ht => by
      cases hq.symm.trans ht
      exact ⟨hdom, fun _ _ => trivial⟩⟩
  cases hq.symm.trans ht
  have hinv := caInv_step (fun _ _ => UeDci.zero) caInv_init htwo ht hgood
  have hok := (insert_step_iff (fun _ _ => UeDci.zero) hinv hdom).mp ⟨u, hu, hright⟩
  have h1 := hok.1 1 (by rw [hnof]; decide)
  rw [if_neg (by decide)] at h1
  exact h1 hheader

end CopaNgscope
