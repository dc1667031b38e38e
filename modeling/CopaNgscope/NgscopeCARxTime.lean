import Mathlib.Algebra.Order.BigOperators.Group.List
import Mathlib.Algebra.Order.Field.Basic
import Mathlib.Algebra.Order.Ring.Rat
import Mathlib.Tactic.FieldSimp
import CopaNgscope.NgscopeCAMerge

/-! The receive times of the trace of `extract_ca_trace`, against the mean of the timestamps of
the cells that logged the TTI. -/
namespace CopaNgscope
open RunInvariant CircularDistance Scatter

/-! ### Which copy loops run -/

/-- A log in circular order, of at most as many TTIs as the array holds. -/
structure CellLog (d : NgscopeDci) : Prop where
  increasing : Increasing maxTti (logTtis d)
  length_le : d.nofDci ≤ nofLogDci

/-- The copy loop of a cell has an entry to start with. -/
def loopRuns (tailTti headerTti : UInt16) (d : NgscopeDci) : Bool :=
  findTti d tailTti ≤ findTti d headerTti

theorem findTti_of_not_mem {d : NgscopeDci} {tti : UInt16} (h : tti.toNat ∉ logTtis d) :
    findTti d tti = -1 := by
  apply if_neg
  intro hmem
  exact h (List.mem_map_of_mem hmem)

theorem neg_one_le_findTti (d : NgscopeDci) (tti : UInt16) : -1 ≤ findTti d tti := by
  rw [findTti, findElementInArrayUint16]
  split_ifs
  · omega
  · exact le_refl _

section
variable {d : NgscopeDci} {tailTti headerTti : UInt16}

/-- A loop that starts at a logged tail and runs reaches a logged header. -/
theorem cellCovers_of_loopRuns (hlog : CellLog d) (htail : tailTti.toNat ∈ logTtis d)
    (hruns : loopRuns tailTti headerTti d = true) : CellCovers d tailTti headerTti := by
  have hle : findTti d tailTti ≤ findTti d headerTti := of_decide_eq_true hruns
  refine ⟨⟨hlog.increasing, hlog.length_le, htail, ?_⟩, hle⟩
  by_contra hheader
  obtain ⟨k, hk, _⟩ := findTti_of_mem htail
  rw [findTti_of_not_mem hheader, hk] at hle
  omega

theorem cellLoop_of_not_loopRuns (hruns : ¬ loopRuns tailTti headerTti d = true) :
    cellLoop d tailTti headerTti = [] := by
  have hlt : ¬ findTti d tailTti ≤ findTti d headerTti := fun h => hruns (decide_eq_true h)
  rw [cellLoop, indexRange, show (findTti d headerTti-findTti d tailTti+1).toNat = 0 by omega]
  rfl

/-- Without the tail the loop starts before the array. -/
theorem extractCaCell_of_not_mem (h : tailTti.toNat ∉ logTtis d) (nofCell : ℕ)
    (res : NgscopeReTxCa) : extractCaCell d nofCell headerTti tailTti res = none := by
  have hheader := neg_one_le_findTti d headerTti
  obtain ⟨n, hn⟩ : ∃ n, (findTti d headerTti-(-1)+1).toNat = n+1 :=
    ⟨_, (Nat.succ_pred (by omega)).symm⟩
  rw [extractCaCell, findTti_of_not_mem h, indexRange, hn, List.range_succ_eq_map, List.map_cons,
    List.foldlM_cons]
  rfl

end

theorem foldlM_eq_none {ι σ : Type*} {f : σ → ι → Option σ} {is : List ι} {i : ι} (hi : i ∈ is)
    (hf : ∀ s, f s i = none) (s : σ) : is.foldlM f s = none := by
  induction is generalizing s with
  | nil => cases hi
  | cons j is ih =>
    rw [List.foldlM_cons]
    rcases List.mem_cons.mp hi with rfl | hi
    · rw [hf]
      rfl
    · cases f s j with
      | none => rfl
      | some t => exact ih hi t

/-! ### The timestamps at a TTI -/

/-- The timestamps of the entries for the TTI `t` in the logs of the cells `is`. -/
def entryTimes (dciAll : ℕ → NgscopeDci) (is : List ℕ) (t : ℕ) : List ℕ :=
  is.flatMap fun i =>
    (entryAt (dciAll i) t).toList.map fun j => ((dciAll i).timeStampUs j).toNat

def listedTimes (dciAll : ℕ → NgscopeDci) (nofCell t : ℕ) : List ℕ :=
  entryTimes dciAll (List.range nofCell) t

/-- Those of the cells whose loop runs, and those of the others. -/
def countedTimes (dciAll : ℕ → NgscopeDci) (nofCell : ℕ) (tailTti headerTti : UInt16) (t : ℕ) :
    List ℕ :=
  entryTimes dciAll
    ((List.range nofCell).filter fun i => loopRuns tailTti headerTti (dciAll i)) t

def missedTimes (dciAll : ℕ → NgscopeDci) (nofCell : ℕ) (tailTti headerTti : UInt16) (t : ℕ) :
    List ℕ :=
  entryTimes dciAll
    ((List.range nofCell).filter fun i => !loopRuns tailTti headerTti (dciAll i)) t

theorem listedTimes_perm (dciAll : ℕ → NgscopeDci) (nofCell : ℕ) (tailTti headerTti : UInt16)
    (t : ℕ) : (countedTimes dciAll nofCell tailTti headerTti t ++
      missedTimes dciAll nofCell tailTti headerTti t).Perm (listedTimes dciAll nofCell t) := by
  rw [countedTimes, missedTimes, listedTimes, entryTimes, entryTimes, ← List.flatMap_append]
  exact (List.filter_append_perm _ _).flatMap_right _

theorem length_entryTimes_le (dciAll : ℕ → NgscopeDci) (is : List ℕ) (t : ℕ) :
    (entryTimes dciAll is t).length ≤ is.length := by
  induction is with
  | nil => exact le_refl _
  | cons i is ih =>
    rw [entryTimes, List.flatMap_cons, List.length_append, List.length_map, List.length_cons]
    have hone : (entryAt (dciAll i) t).toList.length ≤ 1 := by
      cases entryAt (dciAll i) t <;> simp
    rw [entryTimes] at ih
    omega

theorem length_entryTimes {dciAll : ℕ → NgscopeDci} {is : List ℕ} {t : ℕ}
    (h : ∀ i ∈ is, (entryAt (dciAll i) t).isSome) :
    (entryTimes dciAll is t).length = is.length := by
  induction is with
  | nil => rfl
  | cons i is ih =>
    obtain ⟨hi, hrest⟩ := List.forall_mem_cons.mp h
    obtain ⟨j, hj⟩ := Option.isSome_iff_exists.mp hi
    have hlen := ih hrest
    rw [entryTimes] at hlen
    rw [entryTimes, List.flatMap_cons, hj, List.length_append, hlen, List.length_cons]
    exact Nat.add_comm 1 is.length

theorem lt_of_mem_entryTimes {dciAll : ℕ → NgscopeDci} {is : List ℕ} {t x : ℕ}
    (hx : x ∈ entryTimes dciAll is t) : x < 2^64 := by
  obtain ⟨i, _, hi⟩ := List.mem_flatMap.mp hx
  obtain ⟨j, _, rfl⟩ := List.mem_map.mp hi
  exact UInt64.toNat_lt _

theorem length_listedTimes_le (dciAll : ℕ → NgscopeDci) (nofCell t : ℕ) :
    (listedTimes dciAll nofCell t).length ≤ nofCell :=
  (length_entryTimes_le dciAll _ t).trans (List.length_range).le

/-! ### What the trace holds -/

section
variable {dciAll : ℕ → NgscopeDci} {nofCell : ℕ} {tailTti headerTti : UInt16}

/-- Of the cells, only those whose loop runs add to the trace. -/
theorem flatMap_cellLoop_eq (hlogs : ∀ i < nofCell, CellLog (dciAll i))
    (htail : ∀ i < nofCell, tailTti.toNat ∈ logTtis (dciAll i)) {k : ℕ}
    (hk : k ≤ cdist maxTti tailTti.toNat headerTti.toNat) {is : List ℕ}
    (his : ∀ i ∈ is, i < nofCell) {α : Type*} (value : NgscopeDci → ℕ → α) :
    (is.flatMap fun i => ((cellLoop (dciAll i) tailTti headerTti).filter
        (fun j => traceIdx (dciAll i) tailTti j = k)).map (fun j => value (dciAll i) j.toNat)) =
      (is.filter fun i => loopRuns tailTti headerTti (dciAll i)).flatMap fun i =>
        (entryAt (dciAll i) ((tailTti.toNat+k)%maxTti)).toList.map (value (dciAll i)) := by
  induction is with
  | nil => rfl
  | cons i is ih =>
    obtain ⟨hi, hrest⟩ := List.forall_mem_cons.mp his
    rw [List.flatMap_cons, ih hrest]
    by_cases hruns : loopRuns tailTti headerTti (dciAll i) = true
    · have hcell := (cellCovers_of_loopRuns (hlogs i hi) (htail i hi) hruns).map_filter_eq hk
        (value (dciAll i))
      rw [hcell]
      simp only [List.filter_cons, hruns, if_true, List.flatMap_cons]
    · rw [cellLoop_of_not_loopRuns hruns]
      simp only [List.filter_cons, hruns, List.filter_nil, List.map_nil, List.nil_append]
      rfl

/-- The quotients of the counted timestamps do not wrap. -/
theorem sum_quotients_lt (t : ℕ) :
    ((countedTimes dciAll nofCell tailTti headerTti t).map (·/nofCell)).sum < 2^64 := by
  set counted := countedTimes dciAll nofCell tailTti headerTti t with hcounted
  have hlen : counted.length ≤ nofCell := by
    rw [hcounted, countedTimes]
    refine (length_entryTimes_le _ _ _).trans ((List.length_filter_le _ _).trans ?_)
    rw [List.length_range]
  have hsum : (counted.map (·/nofCell)).sum ≤ counted.length*((2^64-1)/nofCell) := by
    have hle := List.sum_le_card_nsmul (counted.map (·/nofCell)) ((2^64-1)/nofCell) (by
      intro q hq
      obtain ⟨x, hx, rfl⟩ := List.mem_map.mp hq
      have hlt := lt_of_mem_entryTimes hx
      exact Nat.div_le_div_right (by omega))
    rwa [List.length_map, nsmul_eq_mul, Nat.cast_id] at hle
  calc (counted.map (·/nofCell)).sum ≤ counted.length*((2^64-1)/nofCell) := hsum
    _ ≤ nofCell*((2^64-1)/nofCell) := Nat.mul_le_mul_right _ hlen
    _ ≤ 2^64-1 := Nat.mul_div_le _ _
    _ < 2^64 := by norm_num

theorem tail_mem_of_extractCaTrace (hcaTail : (dciAll 0).caTail = tailTti.toNat)
    {res : NgscopeReTxCa} (hres : extractCaTrace dciAll nofCell = some res) :
    ∀ i < nofCell, tailTti.toNat ∈ logTtis (dciAll i) := by
  intro i hi
  by_contra hmem
  have hnone := foldlM_eq_none (f := fun res i =>
      extractCaCell (dciAll i) nofCell (UInt16.ofNat (dciAll 0).caHeader) tailTti res)
    (List.mem_range.mpr hi) (extractCaCell_of_not_mem hmem nofCell)
    (caTraceStart (UInt16.ofNat (dciAll 0).caHeader) tailTti)
  rw [extractCaTrace, hcaTail, UInt16.ofNat_toNat] at hres
  exact absurd (hres.symm.trans hnone) (by simp)

/-- With the tail in every log the trace is extracted, and holds at each index of the window the
sum of the quotients. -/
theorem extractCaTrace_rxTUs (hpos : 1 ≤ nofCell) (hmax : nofCell ≤ maxNofRfDev)
    (hcaTail : (dciAll 0).caTail = tailTti.toNat)
    (hcaHeader : (dciAll 0).caHeader = headerTti.toNat) (hheader : headerTti.toNat < maxTti)
    (hlogs : ∀ i < nofCell, CellLog (dciAll i))
    (htail : ∀ i < nofCell, tailTti.toNat ∈ logTtis (dciAll i)) :
    ∃ res, extractCaTrace dciAll nofCell = some res ∧
      ∀ k ≤ cdist maxTti tailTti.toNat headerTti.toNat, (res.rxTUs k).toNat =
        ((countedTimes dciAll nofCell tailTti headerTti ((tailTti.toNat+k)%maxTti)).map
          (·/nofCell)).sum := by
  have htlt : tailTti.toNat < maxTti := (hlogs 0 hpos).increasing.lt _ (htail 0 hpos)
  have hsize := cdist_lt_ttiDistance htlt hheader
  refine ⟨addCells dciAll nofCell tailTti headerTti (List.range nofCell)
    (caTraceStart headerTti tailTti), ?_, ?_⟩
  · rw [extractCaTrace, hcaTail, hcaHeader, UInt16.ofNat_toNat, UInt16.ofNat_toNat]
    apply foldlM_extractCaCell_of_inBounds
    intro i hi j hj
    have hi := List.mem_range.mp hi
    by_cases hruns : loopRuns tailTti headerTti (dciAll i) = true
    · exact (cellCovers_of_loopRuns (hlogs i hi) (htail i hi) hruns).inBounds hsize hj
    · rw [cellLoop_of_not_loopRuns hruns] at hj
      cases hj
  · intro k hk
    obtain ⟨_, _, _, _, hrx⟩ := addCells_arrays dciAll nofCell tailTti headerTti
      (List.range nofCell) (caTraceStart headerTti tailTti)
    have hn : (UInt64.ofNat nofCell).toNat = nofCell :=
      UInt64.toNat_ofNat_of_lt' (lt_of_le_of_lt hmax (by decide))
    rw [hrx, foldl_scatter_apply, flatMap_cellLoop_eq hlogs htail hk
      (fun i hi => List.mem_range.mp hi) (fun d j => d.timeStampUs j/UInt64.ofNat nofCell),
      toNat_foldl_add]
    have hquot : (((List.range nofCell).filter fun i =>
        loopRuns tailTti headerTti (dciAll i)).flatMap
        fun i => (entryAt (dciAll i) ((tailTti.toNat+k)%maxTti)).toList.map
          fun j => (dciAll i).timeStampUs j/UInt64.ofNat nofCell).map UInt64.toNat =
        (countedTimes dciAll nofCell tailTti headerTti ((tailTti.toNat+k)%maxTti)).map
          (·/nofCell) := by
      rw [countedTimes, entryTimes, List.map_flatMap, List.map_flatMap]
      congr 1
      funext i
      rw [List.map_map, List.map_map]
      congr 1
      funext j
      rw [Function.comp_apply, UInt64.toNat_div, hn]
      rfl
    rw [hquot]
    change (0+_)%2^64 = _
    rw [Nat.zero_add, Nat.mod_eq_of_lt (sum_quotients_lt _)]

end

/-! ### The mean -/

def mean (xs : List ℕ) : ℚ := xs.sum/xs.length

/-- What the division by a fixed count loses on these timestamps stays below that count for each
of them: with a timestamp left out they must all be next to zero. -/
def NearZero (nofCell : ℕ) (counted missed : List ℕ) : Prop :=
  (nofCell-(counted.length+missed.length))*(counted.map (·/nofCell)).sum+
    (counted.map (·%nofCell)).sum+missed.sum ≤ nofCell*(counted.length+missed.length)

theorem sum_div_mod (n : ℕ) (xs : List ℕ) :
    n*(xs.map (·/n)).sum+(xs.map (·%n)).sum = xs.sum := by
  induction xs with
  | nil => rfl
  | cons x xs ih =>
    have hx := Nat.div_add_mod x n
    simp only [List.map_cons, List.sum_cons, Nat.mul_add]
    omega

theorem mean_perm {xs ys : List ℕ} (h : xs.Perm ys) : mean xs = mean ys := by
  rw [mean, mean, h.sum_eq, h.length_eq]

/-- The sum of the quotients never passes the mean, and is close to it when little is lost. -/
theorem close_to_mean_iff {n : ℕ} {counted missed : List ℕ}
    (hlen : (counted ++ missed).length ≤ n) (hne : counted ++ missed ≠ []) :
    |((counted.map (·/n)).sum : ℚ)-mean (counted ++ missed)| ≤ n ↔ NearZero n counted missed := by
  have hpos : 0 < (counted ++ missed).length := List.length_pos_of_ne_nil hne
  have hsum : (counted ++ missed).sum =
      n*(counted.map (·/n)).sum+(counted.map (·%n)).sum+missed.sum := by
    rw [List.sum_append, sum_div_mod]
  rw [NearZero, ← List.length_append]
  set q := (counted.map (·/n)).sum with hq
  set h := (counted ++ missed).length with hh
  have hposQ : (0:ℚ) < h := by exact_mod_cast hpos
  have hbelow : (q:ℚ) ≤ mean (counted ++ missed) := by
    rw [mean, le_div_iff₀ hposQ, hsum]
    norm_cast
    calc q*h ≤ q*n := Nat.mul_le_mul_left q hlen
      _ = n*q := Nat.mul_comm q n
      _ ≤ n*q+(counted.map (·%n)).sum+missed.sum := by omega
  have hmean : mean (counted ++ missed)-q ≤ n ↔
      n*q+(counted.map (·%n)).sum+missed.sum ≤ n*h+q*h := by
    rw [sub_le_iff_le_add, mean, div_le_iff₀ hposQ, hsum, add_mul]
    norm_cast
  have hsplit : (n-h)*q+q*h = n*q := by
    rw [Nat.mul_comm q h, ← Nat.add_mul, Nat.sub_add_cancel hlen]
  rw [abs_sub_comm, abs_of_nonneg (sub_nonneg.mpr hbelow), hmean]
  omega

/-- Every cell copies an entry for the TTI `t`. -/
def AllCounted (dciAll : ℕ → NgscopeDci) (nofCell : ℕ) (tailTti headerTti : UInt16) (t : ℕ) :
    Prop :=
  ∀ i < nofCell, loopRuns tailTti headerTti (dciAll i) = true ∧ (entryAt (dciAll i) t).isSome

/-- At each TTI of the window that some cell logged, the trace holds the mean of the timestamps
logged for it, up to one microsecond for each cell. -/
def RxTimeIsMean (dciAll : ℕ → NgscopeDci) (nofCell : ℕ) (tailTti headerTti : UInt16) : Prop :=
  ∃ res, extractCaTrace dciAll nofCell = some res ∧
    ∀ k ≤ cdist maxTti tailTti.toNat headerTti.toNat,
      listedTimes dciAll nofCell ((tailTti.toNat+k)%maxTti) ≠ [] →
      |((res.rxTUs k).toNat : ℚ)-mean (listedTimes dciAll nofCell ((tailTti.toNat+k)%maxTti))| ≤
        nofCell

/-- The tail is in every log, and at each TTI of the window that some cell logged every cell
copies an entry. -/
structure EveryTtiCounted (dciAll : ℕ → NgscopeDci) (nofCell : ℕ) (tailTti headerTti : UInt16) :
    Prop where
  tail_mem : ∀ i < nofCell, tailTti.toNat ∈ logTtis (dciAll i)
  counted : ∀ k ≤ cdist maxTti tailTti.toNat headerTti.toNat,
    listedTimes dciAll nofCell ((tailTti.toNat+k)%maxTti) ≠ [] →
    AllCounted dciAll nofCell tailTti headerTti ((tailTti.toNat+k)%maxTti)

section
variable {dciAll : ℕ → NgscopeDci} {nofCell : ℕ} {tailTti headerTti : UInt16}

theorem nearZero_of_allCounted {t : ℕ} (hpos : 1 ≤ nofCell)
    (hall : AllCounted dciAll nofCell tailTti headerTti t) :
    NearZero nofCell (countedTimes dciAll nofCell tailTti headerTti t)
      (missedTimes dciAll nofCell tailTti headerTti t) := by
  have hmissed : missedTimes dciAll nofCell tailTti headerTti t = [] := by
    rw [missedTimes, List.filter_eq_nil_iff.mpr, entryTimes, List.flatMap_nil]
    intro i hi
    rw [(hall i (List.mem_range.mp hi)).1]
    simp
  have hcounted : (countedTimes dciAll nofCell tailTti headerTti t).length = nofCell := by
    have hruns : (List.range nofCell).filter (fun i => loopRuns tailTti headerTti (dciAll i)) =
        List.range nofCell := List.filter_eq_self.mpr fun i hi => (hall i (List.mem_range.mp hi)).1
    rw [countedTimes, hruns, length_entryTimes fun i hi => (hall i (List.mem_range.mp hi)).2,
      List.length_range]
  rw [NearZero, hmissed, hcounted, List.length_nil, Nat.add_zero, Nat.sub_self, Nat.zero_mul,
    Nat.zero_add, List.sum_nil, Nat.add_zero]
  have hle := List.sum_le_card_nsmul
    ((countedTimes dciAll nofCell tailTti headerTti t).map (·%nofCell)) nofCell (by
      intro r hr
      obtain ⟨x, _, rfl⟩ := List.mem_map.mp hr
      exact (Nat.mod_lt x hpos).le)
  rwa [List.length_map, nsmul_eq_mul, Nat.cast_id, hcounted] at hle

/-- Where a cell is missing and the trace is still close to the mean, the timestamps are those
of the first microseconds. -/
theorem NearZero.sum_le {counted missed : List ℕ} (h : NearZero nofCell counted missed)
    (hlt : counted.length+missed.length < nofCell) :
    counted.sum+missed.sum ≤ nofCell*(nofCell*(counted.length+missed.length)) := by
  rw [NearZero] at h
  rw [← sum_div_mod nofCell counted]
  set q := (counted.map (·/nofCell)).sum
  set r := (counted.map (·%nofCell)).sum
  have hpos : 1 ≤ nofCell-(counted.length+missed.length) := by omega
  have hq : q ≤ (nofCell-(counted.length+missed.length))*q := Nat.le_mul_of_pos_left q hpos
  have hr : r+missed.sum ≤ nofCell*(r+missed.sum) := Nat.le_mul_of_pos_left _ (by omega)
  calc nofCell*q+r+missed.sum ≤ nofCell*q+nofCell*(r+missed.sum) := by omega
    _ = nofCell*(q+r+missed.sum) := by ring
    _ ≤ nofCell*(nofCell*(counted.length+missed.length)) := Nat.mul_le_mul_left _ (by omega)

theorem listedTimes_ne_nil {t : ℕ} : listedTimes dciAll nofCell t ≠ [] ↔
    countedTimes dciAll nofCell tailTti headerTti t ++
      missedTimes dciAll nofCell tailTti headerTti t ≠ [] := by
  have hperm := listedTimes_perm dciAll nofCell tailTti headerTti t
  constructor
  · intro h hnil
    rw [hnil] at hperm
    exact h hperm.nil_eq.symm
  · intro h hnil
    rw [hnil] at hperm
    exact h hperm.eq_nil

/-- At one TTI of the window. -/
theorem close_to_mean_listed_iff {t : ℕ} (hne : listedTimes dciAll nofCell t ≠ []) :
    |(((countedTimes dciAll nofCell tailTti headerTti t).map (·/nofCell)).sum : ℚ)-
        mean (listedTimes dciAll nofCell t)| ≤ nofCell ↔
      NearZero nofCell (countedTimes dciAll nofCell tailTti headerTti t)
        (missedTimes dciAll nofCell tailTti headerTti t) := by
  have hperm := listedTimes_perm dciAll nofCell tailTti headerTti t
  rw [← mean_perm hperm]
  apply close_to_mean_iff
  · rw [hperm.length_eq]
    exact length_listedTimes_le dciAll nofCell t
  · exact listedTimes_ne_nil.mp hne

theorem RxTimeIsMean.nearZero (hpos : 1 ≤ nofCell) (hmax : nofCell ≤ maxNofRfDev)
    (hcaTail : (dciAll 0).caTail = tailTti.toNat)
    (hcaHeader : (dciAll 0).caHeader = headerTti.toNat) (hheader : headerTti.toNat < maxTti)
    (hlogs : ∀ i < nofCell, CellLog (dciAll i))
    (h : RxTimeIsMean dciAll nofCell tailTti headerTti) :
    (∀ i < nofCell, tailTti.toNat ∈ logTtis (dciAll i)) ∧
      ∀ k ≤ cdist maxTti tailTti.toNat headerTti.toNat,
        listedTimes dciAll nofCell ((tailTti.toNat+k)%maxTti) ≠ [] →
        NearZero nofCell (countedTimes dciAll nofCell tailTti headerTti ((tailTti.toNat+k)%maxTti))
          (missedTimes dciAll nofCell tailTti headerTti ((tailTti.toNat+k)%maxTti)) := by
  obtain ⟨res, hres, hclose⟩ := h
  have htail := tail_mem_of_extractCaTrace hcaTail hres
  obtain ⟨res', hres', hrx⟩ := extractCaTrace_rxTUs hpos hmax hcaTail hcaHeader hheader hlogs htail
  rw [hres, Option.some.injEq] at hres'
  subst hres'
  refine ⟨htail, ?_⟩
  intro k hk hne
  have hat := hclose k hk hne
  rw [hrx k hk] at hat
  exact (close_to_mean_listed_iff hne).mp hat

theorem length_entryTimes_lt {is : List ℕ} {t i : ℕ} (hi : i ∈ is)
    (hnone : entryAt (dciAll i) t = none) : (entryTimes dciAll is t).length < is.length := by
  induction is with
  | nil => cases hi
  | cons j is ih =>
    rw [entryTimes, List.flatMap_cons, List.length_append, List.length_map, List.length_cons]
    have hle := length_entryTimes_le dciAll is t
    rw [entryTimes] at hle
    rcases List.mem_cons.mp hi with rfl | hi
    · rw [hnone, Option.toList_none, List.length_nil]
      omega
    · have hone : (entryAt (dciAll j) t).toList.length ≤ 1 := by
        cases entryAt (dciAll j) t <;> simp
      have hlt := ih hi
      rw [entryTimes] at hlt
      omega

/-- With a cell left out, timestamps above the square of the count are not next to zero. -/
theorem not_nearZero_of_missing {t : ℕ} (hne : listedTimes dciAll nofCell t ≠ [])
    (hlarge : ∀ x ∈ listedTimes dciAll nofCell t, nofCell*nofCell < x)
    (hnot : ¬ AllCounted dciAll nofCell tailTti headerTti t) :
    ¬ NearZero nofCell (countedTimes dciAll nofCell tailTti headerTti t)
      (missedTimes dciAll nofCell tailTti headerTti t) := by
  intro hzero
  have hperm := listedTimes_perm dciAll nofCell tailTti headerTti t
  have hlen := hperm.length_eq
  rw [List.length_append] at hlen
  by_cases hall : ∀ i < nofCell, (entryAt (dciAll i) t).isSome
  · -- a loop that does not run leaves out a timestamp
    obtain ⟨i, hi, hruns⟩ : ∃ i < nofCell, ¬ loopRuns tailTti headerTti (dciAll i) = true := by
      by_contra hno
      exact hnot fun i hi => ⟨by_contra fun hruns => hno ⟨i, hi, hruns⟩, hall i hi⟩
    obtain ⟨j, hj⟩ := Option.isSome_iff_exists.mp (hall i hi)
    have hmem : ((dciAll i).timeStampUs j).toNat ∈
        missedTimes dciAll nofCell tailTti headerTti t := by
      apply List.mem_flatMap.mpr
      refine ⟨i, List.mem_filter.mpr ⟨List.mem_range.mpr hi, ?_⟩, ?_⟩
      · simpa using hruns
      · rw [hj, Option.toList_some, List.map_singleton]
        exact List.mem_singleton_self _
    have hlisted := hlarge _ (hperm.subset (List.mem_append_right _ hmem))
    have hsum := List.single_le_sum (fun _ _ => Nat.zero_le _) _ hmem
    have hle := Nat.mul_le_mul_left nofCell (length_listedTimes_le dciAll nofCell t)
    rw [NearZero, hlen] at hzero
    omega
  · -- fewer timestamps than cells
    push Not at hall
    obtain ⟨i, hi, hnone⟩ := hall
    have hlt : (listedTimes dciAll nofCell t).length < nofCell := by
      have hlt := length_entryTimes_lt (List.mem_range.mpr hi)
        (Option.not_isSome_iff_eq_none.mp hnone)
      rwa [List.length_range] at hlt
    have hle := hzero.sum_le (by omega)
    have hsum := List.card_nsmul_le_sum (listedTimes dciAll nofCell t) (nofCell*nofCell+1) hlarge
    have hpos := List.length_pos_of_ne_nil hne
    rw [← List.sum_append, hperm.sum_eq, hlen, ← Nat.mul_assoc] at hle
    rw [nsmul_eq_mul, Nat.cast_id, Nat.mul_add, Nat.mul_one, Nat.mul_comm] at hsum
    omega

/-- The trace holds the means when the tail is in every log and every cell copies an entry at each
logged TTI of the window, and with timestamps above the square of the cell count only then. -/
theorem rxTimeIsMean_iff (hpos : 1 ≤ nofCell) (hmax : nofCell ≤ maxNofRfDev)
    (hcaTail : (dciAll 0).caTail = tailTti.toNat)
    (hcaHeader : (dciAll 0).caHeader = headerTti.toNat) (hheader : headerTti.toNat < maxTti)
    (hlogs : ∀ i < nofCell, CellLog (dciAll i)) :
    (EveryTtiCounted dciAll nofCell tailTti headerTti →
      RxTimeIsMean dciAll nofCell tailTti headerTti) ∧
    ((∀ k ≤ cdist maxTti tailTti.toNat headerTti.toNat,
        ∀ x ∈ listedTimes dciAll nofCell ((tailTti.toNat+k)%maxTti), nofCell*nofCell < x) →
      (RxTimeIsMean dciAll nofCell tailTti headerTti ↔
        EveryTtiCounted dciAll nofCell tailTti headerTti)) := by
  have henough : EveryTtiCounted dciAll nofCell tailTti headerTti →
      RxTimeIsMean dciAll nofCell tailTti headerTti := by
    intro h
    obtain ⟨res, hres, hrx⟩ :=
      extractCaTrace_rxTUs hpos hmax hcaTail hcaHeader hheader hlogs h.tail_mem
    refine ⟨res, hres, ?_⟩
    intro k hk hne
    rw [hrx k hk]
    apply (close_to_mean_listed_iff hne).mpr
    exact nearZero_of_allCounted hpos (h.counted k hk hne)
  refine ⟨henough, fun hlarge => ⟨fun h => ?_, henough⟩⟩
  obtain ⟨htail, hzero⟩ := h.nearZero hpos hmax hcaTail hcaHeader hheader hlogs
  refine ⟨htail, ?_⟩
  intro k hk hne
  by_contra hnot
  exact not_nearZero_of_missing hne (hlarge k hk) hnot (hzero k hk hne)

end

/-! ### Full logs and a missed DCI -/

def timedDci (tti : UInt16) : UeDci :=
  { UeDci.zero with timeStamp := 1000*tti.toUInt64, tti := tti }

theorem two_le_maxNofRfDev : 2 ≤ maxNofRfDev := by decide

/-- Two cells with the window from TTI 5 to TTI 7 and the given logs. -/
def windowCA (ttis : ℕ → List UInt16) : NgscopeDciCA where
  cellDci := fun i => (ttis i).foldl (fun cell tti => cell.insert (timedDci tti))
    ngscopeDciCellInit
  caReady := true
  header := 7
  tail := 5
  nofCell := 2
  currTime := 7000
  nofCell_le := two_le_maxNofRfDev

def fullDci : ℕ → NgscopeDci :=
  fun i => ngscopeDciExtractSingleCell (windowCA fun _ => [4,5,6,7]) i

/-- Cell 1 missed TTI 6. -/
def missedDci : ℕ → NgscopeDci :=
  fun i => ngscopeDciExtractSingleCell (windowCA fun i => if i = 0 then [4,5,6,7] else [4,5,7]) i

theorem cellLog_fullDci (i : ℕ) : CellLog (fullDci i) := by
  have hsame : fullDci i = fullDci 0 := rfl
  have httis : logTtis (fullDci 0) = [4,5,6,7] := by decide +kernel
  rw [hsame]
  refine ⟨?_, by decide +kernel⟩
  rw [httis]
  exact ⟨by decide, by decide⟩

theorem everyTtiCounted_fullDci : EveryTtiCounted fullDci 2 5 7 := by
  refine ⟨fun i _ => ?_, fun k hk _ i _ => ⟨?_, ?_⟩⟩
  · change (5:UInt16).toNat ∈ logTtis (fullDci 0)
    decide +kernel
  · change loopRuns 5 7 (fullDci 0) = true
    decide +kernel
  · change (entryAt (fullDci 0) (((5:UInt16).toNat+k)%maxTti)).isSome
    have hk : k ≤ 2 := hk
    obtain rfl | rfl | rfl : k = 0 ∨ k = 1 ∨ k = 2 := by omega
    · decide +kernel
    · decide +kernel
    · decide +kernel

theorem rxTimeIsMean_iff_fullDci :
    RxTimeIsMean fullDci 2 5 7 ∧ EveryTtiCounted fullDci 2 5 7 := by
  have hthm : (EveryTtiCounted fullDci 2 5 7 → RxTimeIsMean fullDci 2 5 7) ∧ _ :=
    rxTimeIsMean_iff (by decide) (by decide) rfl rfl (by decide) fun i _ => cellLog_fullDci i
  obtain ⟨henough, hiff⟩ := hthm
  have hmean := henough everyTtiCounted_fullDci
  refine ⟨hmean, (hiff fun k hk => ?_).mp hmean⟩
  have hk : k ≤ 2 := hk
  obtain rfl | rfl | rfl : k = 0 ∨ k = 1 ∨ k = 2 := by omega
  · decide +kernel
  · decide +kernel
  · decide +kernel

theorem cellLog_missedDci {i : ℕ} (hi : i < 2) : CellLog (missedDci i) := by
  have hcases : i = 0 ∨ i = 1 := by omega
  rcases hcases with rfl | rfl
  · have httis : logTtis (missedDci 0) = [4,5,6,7] := by decide +kernel
    refine ⟨?_, by decide +kernel⟩
    rw [httis]
    exact ⟨by decide, by decide⟩
  · have httis : logTtis (missedDci 1) = [4,5,7] := by decide +kernel
    refine ⟨?_, by decide +kernel⟩
    rw [httis]
    exact ⟨by decide, by decide⟩

/-- At TTI 6 only cell 0 logged a DCI, at 6000 microseconds, and the trace holds 3000. -/
theorem not_rxTimeIsMean_missedDci : ¬ RxTimeIsMean missedDci 2 5 7 := by
  intro h
  have hzero := (h.nearZero (by decide) (by decide) rfl rfl (by decide)
    fun _ hi => cellLog_missedDci hi).2 1 (by decide) (by decide +kernel)
  have hcounted : countedTimes missedDci 2 5 7 6 = [6000] := by decide +kernel
  have hmissed : missedTimes missedDci 2 5 7 6 = [] := by decide +kernel
  change NearZero 2 (countedTimes missedDci 2 5 7 6) (missedTimes missedDci 2 5 7 6) at hzero
  rw [hcounted, hmissed, NearZero] at hzero
  exact absurd hzero (by decide)

end CopaNgscope
