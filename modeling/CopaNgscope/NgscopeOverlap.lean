import CopaNgscope.NgscopeCAMerge
import CopaNgscope.NgscopeTtiOrder

/-! The overlap of the cells' logs. `get_overlapping_tti` takes the first TTI of each log, and
in place of the last one the entry behind it. -/
namespace CopaNgscope
open CircularDistance

/-- `get_overlapping_tti`; `readTti` is an access to entry `k` of the array `tti` of a cell. -/
def getOverlappingTti (readTti : NgscopeDci → ℕ → Option UInt16) (q : ℕ → NgscopeDci)
    (nofCell : ℕ) : Option (UInt16 × UInt16) := do
  let startIdx ← (List.range nofCell).mapM (fun i => readTti (q i) 0)
  let endIdx ← (List.range nofCell).mapM (fun i => readTti (q i) (q i).nofDci)
  return (maxTtiInArray startIdx, maxTtiInArray endIdx)

/-- An access to an entry of the log; any other one fails. -/
def loggedTti (d : NgscopeDci) (k : ℕ) : Option UInt16 :=
  if k < d.nofDci then some (d.tti k) else none

/-- What an access finds in memory; `stray` is what lies behind the array. -/
def memoryTti (stray : NgscopeDci → ℕ → UInt16) (d : NgscopeDci) (k : ℕ) : Option UInt16 :=
  some (if k < nofLogDci then d.tti k else stray d k)

/-- One to four cells have logged 1 to 1000 consecutive TTIs each, and one TTI is in all logs. -/
structure SharedLogs (q : ℕ → NgscopeDci) (nofCell : ℕ) : Prop where
  nofCell_pos : 1 ≤ nofCell
  nofCell_le : nofCell ≤ maxNofRfDev
  nofDci_pos : ∀ i < nofCell, 1 ≤ (q i).nofDci
  nofDci_le : ∀ i < nofCell, (q i).nofDci ≤ nofLogDci
  consecutive : ∀ i < nofCell, Consecutive maxTti (logTtis (q i))
  shared : ∃ t, ∀ i < nofCell, t ∈ logTtis (q i)

/-- The first and the last TTI of each cell. -/
def firstTtis (q : ℕ → NgscopeDci) (nofCell : ℕ) : List ℕ :=
  (List.range nofCell).map (fun i => ((q i).tti 0).toNat)

def lastTtis (q : ℕ → NgscopeDci) (nofCell : ℕ) : List ℕ :=
  (List.range nofCell).map (fun i => ((q i).tti ((q i).nofDci-1)).toNat)

/-- The TTIs from `s` to `e` are those in all logs. -/
def IsOverlap (q : ℕ → NgscopeDci) (nofCell : ℕ) (s e : UInt16) : Prop :=
  IsNewest maxTti (firstTtis q nofCell) s.toNat ∧ IsOldest maxTti (lastTtis q nofCell) e.toNat

theorem SharedLogs.map_ne_nil {q : ℕ → NgscopeDci} {nofCell : ℕ} (h : SharedLogs q nofCell)
    (f : ℕ → UInt16) : (List.range nofCell).map f ≠ [] := by
  rw [← List.length_pos_iff, List.length_map, List.length_range]
  exact h.nofCell_pos

/-! ### The start -/

/-- Less than half a cycle after a base, the TTI with the largest distance is the newest. -/
theorem AfterBase.isNewest {b : ℕ} {array : List UInt16} (h : AfterBase b array)
    (hne : array ≠ []) :
    IsNewest maxTti (array.map UInt16.toNat) (maxTtiInArray array).toNat := by
  obtain ⟨hmem, hlatest⟩ := h.maxTtiInArray_spec hne
  refine ⟨List.mem_map_of_mem hmem, fun x hx => ?_⟩
  obtain ⟨a, ha, rfl⟩ := List.mem_map.mp hx
  have hlt := (h _ hmem).2
  have hcycle : maxTti = 10240 := rfl
  rw [cdist_of_le (by decide) (hlatest a ha)]
  omega

/-- Logs that share a TTI start less than 1000 TTIs before it. -/
theorem SharedLogs.exists_afterBase {q : ℕ → NgscopeDci} {nofCell : ℕ}
    (h : SharedLogs q nofCell) :
    ∃ b, AfterBase b ((List.range nofCell).map (fun i => (q i).tti 0)) := by
  obtain ⟨t, ht⟩ := h.shared
  -- as far before the shared TTI as a log can start
  obtain ⟨b, _, hb⟩ := exists_cdist_eq (n := maxTti) (k := nofLogDci-1) (by decide) t
  refine ⟨b, fun a ha => ?_⟩
  obtain ⟨i, hi, rfl⟩ := List.mem_map.mp ha
  have hi' := List.mem_range.mp hi
  have hcons := h.consecutive i hi'
  have hlen := length_logTtis (q i)
  have hpos := h.nofDci_pos i hi'
  have hle := h.nofDci_le i hi'
  have hfirst := getElem_logTtis (q i) (j := 0) (by omega)
  have hmem := ht i hi'
  cases hlog : logTtis (q i) with
  | nil =>
    rw [hlog] at hlen
    exact absurd hlen.symm (Nat.ne_of_gt hpos)
  | cons o xs =>
    simp only [hlog, List.getElem_cons_zero] at hfirst hcons hmem hlen
    have hbase := hcons.mem_iff_of_base (k := nofLogDci-1) (by unfold nofLogDci at *; omega)
      (by decide) hmem hb
    rw [← hfirst]
    refine ⟨hcons.lt o List.mem_cons_self, ?_⟩
    exact Nat.lt_of_le_of_lt hbase.1 (by decide)

/-- What the two reads of each cell find in memory. -/
theorem getOverlappingTti_memory (stray : NgscopeDci → ℕ → UInt16) (q : ℕ → NgscopeDci)
    (nofCell : ℕ) :
    getOverlappingTti (memoryTti stray) q nofCell =
      some (maxTtiInArray ((List.range nofCell).map (fun i => (q i).tti 0)),
        maxTtiInArray ((List.range nofCell).map (fun i =>
          if (q i).nofDci < nofLogDci then (q i).tti (q i).nofDci
          else stray (q i) (q i).nofDci))) := by
  have hread (f : ℕ → UInt16) :
      (List.range nofCell).mapM (fun i => some (f i)) = some ((List.range nofCell).map f) :=
    List.mapM_pure
  unfold getOverlappingTti memoryTti
  rw [hread, hread]
  rfl

theorem SharedLogs.isNewest_start {q : ℕ → NgscopeDci} {nofCell : ℕ}
    (h : SharedLogs q nofCell) :
    IsNewest maxTti (firstTtis q nofCell)
      (maxTtiInArray ((List.range nofCell).map (fun i => (q i).tti 0))).toNat := by
  obtain ⟨b, hb⟩ := h.exists_afterBase
  have hnew := hb.isNewest (h.map_ne_nil _)
  rwa [List.map_map] at hnew

/-! ### The end -/

/-- With a cell at all, the second read is behind the log. -/
theorem getOverlappingTti_logged (q : ℕ → NgscopeDci) {nofCell : ℕ} (hpos : 1 ≤ nofCell) :
    getOverlappingTti loggedTti q nofCell = none := by
  obtain ⟨n, rfl⟩ := Nat.exists_eq_add_of_le' hpos
  have hbehind : (List.range (n+1)).mapM (fun i => loggedTti (q i) (q i).nofDci) = none := by
    rw [List.range_succ_eq_map, List.mapM_cons, loggedTti, if_neg (lt_irrefl _)]
    rfl
  rw [getOverlappingTti, hbehind]
  cases (List.range (n+1)).mapM (fun i => loggedTti (q i) 0) with
  | none => rfl
  | some startIdx => rfl

/-- The TTI after one of the positions is not the oldest of them. -/
theorem not_isOldest_next {xs : List ℕ} {x : ℕ} (hx : x ∈ xs) :
    ¬ IsOldest maxTti xs ((x+1)%maxTti) := by
  intro h
  have hback : cdist maxTti ((x+1)%maxTti) x = maxTti-1 := by
    apply cdist_eq_of_emod (by decide)
    unfold maxTti
    omega
  have hlt := h.2 x hx
  rw [hback] at hlt
  exact absurd hlt (by decide)

theorem SharedLogs.end_behind {q : ℕ → NgscopeDci} {nofCell : ℕ} (h : SharedLogs q nofCell)
    {behind : ℕ → UInt16}
    (hnext : ∀ i < nofCell,
      (behind i).toNat = (((q i).tti ((q i).nofDci-1)).toNat+1)%maxTti) :
    ¬ IsOldest maxTti (lastTtis q nofCell)
      (maxTtiInArray ((List.range nofCell).map behind)).toNat := by
  have hlt : ∀ a ∈ (List.range nofCell).map behind, a.toNat < maxTti := by
    intro a ha
    obtain ⟨i, hi, rfl⟩ := List.mem_map.mp ha
    rw [hnext i (List.mem_range.mp hi)]
    exact Nat.mod_lt _ (by decide)
  -- the result is the TTI after the last one of some cell
  obtain ⟨i, hi, heq⟩ := List.mem_map.mp (maxTtiInArray_mem (h.map_ne_nil behind) hlt)
  rw [← heq, hnext i (List.mem_range.mp hi)]
  exact not_isOldest_next (List.mem_map_of_mem hi)

/-- With logs that share a TTI the start is right, but every call reads behind each log, so that
no call finds the overlap in the logs. Where the entries behind go on counting, the end found in
memory is wrong as well. -/
theorem getOverlappingTti_never {q : ℕ → NgscopeDci} {nofCell : ℕ} (h : SharedLogs q nofCell) :
    (¬ ∃ s e, getOverlappingTti loggedTti q nofCell = some (s,e) ∧ IsOverlap q nofCell s e) ∧
      ∀ stray, ∃ s e, getOverlappingTti (memoryTti stray) q nofCell = some (s,e) ∧
        IsNewest maxTti (firstTtis q nofCell) s.toNat ∧
        ((∀ i < nofCell, ∃ t, memoryTti stray (q i) (q i).nofDci = some t ∧
            t.toNat = (((q i).tti ((q i).nofDci-1)).toNat+1)%maxTti) →
          ¬ IsOldest maxTti (lastTtis q nofCell) e.toNat) := by
  constructor
  · rintro ⟨s, e, hrun, _⟩
    rw [getOverlappingTti_logged q h.nofCell_pos] at hrun
    cases hrun
  · intro stray
    refine ⟨_, _, getOverlappingTti_memory stray q nofCell, h.isNewest_start, fun hnext => ?_⟩
    apply h.end_behind
    intro i hi
    obtain ⟨t, ht, hval⟩ := hnext i hi
    rw [← hval, ← Option.some.inj ht]

/-- One cell that has logged the single TTI 5, as it is extracted. -/
def singleLog (_ : ℕ) : NgscopeDci where
  nofDci := 1
  caHeader := 5
  caTail := 6
  timeStampUs := fun _ => 0
  tti := Function.update (fun _ => 0) 0 5
  currTime := 0
  dlDci := UeLinkDci.zero
  ulDci := UeLinkDci.zero

theorem logTtis_singleLog (i : ℕ) : logTtis (singleLog i) = [5] := rfl

theorem sharedLogs_singleLog : SharedLogs singleLog 1 where
  nofCell_pos := le_rfl
  nofCell_le := by decide
  nofDci_pos := fun _ _ => le_rfl
  nofDci_le := fun _ _ => by simp [singleLog, nofLogDci]
  consecutive := by
    intro i _
    rw [logTtis_singleLog]
    exact ⟨by decide, List.IsChain.singleton 5⟩
  shared := ⟨5, fun i _ => by simp [logTtis_singleLog]⟩

/-- The logs of one cell overlap in TTI 5, and the end is reported as TTI 0. -/
theorem getOverlappingTti_singleLog :
    SharedLogs singleLog 1 ∧
      getOverlappingTti (memoryTti fun _ _ => 0) singleLog 1 = some (5,0) ∧
      getOverlappingTti loggedTti singleLog 1 = none ∧ IsOverlap singleLog 1 5 5 ∧
      ¬ IsOverlap singleLog 1 5 0 := by
  refine ⟨sharedLogs_singleLog, rfl, rfl, ?_, ?_⟩
  · constructor
    · exact ⟨by decide, by decide⟩
    · exact ⟨by decide, by decide⟩
  · rintro ⟨_, hend⟩
    exact absurd hend.1 (by decide)

theorem getOverlappingTti_never_singleLog :
    ¬ ∃ s e, getOverlappingTti loggedTti singleLog 1 = some (s,e) ∧ IsOverlap singleLog 1 s e :=
  (getOverlappingTti_never sharedLogs_singleLog).1

end CopaNgscope
