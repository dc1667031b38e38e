import CopaNgscope.ByteColumn
import CopaNgscope.NgscopeDciRing
import CopaNgscope.NgscopeReTx

/-! The uplink trace, which is copied from the log of the first cell by numbers of bytes. -/
namespace CopaNgscope
open ByteColumn

/-- The bytes of an array of a log. -/
def logColumn {α : Type*} (width : ℕ) (toNat : α → ℕ) (array : ℕ → α) : List UInt8 :=
  column width ((firstEntries array nofLogDci).map toNat)

/-- `none` is a copy that leaves an array. -/
def extractCaUlTrace (dciAll : ℕ → NgscopeDci) : Option NgscopeReTxCa := do
  let d := dciAll 0
  let size := d.nofDci
  let tti ← memcpy (calloc size 2) (logColumn 2 UInt16.toNat d.tti) (size*2)
  -- the sizes of these three are those of one element
  let reTx ← memcpy (calloc size 1) (logColumn 1 UInt8.toNat d.ulDci.reTx) 1
  let tbs ← memcpy (calloc size 4) (logColumn 4 UInt32.toNat d.ulDci.tbs) 4
  let rxTUs ← memcpy (calloc size 8) (logColumn 8 UInt64.toNat d.timeStampUs) 8
  return {
    reTx := fun k => element 1 reTx k ≠ 0
    tti := fun k => UInt16.ofNat (element 2 tti k)
    tbs := fun k => UInt32.ofNat (element 4 tbs k)
    rxTUs := fun k => UInt64.ofNat (element 8 rxTUs k)
    size := size }

def ngscopeReTxUpdateUlBuf (q : NgscopeReorderingBuf) (dciAll : ℕ → NgscopeDci) :
    Option NgscopeReorderingBuf :=
  (extractCaUlTrace dciAll).map fun trace => (updateReTxBuf q trace).1

/-! ### What is copied -/

/-- Copying `m` elements of a log to a cleared array of `size`, read back element by element. -/
theorem memcpy_logColumn {α : Type*} (width : ℕ) {toNat : α → ℕ}
    (hlt : ∀ a, toNat a < 2^(8*width)) (array : ℕ → α) {size : ℕ} (m : ℕ) (hsize : m ≤ size)
    (hlog : m ≤ nofLogDci) :
    ∃ bytes, memcpy (calloc size width) (logColumn width toNat array) (m*width) = some bytes ∧
      ∀ k, element width bytes k = if k < m then toNat (array k) else 0 := by
  have hlen : ((firstEntries array nofLogDci).map toNat).length = nofLogDci := by
    rw [List.length_map, length_firstEntries]
  rw [calloc_eq_column, logColumn,
    memcpy_column (by rwa [List.length_replicate]) (by rwa [hlen])]
  refine ⟨_, rfl, ?_⟩
  intro k
  rw [element_column, getD_copied (by rwa [hlen])]
  · by_cases hk : k < m
    · rw [if_pos hk, if_pos hk, List.getD_eq_getElem _ _ (by omega), List.getElem_map,
        getElem_firstEntries]
    · rw [if_neg hk, if_neg hk]
  · intro x hx
    rcases List.mem_append.mp hx with hx | hx
    · obtain ⟨a, _, rfl⟩ := List.mem_map.mp (List.mem_of_mem_take hx)
      exact hlt a
    · rw [List.eq_of_mem_replicate (List.mem_of_mem_drop hx)]
      exact Nat.two_pow_pos _

/-- The TTIs of the whole log, and the other three arrays of its first entry only. -/
theorem extractCaUlTrace_eq {dciAll : ℕ → NgscopeDci} (hpos : 0 < (dciAll 0).nofDci)
    (hlog : (dciAll 0).nofDci ≤ nofLogDci) : extractCaUlTrace dciAll = some {
      reTx := fun k => k < 1 ∧ (dciAll 0).ulDci.reTx k ≠ 0
      tti := fun k => if k < (dciAll 0).nofDci then (dciAll 0).tti k else 0
      tbs := fun k => if k < 1 then (dciAll 0).ulDci.tbs k else 0
      rxTUs := fun k => if k < 1 then (dciAll 0).timeStampUs k else 0
      size := (dciAll 0).nofDci } := by
  obtain ⟨tti, htti, httiAt⟩ := memcpy_logColumn 2 UInt16.toNat_lt (dciAll 0).tti _ (le_refl _) hlog
  obtain ⟨reTx, hreTx, hreTxAt⟩ := memcpy_logColumn 1 UInt8.toNat_lt (dciAll 0).ulDci.reTx 1 hpos
    (by decide)
  obtain ⟨tbs, htbs, htbsAt⟩ := memcpy_logColumn 4 UInt32.toNat_lt (dciAll 0).ulDci.tbs 1 hpos
    (by decide)
  obtain ⟨rxTUs, hrxTUs, hrxTUsAt⟩ := memcpy_logColumn 8 UInt64.toNat_lt (dciAll 0).timeStampUs 1
    hpos (by decide)
  rw [Nat.one_mul] at hreTx htbs hrxTUs
  simp only [extractCaUlTrace, htti, hreTx, htbs, hrxTUs, Option.bind_eq_bind, Option.bind_some,
    Option.pure_def, httiAt, hreTxAt, htbsAt, hrxTUsAt, apply_ite UInt16.ofNat,
    apply_ite UInt32.ofNat, apply_ite UInt64.ofNat, UInt16.ofNat_toNat, UInt32.ofNat_toNat,
    UInt64.ofNat_toNat]
  have hflag : (fun k => decide ((if k < 1 then ((dciAll 0).ulDci.reTx k).toNat else 0) ≠ 0)) =
      fun k => decide (k < 1 ∧ (dciAll 0).ulDci.reTx k ≠ 0) := by
    funext k
    by_cases hk : k < 1
    · simp [hk, ← UInt8.toNat_inj]
    · simp [hk]
  rw [hflag]
  rfl

/-- An empty log gives arrays without elements, and the last three copies leave them. -/
theorem extractCaUlTrace_empty {dciAll : ℕ → NgscopeDci} (hzero : (dciAll 0).nofDci = 0) :
    extractCaUlTrace dciAll = none := by
  have hreTx : memcpy (calloc 0 1) (logColumn 1 UInt8.toNat (dciAll 0).ulDci.reTx) 1 = none := by
    rw [calloc, Nat.zero_mul, List.replicate_zero, memcpy_nil _ Nat.one_pos]
  simp only [extractCaUlTrace, hzero, hreTx, Option.bind_eq_bind, Option.bind_none,
    Option.bind_fun_none]

/-! ### The log as it was meant to be copied -/

def ulLogTrace (d : NgscopeDci) : NgscopeReTxCa where
  reTx := fun k => k < d.nofDci ∧ d.ulDci.reTx k ≠ 0
  tti := fun k => if k < d.nofDci then d.tti k else 0
  tbs := fun k => if k < d.nofDci then d.ulDci.tbs k else 0
  rxTUs := fun k => if k < d.nofDci then d.timeStampUs k else 0
  size := d.nofDci

/-- From the second entry on the uplink carries nothing, at time zero. -/
def UlSilent (d : NgscopeDci) : Prop :=
  ∀ k, 1 ≤ k → k < d.nofDci → d.ulDci.reTx k = 0 ∧ d.ulDci.tbs k = 0 ∧ d.timeStampUs k = 0

theorem extractCaUlTrace_eq_ulLogTrace {dciAll : ℕ → NgscopeDci} (hpos : 0 < (dciAll 0).nofDci)
    (hlog : (dciAll 0).nofDci ≤ nofLogDci) (hsilent : UlSilent (dciAll 0)) :
    extractCaUlTrace dciAll = some (ulLogTrace (dciAll 0)) := by
  have hfirst {α : Type} (array : ℕ → α) (zero : α)
      (h : ∀ k, 1 ≤ k → k < (dciAll 0).nofDci → array k = zero) :
      (fun k => if k < 1 then array k else zero) =
        fun k => if k < (dciAll 0).nofDci then array k else zero := by
    funext k
    split_ifs with hk hn hn
    · rfl
    · omega
    · exact (h k (by omega) hn).symm
    · rfl
  have hreTx : (fun k => decide (k < 1 ∧ (dciAll 0).ulDci.reTx k ≠ 0)) =
      fun k => decide (k < (dciAll 0).nofDci ∧ (dciAll 0).ulDci.reTx k ≠ 0) := by
    funext k
    apply decide_eq_decide.mpr
    constructor
    · intro hk
      exact ⟨by omega, hk.2⟩
    · intro hk
      refine ⟨?_, hk.2⟩
      by_contra hge
      exact hk.2 (hsilent k (by omega) hk.1).1
  rw [extractCaUlTrace_eq hpos hlog, hreTx,
    hfirst (dciAll 0).ulDci.tbs 0 fun k h1 hk => (hsilent k h1 hk).2.1,
    hfirst (dciAll 0).timeStampUs 0 fun k h1 hk => (hsilent k h1 hk).2.2]
  rfl

/-- The trace holds every entry of the log, and the buffer is updated from them. -/
def SeesUlLog (dciAll : ℕ → NgscopeDci) : Prop :=
  ∃ trace, extractCaUlTrace dciAll = some trace ∧ trace.size = (dciAll 0).nofDci ∧
    (∀ k < (dciAll 0).nofDci, trace.tti k = (dciAll 0).tti k ∧
      (trace.reTx k = true ↔ (dciAll 0).ulDci.reTx k ≠ 0) ∧
      trace.tbs k = (dciAll 0).ulDci.tbs k ∧ trace.rxTUs k = (dciAll 0).timeStampUs k) ∧
    ∀ q, ngscopeReTxUpdateUlBuf q dciAll = some (updateReTxBuf q (ulLogTrace (dciAll 0))).1

theorem SeesUlLog.ulSilent {dciAll : ℕ → NgscopeDci} (hlog : (dciAll 0).nofDci ≤ nofLogDci)
    (h : SeesUlLog dciAll) : 0 < (dciAll 0).nofDci ∧ UlSilent (dciAll 0) := by
  obtain ⟨trace, htrace, _, hat, _⟩ := h
  by_cases hpos : 0 < (dciAll 0).nofDci
  · refine ⟨hpos, ?_⟩
    intro k hk1 hk
    rw [extractCaUlTrace_eq hpos hlog, Option.some.injEq] at htrace
    obtain ⟨_, hreTx, htbs, hrxTUs⟩ := hat k hk
    rw [← htrace] at hreTx htbs hrxTUs
    simp only [if_neg (not_lt.mpr hk1)] at htbs hrxTUs
    refine ⟨?_, htbs.symm, hrxTUs.symm⟩
    by_contra hne
    have hlt := of_decide_eq_true (hreTx.mpr hne)
    omega
  · rw [extractCaUlTrace_empty (by omega)] at htrace
    exact absurd htrace (by simp)

theorem seesUlLog_of_ulSilent {dciAll : ℕ → NgscopeDci} (hlog : (dciAll 0).nofDci ≤ nofLogDci)
    (hpos : 0 < (dciAll 0).nofDci) (hsilent : UlSilent (dciAll 0)) : SeesUlLog dciAll := by
  have htrace := extractCaUlTrace_eq_ulLogTrace hpos hlog hsilent
  refine ⟨_, htrace, rfl, ?_, ?_⟩
  · intro k hk
    simp [ulLogTrace, hk]
  · intro q
    rw [ngscopeReTxUpdateUlBuf, htrace, Option.map_some]

/-- The copy is whole exactly when the log has an entry and its uplink is silent from the second
one on. -/
theorem seesUlLog_iff {dciAll : ℕ → NgscopeDci} (hlog : (dciAll 0).nofDci ≤ nofLogDci) :
    SeesUlLog dciAll ↔ 0 < (dciAll 0).nofDci ∧ UlSilent (dciAll 0) := by
  constructor
  · intro h
    exact h.ulSilent hlog
  · intro h
    exact seesUlLog_of_ulSilent hlog h.1 h.2

/-- The log of a cell that received two DCIs, the second with an uplink retransmission. -/
def ulReTxLog : ℕ → NgscopeDci :=
  fun _ => ngscopeDciExtractSingleCell { ngscopeDciCAInit with
    cellDci := fun _ => (ngscopeDciCellInit.insert ⟨1000, 1, 0, 0, false, 100, 0, false⟩).insert
      ⟨2000, 2, 0, 0, false, 300, 1, false⟩ } 0

/-- The log of a cell that received one DCI, with an uplink retransmission. -/
def firstUlLog : ℕ → NgscopeDci :=
  fun _ => ngscopeDciExtractSingleCell { ngscopeDciCAInit with
    cellDci := fun _ => ngscopeDciCellInit.insert ⟨1000, 1, 0, 0, false, 100, 1, false⟩ } 0

theorem seesUlLog_iff_firstUlLog : SeesUlLog firstUlLog ∧ ¬ SeesUlLog ulReTxLog := by
  have hone : (firstUlLog 0).nofDci = 1 := rfl
  refine ⟨?_, ?_⟩
  · apply (@seesUlLog_iff firstUlLog (by decide)).mpr
    refine ⟨by decide, fun k hk1 hk => ?_⟩
    rw [hone] at hk
    omega
  · rw [seesUlLog_iff (by decide)]
    rintro ⟨-, hsilent⟩
    exact absurd (hsilent 1 le_rfl (by decide)).1 (by decide)

theorem not_seesUlLog_ulReTxLog : ¬ SeesUlLog ulReTxLog := by
  intro h
  have hsilent := (h.ulSilent (by decide)).2 1 (by decide) (by decide)
  exact absurd hsilent.1 (by decide)

end CopaNgscope
