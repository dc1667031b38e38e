import CopaNgscope.NgscopeClient
import CopaNgscope.NgscopeDciPoll
import Mathlib.Data.Int.ModEq

/-! The DCI times on the packet clock. The arrays are shifted in place, so what they hold depends
on every offset that was added since the logs were last copied into them. -/
namespace CopaNgscope

/-! ### Adding offsets -/

theorem toNat_addOffset (t : UInt64) (offset : ℤ) :
    ((addOffset t offset).toNat:ℤ) = (t.toNat+offset)%2^64 := by
  have hnonneg : 0 ≤ ((t.toNat:ℤ)+offset)%2^64 := Int.emod_nonneg _ (by omega)
  have hlt : ((t.toNat:ℤ)+offset)%2^64 < 2^64 := Int.emod_lt_of_pos _ (by omega)
  rw [addOffset, UInt64.ofInt, UInt64.toNat_ofNat_of_lt' (by rw [UInt64.size]; omega),
    Int.toNat_of_nonneg hnonneg]

theorem addOffset_eq_addOffset_iff (t : UInt64) (a b : ℤ) :
    addOffset t a = addOffset t b ↔ a ≡ b [ZMOD 2^64] := by
  rw [← UInt64.toNat_inj, ← Int.natCast_inj, toNat_addOffset, toNat_addOffset]
  exact ⟨fun h => Int.ModEq.add_left_cancel' _ h, fun h => Int.ModEq.add_left _ h⟩

@[simp] theorem addOffset_zero (t : UInt64) : addOffset t 0 = t := by
  rw [← UInt64.toNat_inj, ← Int.natCast_inj, toNat_addOffset, add_zero]
  exact Int.emod_eq_of_lt (by omega) (by exact_mod_cast t.toNat_lt)

theorem addOffset_addOffset (t : UInt64) (a b : ℤ) :
    addOffset (addOffset t a) b = addOffset t (a+b) := by
  rw [← UInt64.toNat_inj, ← Int.natCast_inj, toNat_addOffset, toNat_addOffset, toNat_addOffset,
    Int.emod_add_emod, add_assoc]

theorem ngscopeSyncDciPkt_mem (array1 array2 : List UInt64) {offsets : List ℤ}
    (hne : offsets ≠ []) : ngscopeSyncDciPkt array1 array2 offsets ∈ offsets := by
  have hmap :
      (offsets.map fun offset => (correlate2VecWOffset array1 array2 offset, offset)) ≠ [] :=
    fun hnil => hne (List.map_eq_nil_iff.mp hnil)
  obtain ⟨hmem, _⟩ := scanArray_spec (fun (a v : ℤ × ℤ) => a.1 < v.1) (0, 0) Prod.fst
    (fun a v => decide_eq_true_iff) hmap
  obtain ⟨offset, hoffset, heq⟩ := List.mem_map.mp hmem
  rw [ngscopeSyncDciPkt, ← heq]
  exact hoffset

theorem natAbs_of_mem_offsetVec {offset : ℤ} (h : offset ∈ offsetVec) : offset.natAbs ≤ 10000 := by
  obtain ⟨i, hi, rfl⟩ := List.mem_map.mp h
  rw [List.mem_range] at hi
  omega

/-- Offsets are too small to agree modulo `2^64` when they differ. -/
theorem modEq_iff_of_natAbs_le {a b : ℤ} (ha : a.natAbs ≤ 10000) (hb : b.natAbs ≤ 10000) :
    a ≡ b [ZMOD 2^64] ↔ a = b := by
  constructor
  · intro h
    have hdvd := h.dvd
    have hlt : (b-a).natAbs < 2^64 := by omega
    have hzero := Int.eq_zero_of_dvd_of_natAbs_lt_natAbs hdvd (by simpa using hlt)
    omega
  · rintro rfl
    exact Int.ModEq.refl a

theorem UeLinkDci.sync_zero (q : UeLinkDci) : q.sync 0 = q := by
  simp [UeLinkDci.sync]

theorem UeLinkDci.sync_sync (q : UeLinkDci) (a b : ℤ) : (q.sync a).sync b = q.sync (a+b) := by
  simp only [UeLinkDci.sync, UeLinkDci.mk.injEq, true_and, and_true]
  funext i
  by_cases h : i < q.nofReTx
  · simp only [if_pos h, addOffset_addOffset]
  · simp only [if_neg h]

@[simp] theorem ngscopeDciSyncSingleCell_zero (q : NgscopeDci) :
    ngscopeDciSyncSingleCell q 0 = q := by
  simp [ngscopeDciSyncSingleCell, UeLinkDci.sync_zero]

theorem ngscopeDciSyncSingleCell_add (q : NgscopeDci) (a b : ℤ) :
    ngscopeDciSyncSingleCell (ngscopeDciSyncSingleCell q a) b =
      ngscopeDciSyncSingleCell q (a+b) := by
  simp only [ngscopeDciSyncSingleCell, UeLinkDci.sync_sync, NgscopeDci.mk.injEq, true_and, and_true]
  funext i
  by_cases h : i < q.nofDci
  · simp only [if_pos h, addOffset_addOffset]
  · simp only [if_neg h]

/-! ### One entry on a clock -/

/-- Every time in the arrays is the raw one plus the offset. -/
structure OnClock (q raw : NgscopeDci) (offset : ℤ) : Prop where
  time_eq : ∀ j < raw.nofDci, q.timeStampUs j = addOffset (raw.timeStampUs j) offset
  dl_eq : ∀ j < raw.dlDci.nofReTx, q.dlDci.reTxTUs j = addOffset (raw.dlDci.reTxTUs j) offset
  ul_eq : ∀ j < raw.ulDci.nofReTx, q.ulDci.reTxTUs j = addOffset (raw.ulDci.reTxTUs j) offset

instance (q raw : NgscopeDci) (offset : ℤ) : Decidable (OnClock q raw offset) :=
  decidable_of_iff
    ((∀ j < raw.nofDci, q.timeStampUs j = addOffset (raw.timeStampUs j) offset) ∧
      (∀ j < raw.dlDci.nofReTx, q.dlDci.reTxTUs j = addOffset (raw.dlDci.reTxTUs j) offset) ∧
      ∀ j < raw.ulDci.nofReTx, q.ulDci.reTxTUs j = addOffset (raw.ulDci.reTxTUs j) offset)
    ⟨fun h => ⟨h.1, h.2.1, h.2.2⟩, fun h => ⟨h.time_eq, h.dl_eq, h.ul_eq⟩⟩

/-- There is a time in the arrays. -/
def NgscopeDci.HasTimes (q : NgscopeDci) : Prop :=
  0 < q.nofDci ∨ 0 < q.dlDci.nofReTx ∨ 0 < q.ulDci.nofReTx

instance (q : NgscopeDci) : Decidable q.HasTimes :=
  inferInstanceAs (Decidable (0 < q.nofDci ∨ 0 < q.dlDci.nofReTx ∨ 0 < q.ulDci.nofReTx))

/-- What was shifted by one offset is on the clock of another when the two agree, or when there
is nothing to shift. -/
theorem onClock_sync_iff (raw : NgscopeDci) (a b : ℤ) :
    OnClock (ngscopeDciSyncSingleCell raw a) raw b ↔ a ≡ b [ZMOD 2^64] ∨ ¬ raw.HasTimes := by
  have hat {t : UInt64} {j n : ℕ} (hj : j < n) :
      (if j < n then addOffset t a else t) = addOffset t b ↔ a ≡ b [ZMOD 2^64] := by
    rw [if_pos hj, addOffset_eq_addOffset_iff]
  constructor
  · intro h
    refine or_iff_not_imp_right.mpr (fun htimes => ?_)
    rcases not_not.mp htimes with h0 | h0 | h0
    · exact (hat h0).mp (h.time_eq 0 h0)
    · exact (hat h0).mp (h.dl_eq 0 h0)
    · exact (hat h0).mp (h.ul_eq 0 h0)
  · intro h
    have hmod (htimes : raw.HasTimes) : a ≡ b [ZMOD 2^64] := h.resolve_right (not_not.mpr htimes)
    refine ⟨fun j hj => (hat hj).mpr (hmod ?_), fun j hj => (hat hj).mpr (hmod ?_),
      fun j hj => (hat hj).mpr (hmod ?_)⟩
    · exact Or.inl (Nat.zero_lt_of_lt hj)
    · exact Or.inr (Or.inl (Nat.zero_lt_of_lt hj))
    · exact Or.inr (Or.inr (Nat.zero_lt_of_lt hj))

/-! ### What the arrays hold -/

/-- The logs of a cell as they were copied, and the sum of the offsets added since. -/
structure Snapshot where
  raw : NgscopeDci
  offset : ℤ

/-- The snapshots after all configured cells are copied. -/
def takeSnapshots (taken : ℕ → Option Snapshot) (dciCa : NgscopeDciCA) : ℕ → Option Snapshot :=
  fun i => if i < dciCa.nofCell then some ⟨ngscopeDciExtractSingleCell dciCa i, 0⟩ else taken i

def Snapshot.shift (x : Snapshot) (offset : ℤ) : Snapshot := { x with offset := x.offset+offset }

/-- The snapshots after an offset is added to the entries below `nofCell`. -/
def shiftSnapshots (taken : ℕ → Option Snapshot) (nofCell : ℕ) (offset : ℤ) :
    ℕ → Option Snapshot :=
  fun i => if i < nofCell then (taken i).map (·.shift offset) else taken i

/-- An entry that was ever copied holds its snapshot, shifted. -/
def ShowsSnapshots (dciAll : ℕ → NgscopeDci) (taken : ℕ → Option Snapshot) : Prop :=
  ∀ i, ∀ x ∈ taken i, dciAll i = ngscopeDciSyncSingleCell x.raw x.offset

theorem ShowsSnapshots.extract {dciAll : ℕ → NgscopeDci} {taken : ℕ → Option Snapshot}
    (h : ShowsSnapshots dciAll taken) (dciCa : NgscopeDciCA) :
    ShowsSnapshots (ngscopeDciExtractMultiCell dciAll dciCa) (takeSnapshots taken dciCa) := by
  intro i x hx
  unfold ngscopeDciExtractMultiCell
  unfold takeSnapshots at hx
  split_ifs at hx ⊢ with hi
  · obtain rfl := Option.mem_some.mp hx
    exact (ngscopeDciSyncSingleCell_zero _).symm
  · exact h i x hx

theorem ShowsSnapshots.sync {dciAll : ℕ → NgscopeDci} {taken : ℕ → Option Snapshot}
    (h : ShowsSnapshots dciAll taken) (nofCell : ℕ) (offset : ℤ) :
    ShowsSnapshots (ngscopeDciSyncMultiCell dciAll nofCell offset)
      (shiftSnapshots taken nofCell offset) := by
  intro i x hx
  unfold ngscopeDciSyncMultiCell
  unfold shiftSnapshots at hx
  split_ifs at hx ⊢ with hi
  · obtain ⟨y, hy, rfl⟩ := Option.map_eq_some_iff.mp hx
    rw [h i y hy]
    exact ngscopeDciSyncSingleCell_add _ _ _
  · exact h i x hx

/-- Every entry below `nofCell` was copied, and is on the clock. -/
def EntriesOnClock (dciAll : ℕ → NgscopeDci) (taken : ℕ → Option Snapshot) (nofCell : ℕ)
    (offset : ℤ) : Prop :=
  ∀ i < nofCell, ∃ x ∈ taken i, OnClock (dciAll i) x.raw offset

instance (dciAll : ℕ → NgscopeDci) (taken : ℕ → Option Snapshot) (nofCell : ℕ) (offset : ℤ) :
    Decidable (EntriesOnClock dciAll taken nofCell offset) :=
  inferInstanceAs (Decidable (∀ i < nofCell, ∃ x ∈ taken i, OnClock (dciAll i) x.raw offset))

theorem entriesOnClock_iff {dciAll : ℕ → NgscopeDci} {taken : ℕ → Option Snapshot}
    (h : ShowsSnapshots dciAll taken) (nofCell : ℕ) (offset : ℤ) :
    EntriesOnClock dciAll taken nofCell offset ↔
      ∀ i < nofCell, ∃ x ∈ taken i, x.offset ≡ offset [ZMOD 2^64] ∨ ¬ x.raw.HasTimes := by
  refine forall₂_congr (fun i _ => exists_congr (fun x => and_congr_right (fun hx => ?_)))
  rw [h i x hx, onClock_sync_iff]

/-- Right after the copy one offset puts every entry on its clock. -/
theorem shiftSnapshots_take (taken : ℕ → Option Snapshot) (dciCa : NgscopeDciCA) (offset : ℤ)
    {i : ℕ} (hi : i < dciCa.nofCell) :
    shiftSnapshots (takeSnapshots taken dciCa) dciCa.nofCell offset i =
      some ⟨ngscopeDciExtractSingleCell dciCa i, offset⟩ := by
  rw [shiftSnapshots, if_pos hi, takeSnapshots, if_pos hi, Option.map_some, Snapshot.shift,
    zero_add]

/-- The DCI of subframe `tti`, with its retransmission flags. -/
def subframeDci (tti : UInt16) (dlReTx ulReTx : UInt8) : UeDci :=
  { UeDci.zero with
    timeStamp := 1000000+1000*tti.toUInt64
    tti := tti
    dlReTx := dlReTx
    ulReTx := ulReTx }

end CopaNgscope
