import CopaNgscope.ComparatorSort
import CopaNgscope.NgscopeDci

/-! The retransmission times of all cells from `ngscope_dci.cc`, sorted by the `qsort` of the
platform with the comparator of `ngscope_util.cc`. It returns the difference of two 64-bit times
as a 32-bit `int`, so that only times near each other are in their order. -/
namespace CopaNgscope
open ComparatorSort

section
variable (qsort : (UInt64 → UInt64 → ℤ) → List UInt64 → List UInt64)

/-- One time goes into the array, at the count of the times so far. -/
def putReTxT (s : List UInt64 × ℕ) (t : UInt64) : List UInt64 × ℕ := (s.1.set s.2 t, s.2+1)

/-- `ngscope_dci_get_reTx_t` over a given `qsort`: the array and `nof_reTx`. -/
def ngscopeDciGetReTxTBy (q : ℕ → NgscopeDci) (nofCell : ℕ) : List UInt64 × ℕ :=
  let totalNofReTx := ((List.range nofCell).map fun i => (q i).dlDci.nofReTx).sum
  let filled := (List.range nofCell).foldl
    (fun s i => (List.range (q i).dlDci.nofReTx).foldl
      (fun s j => putReTxT s ((q i).dlDci.reTxTUs j)) s)
    (List.replicate totalNofReTx 0, 0)
  (qsort cmpfuncUint64 filled.1, totalNofReTx)

/-- The downlink retransmission times of the cells, one cell after the other. -/
def dlReTxT (q : ℕ → NgscopeDci) (nofCell : ℕ) : List UInt64 :=
  (List.range nofCell).flatMap fun i => firstEntries (q i).dlDci.reTxTUs (q i).dlDci.nofReTx

/-- Ascending, with every time of the cells as often as they have it, and of the length told. -/
def ReTxSorted (q : ℕ → NgscopeDci) (nofCell : ℕ) : Prop :=
  let r := ngscopeDciGetReTxTBy qsort q nofCell
  r.1.Pairwise (· ≤ ·) ∧ r.1.Perm (dlReTxT q nofCell) ∧ r.2 = r.1.length

/-! ### The array -/

theorem foldl_putReTxT (ts done : List UInt64) {n : ℕ} (h : ts.length ≤ n) :
    ts.foldl putReTxT (done ++ List.replicate n 0, done.length) =
      (done ++ ts ++ List.replicate (n-ts.length) 0, done.length+ts.length) := by
  induction ts generalizing done n with
  | nil => simp
  | cons t ts ih =>
    rw [List.length_cons] at h
    obtain ⟨n, rfl⟩ := Nat.exists_eq_add_of_le' (Nat.lt_of_lt_of_le ts.length.succ_pos h)
    have hput : putReTxT (done ++ List.replicate (n+1) 0, done.length) t =
        (done ++ [t] ++ List.replicate n 0, (done ++ [t]).length) := by
      rw [putReTxT, List.set_append_right _ _ le_rfl, Nat.sub_self, List.replicate_succ,
        List.set_cons_zero, List.append_assoc, List.singleton_append, List.length_append,
        List.length_singleton]
    have hrest : n+1-(t :: ts).length = n-ts.length := by rw [List.length_cons]; omega
    rw [List.foldl_cons, hput, ih _ (by omega), hrest]
    refine Prod.ext ?_ ?_
    · simp only [List.append_assoc, List.singleton_append]
    · simp only [List.length_append, List.length_cons, List.length_nil]
      omega

theorem length_dlReTxT (q : ℕ → NgscopeDci) (nofCell : ℕ) :
    (dlReTxT q nofCell).length = ((List.range nofCell).map fun i => (q i).dlDci.nofReTx).sum := by
  rw [dlReTxT, List.length_flatMap]
  simp [firstEntries]

/-- The two loops gather the times. -/
theorem ngscopeDciGetReTxTBy_eq (q : ℕ → NgscopeDci) (nofCell : ℕ) :
    ngscopeDciGetReTxTBy qsort q nofCell =
      (qsort cmpfuncUint64 (dlReTxT q nofCell), (dlReTxT q nofCell).length) := by
  have hfill := foldl_putReTxT (dlReTxT q nofCell) [] le_rfl
  rw [List.nil_append, List.nil_append, Nat.sub_self, List.replicate_zero, List.append_nil,
    length_dlReTxT] at hfill
  have hloops (s : List UInt64 × ℕ) : (List.range nofCell).foldl
      (fun s i => (List.range (q i).dlDci.nofReTx).foldl
        (fun s j => putReTxT s ((q i).dlDci.reTxTUs j)) s) s =
      (dlReTxT q nofCell).foldl putReTxT s := by
    simp only [dlReTxT, firstEntries, List.foldl_flatMap, List.foldl_map]
  rw [ngscopeDciGetReTxTBy, hloops, length_dlReTxT]
  exact congrArg (fun s : List UInt64 × ℕ => (qsort cmpfuncUint64 s.1, _)) hfill

end

/-! ### The comparator -/

/-- The low 32 bits of the difference of any two times say that the later one is later. -/
def LowDifference (ts : List UInt64) : Prop :=
  ∀ a ∈ ts, ∀ b ∈ ts, a < b →
    1 ≤ (b.toNat-a.toNat)%2^32 ∧ (b.toNat-a.toNat)%2^32 < 2^31

theorem cmpfuncUint64_eq (a b : UInt64) :
    cmpfuncUint64 a b = Int.bmod (((2^64-b.toNat+a.toNat)%2^64 : ℕ) : ℤ) (2^32) := by
  unfold cmpfuncUint64 toInt
  rw [UInt64.toNat_sub]

theorem cmpfuncUint64_of_toNat (a b : UInt64) (h : a.toNat = b.toNat) : cmpfuncUint64 a b = 0 := by
  have hb := b.toNat_lt
  rw [cmpfuncUint64_eq, h, Nat.sub_add_cancel hb.le, Nat.mod_self, Nat.cast_zero, Int.zero_bmod]

/-- The later time is above the earlier one, both ways, exactly if the low bits say so. -/
theorem cmpfuncUint64_iff {a b : UInt64} (h : a < b) :
    (cmpfuncUint64 a b < 0 ∧ 0 < cmpfuncUint64 b a) ↔
      1 ≤ (b.toNat-a.toNat)%2^32 ∧ (b.toNat-a.toNat)%2^32 < 2^31 := by
  have hlt := UInt64.lt_iff_toNat_lt.mp h
  have ha := a.toNat_lt
  have hb := b.toNat_lt
  -- both are remainders of 2^32, moved by 2^32 from the upper half
  rw [cmpfuncUint64_eq, cmpfuncUint64_eq, Int.bmod_def, Int.bmod_def]
  omega

theorem agrees_cmpfuncUint64_iff (ts : List UInt64) :
    Agrees UInt64.toNat cmpfuncUint64 ts ↔ LowDifference ts :=
  forall₄_congr fun _ _ _ _ => forall_congr' fun h => cmpfuncUint64_iff h

/-- Times of a span below 2147483648 microseconds are in order. -/
theorem lowDifference_of_span {ts : List UInt64} {lo : ℕ}
    (h : ∀ t ∈ ts, lo ≤ t.toNat ∧ t.toNat < lo+2^31) : LowDifference ts := by
  intro a ha b hb hlt
  have hlt' := UInt64.lt_iff_toNat_lt.mp hlt
  have := h a ha
  have := h b hb
  omega

/-! ### The result -/

theorem reTxSorted_iff_ascending (qsort : (UInt64 → UInt64 → ℤ) → List UInt64 → List UInt64)
    (q : ℕ → NgscopeDci) (nofCell : ℕ) :
    ReTxSorted qsort q nofCell ↔
      (qsort cmpfuncUint64 (dlReTxT q nofCell)).Perm (dlReTxT q nofCell) ∧
        (qsort cmpfuncUint64 (dlReTxT q nofCell)).Pairwise
          (fun a b => a.toNat ≤ b.toNat) := by
  rw [ReTxSorted, ngscopeDciGetReTxTBy_eq]
  constructor
  · rintro ⟨hle, hperm, _⟩
    exact ⟨hperm, hle⟩
  · rintro ⟨hperm, hle⟩
    exact ⟨hle, hperm, hperm.length_eq.symm⟩

/-- The platform's `qsort` is only known by its contract. The times come out sorted, whatever it
does beyond it, exactly if the low bits of the differences say how they are ordered. -/
theorem reTxSorted_iff (q : ℕ → NgscopeDci) (nofCell : ℕ) :
    (∀ qsort, Sorts qsort → ReTxSorted qsort q nofCell) ↔ LowDifference (dlReTxT q nofCell) := by
  rw [← agrees_cmpfuncUint64_iff, ← ascending_iff cmpfuncUint64_of_toNat]
  exact forall₂_congr (fun qsort _ => reTxSorted_iff_ascending qsort q nofCell)

/-- A stable `qsort` gives the array the retransmission buffer is filled from. -/
theorem ngscopeDciGetReTxTBy_merging (q : ℕ → NgscopeDci) (nofCell : ℕ) :
    ngscopeDciGetReTxTBy merging q nofCell =
      (ngscopeDciGetReTxT q nofCell, (dlReTxT q nofCell).length) :=
  ngscopeDciGetReTxTBy_eq merging q nofCell

/-- Over a trace of less than 35 minutes the times come out sorted. -/
theorem reTxSorted_of_span {q : ℕ → NgscopeDci} {nofCell lo : ℕ}
    (h : ∀ t ∈ dlReTxT q nofCell, lo ≤ t.toNat ∧ t.toNat < lo+2^31) :
    ReTxSorted merging q nofCell := by
  have hagrees := (agrees_cmpfuncUint64_iff _).mpr (lowDifference_of_span h)
  exact (reTxSorted_iff_ascending merging q nofCell).mpr
    ((ascending_iff cmpfuncUint64_of_toNat).mpr hagrees merging sorts_merging)

/-! ### Two times far apart -/

def stampedReTx (timeStamp : UInt64) : UeDci :=
  { UeDci.zero with timeStamp := timeStamp, dlReTx := 1 }

/-- One cell with two retransmissions, 2147483649 microseconds apart. -/
def distantReTx : ℕ → NgscopeDci :=
  ngscopeDciExtractSingleCell
    ((ngscopeDciCAInit.logDci (stampedReTx 0) 0).logDci (stampedReTx 2147483649) 0)

/-- The comparator puts the later time first, and so does every `qsort` that keeps its contract. -/
theorem ngscopeDciGetReTxT_distantReTx :
    dlReTxT distantReTx 1 = [0, 2147483649] ∧
      Sorts (merging : (UInt64 → UInt64 → ℤ) → List UInt64 → List UInt64) ∧
      ¬∃ qsort, Sorts qsort ∧ ReTxSorted qsort distantReTx 1 := by
  have htimes : dlReTxT distantReTx 1 = [0, 2147483649] := by decide +kernel
  refine ⟨htimes, sorts_merging, ?_⟩
  rintro ⟨qsort, hsort, hle, hperm, _⟩
  rw [ngscopeDciGetReTxTBy_eq, htimes] at hle hperm
  -- the comparator is consistent on the two times
  have hpair := (hsort cmpfuncUint64 [0, 2147483649] (by decide +kernel)).2
  have hfirst := @rel_of_lt UInt64 ℕ _ UInt64.toNat _ _ hpair hle 0 2147483649
    (hperm.mem_iff.mpr (by decide)) (hperm.mem_iff.mpr (by decide)) (by decide)
  revert hfirst
  decide +kernel

end CopaNgscope
