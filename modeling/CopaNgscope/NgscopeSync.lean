import Mathlib.Algebra.BigOperators.Group.List.Basic
import Mathlib.Order.Lattice.Nat
import CopaNgscope.FirstMin
import CopaNgscope.NgscopeClient

/-! What the clock synchronisation minimises. Times are the `long` values that the code
computes with. -/
namespace CopaNgscope
open FirstMin

/-! ### The distance between two sequences of times -/

/-- From `p` to the nearest of the times `qs` moved by `offset`. -/
noncomputable def nearestDist (qs : List ℤ) (offset p : ℤ) : ℕ :=
  sInf {d | ∃ q ∈ qs, d = (q+offset-p).natAbs}

/-- The distances of all the times `ps` together. -/
noncomputable def totalDist (ps qs : List ℤ) (offset : ℤ) : ℕ :=
  (ps.map (nearestDist qs offset)).sum

theorem nearestDist_eq {qs : List ℤ} {offset p : ℤ} {d : ℕ}
    (hmem : ∃ q ∈ qs, d = (q+offset-p).natAbs) (hle : ∀ q ∈ qs, d ≤ (q+offset-p).natAbs) :
    nearestDist qs offset p = d := by
  apply IsLeast.csInf_eq
  refine ⟨hmem, ?_⟩
  intro e he
  obtain ⟨q, hq, rfl⟩ := he
  exact hle q hq

theorem nearestDist_shift (qs : List ℤ) (offset p : ℤ) :
    nearestDist (qs.map (·+offset)) 0 p = nearestDist qs offset p := by
  simp [nearestDist]

theorem totalDist_shift (ps qs : List ℤ) (offset : ℤ) :
    totalDist ps (qs.map (·+offset)) 0 = totalDist ps qs offset := by
  rw [totalDist, totalDist]
  congr 1
  apply List.map_congr_left
  intro p _
  exact nearestDist_shift qs offset p

/-- Times that all lie on a moved one are at distance zero. -/
theorem totalDist_eq_zero {ps qs : List ℤ} {offset : ℤ} (h : ∀ p ∈ ps, ∃ q ∈ qs, p = q+offset) :
    totalDist ps qs offset = 0 := by
  apply List.sum_eq_zero
  intro d hd
  obtain ⟨p, hp, rfl⟩ := List.mem_map.mp hd
  obtain ⟨q, hq, rfl⟩ := h p hp
  apply nearestDist_eq
  · exact ⟨q, hq, by simp⟩
  · intro q' _
    exact Nat.zero_le _

/-! ### The searches for the nearest time -/

section
variable {array : List UInt64} (num : UInt64)

theorem exists_getD_of_mem {a : UInt64} (ha : a ∈ array) :
    ∃ i < array.length, array.getD i 0 = a := by
  obtain ⟨i, hi, rfl⟩ := List.mem_iff_getElem.mp ha
  exact ⟨i, hi, List.getD_eq_getElem array 0 hi⟩

theorem getD_mem {i : ℕ} (hi : i < array.length) : array.getD i 0 ∈ array := by
  rw [List.getD_eq_getElem array 0 hi]
  exact List.getElem_mem hi

/-- The value at the first minimum is the distance to the nearest of the times. -/
theorem nearestDist_of_isFirstMin {num : UInt64} {offset : ℤ} {c : ℕ}
    (h : IsFirstMin (fun i => (toLong (array.getD i 0)+offset-toLong num).natAbs) array.length c) :
    nearestDist (array.map toLong) offset (toLong num) =
      (toLong (array.getD c 0)+offset-toLong num).natAbs := by
  apply nearestDist_eq
  · exact ⟨_, List.mem_map_of_mem (getD_mem h.lt), rfl⟩
  · intro q hq
    obtain ⟨a, ha, rfl⟩ := List.mem_map.mp hq
    obtain ⟨i, hi, rfl⟩ := exists_getD_of_mem ha
    exact h.le i hi

/-- `nearest_neighbour_index` returns the first of the nearest elements. -/
theorem nearestNeighbourIndex_isFirstMin (hne : array ≠ []) :
    IsFirstMin (fun i => (toLong (array.getD i 0)-toLong num).natAbs) array.length
      (nearestNeighbourIndex array num) := by
  obtain ⟨c, hmin, hc⟩ := foldl_zipIdx_firstMin (fun a => (toLong a-toLong num).natAbs) 0
    (fun (s : ℤ × ℕ) (x : UInt64 × ℕ) =>
      let distTmp : ℤ := (toLong x.1-toLong num).natAbs
      if x.2 = 0 then (distTmp, s.2) else if distTmp < s.1 then (distTmp, x.2) else s)
    (fun s xs c => s = (((toLong (xs.getD c 0)-toLong num).natAbs : ℤ), c)) (0,0)
    (by
      intro x
      exact if_pos rfl)
    (by
      intro s xs x c hc hs hx
      rw [getD_append_length, hs, if_neg (by omega), if_pos (Nat.cast_lt.mpr hx)])
    (by
      intro s xs x c hc hs hx
      rw [List.getD_append _ _ _ _ hc, hs, if_neg (by omega),
        if_neg (fun h => hx (Nat.cast_lt.mp h))])
    hne
  rw [nearestNeighbourIndex, hc]
  exact hmin

theorem nearestNeighbourDistWOffset_eq (hne : array ≠ []) (offset : ℤ) :
    nearestNeighbourDistWOffset array num offset =
      nearestDist (array.map toLong) offset (toLong num) := by
  obtain ⟨c, hmin, hc⟩ := foldl_zipIdx_firstMin (fun a => (toLong a+offset-toLong num).natAbs) 0
    (fun (s : ℤ) (x : UInt64 × ℕ) =>
      let distTmp : ℤ := (toLong x.1+offset-toLong num).natAbs
      if x.2 = 0 then distTmp else if distTmp < s then distTmp else s)
    (fun s xs c => s = (toLong (xs.getD c 0)+offset-toLong num).natAbs) 0
    (by
      intro x
      exact if_pos rfl)
    (by
      intro s xs x c hc hs hx
      rw [getD_append_length, hs, if_neg (by omega), if_pos (Nat.cast_lt.mpr hx)])
    (by
      intro s xs x c hc hs hx
      rw [List.getD_append _ _ _ _ hc, hs, if_neg (by omega),
        if_neg (fun h => hx (Nat.cast_lt.mp h))])
    hne
  rw [nearestDist_of_isFirstMin hmin]
  exact hc

/-- `nearest_neighbour` returns an element at the least distance. -/
theorem natAbs_nearestNeighbour (hne : array ≠ []) :
    (toLong (nearestNeighbour array num)-toLong num).natAbs =
      nearestDist (array.map toLong) 0 (toLong num) := by
  have hmin := nearestNeighbourIndex_isFirstMin num hne
  rw [nearestDist_of_isFirstMin (by simpa only [add_zero] using hmin), add_zero]
  rfl

end

/-! ### The correlations -/

theorem foldl_add_natCast {α : Type*} (f : α → ℤ) (g : α → ℕ) (xs : List α)
    (h : ∀ x ∈ xs, f x = g x) (s : ℤ) :
    xs.foldl (fun dist a => dist+f a) s = s+((xs.map g).sum : ℕ) := by
  induction xs generalizing s with
  | nil => simp
  | cons x xs ih =>
    rw [List.foldl_cons, ih (fun y hy => h y (List.mem_cons_of_mem x hy)),
      h x List.mem_cons_self, List.map_cons, List.sum_cons]
    push_cast
    ring

theorem correlate2VecWOffset_eq (array1 : List UInt64) {array2 : List UInt64} (hne : array2 ≠ [])
    (offset : ℤ) : correlate2VecWOffset array1 array2 offset =
      totalDist (array1.map toLong) (array2.map toLong) offset := by
  have hsum := foldl_add_natCast (fun a => nearestNeighbourDistWOffset array2 a offset)
    (fun a => nearestDist (array2.map toLong) offset (toLong a)) array1
    (fun a _ => nearestNeighbourDistWOffset_eq a hne offset) 0
  rw [correlate2VecWOffset, hsum, zero_add, totalDist, List.map_map]
  rfl

theorem correlate2Vec_eq (array1 : List UInt64) {array2 : List UInt64} (hne : array2 ≠ []) :
    correlate2Vec array1 array2 = totalDist (array1.map toLong) (array2.map toLong) 0 := by
  have hsum := foldl_add_natCast
    (fun a => ((toLong (nearestNeighbour array2 a)-toLong a).natAbs : ℤ))
    (fun a => nearestDist (array2.map toLong) 0 (toLong a)) array1
    (fun a _ => congrArg Nat.cast (natAbs_nearestNeighbour a hne)) 0
  rw [correlate2Vec, hsum, zero_add, totalDist, List.map_map]
  rfl

/-- Shifting an element keeps its signed value as long as that stays in range. -/
theorem toLong_add_ofInt {a : UInt64} {offset : ℤ} (hoff : -2^31 ≤ offset)
    (h : 0 ≤ (a.toNat:ℤ)+offset ∧ (a.toNat:ℤ)+offset < 2^62) :
    toLong (a+UInt64.ofInt offset) = toLong a+offset := by
  have hsum : (a+UInt64.ofInt offset).toNat = ((a.toNat:ℤ)+offset).toNat := by
    rw [UInt64.toNat_add, UInt64.ofInt, UInt64.toNat_ofNat_of_lt' (by rw [UInt64.size]; omega)]
    omega
  rw [toLong_of_lt (by omega), toLong_of_lt (by omega), hsum]
  omega

theorem map_toLong_shiftVecWOffset {array : List UInt64} {offset : ℤ} (hoff : -2^31 ≤ offset)
    (h : ∀ a ∈ array, 0 ≤ (a.toNat:ℤ)+offset ∧ (a.toNat:ℤ)+offset < 2^62) :
    (shiftVecWOffset array offset).map toLong = (array.map toLong).map (·+offset) := by
  rw [shiftVecWOffset, List.map_map, List.map_map]
  apply List.map_congr_left
  intro a ha
  rw [Function.comp_apply, Function.comp_apply, toLong_add_ofInt hoff (h a ha)]

/-- Correlating with an offset is shifting the second array first. -/
theorem correlate2VecWOffset_eq_shift (array1 : List UInt64) {array2 : List UInt64} {offset : ℤ}
    (hne : array2 ≠ []) (hoff : -2^31 ≤ offset)
    (h : ∀ a ∈ array2, 0 ≤ (a.toNat:ℤ)+offset ∧ (a.toNat:ℤ)+offset < 2^62) :
    correlate2VecWOffset array1 array2 offset =
      correlate2Vec array1 (shiftVecWOffset array2 offset) := by
  have hne' : shiftVecWOffset array2 offset ≠ [] := by
    rw [shiftVecWOffset, ne_eq, List.map_eq_nil_iff]
    exact hne
  rw [correlate2VecWOffset_eq array1 hne, correlate2Vec_eq array1 hne',
    map_toLong_shiftVecWOffset hoff h, totalDist_shift]

theorem correlate2VecWOffset_eq_shift_near :
    correlate2VecWOffset [1000,5200] [1400,5000] (-300) =
      correlate2Vec [1000,5200] (shiftVecWOffset [1400,5000] (-300)) := by
  have hshift : ∀ a ∈ ([1400,5000] : List UInt64),
      0 ≤ (a.toNat:ℤ)+(-300) ∧ (a.toNat:ℤ)+(-300) < 2^62 := by
    intro a ha
    have htime : a.toNat = 1400 ∨ a.toNat = 5000 := by
      rcases List.mem_cons.mp ha with rfl | ha
      · exact Or.inl rfl
      · exact Or.inr (congrArg UInt64.toNat (List.mem_singleton.mp ha))
    omega
  exact correlate2VecWOffset_eq_shift [1000,5200] (by decide) (by decide) hshift

/-! ### The offset found -/

theorem getD_map_of_lt {α β : Type*} (f : α → β) (xs : List α) (a : α) (b : β) {i : ℕ}
    (hi : i < xs.length) : (xs.map f).getD i b = f (xs.getD i a) := by
  rw [List.getD_eq_getElem _ _ (by rwa [List.length_map]), List.getElem_map,
    List.getD_eq_getElem _ _ hi]

/-- The offset returned is the first that brings the DCIs closest to the packets. -/
theorem ngscopeSyncDciPkt_isFirstMin (array1 : List UInt64) {array2 : List UInt64}
    {offsets : List ℤ} (hne : array2 ≠ []) (hoff : offsets ≠ []) :
    ∃ i, IsFirstMin (fun i =>
        totalDist (array1.map toLong) (array2.map toLong) (offsets.getD i 0)) offsets.length i ∧
      ngscopeSyncDciPkt array1 array2 offsets = offsets.getD i 0 := by
  let entry (offset : ℤ) : ℤ × ℤ := (correlate2VecWOffset array1 array2 offset, offset)
  have hmap : offsets.map entry ≠ [] := by
    rw [ne_eq, List.map_eq_nil_iff]
    exact hoff
  obtain ⟨c, hmin, hfold⟩ := foldl_better_firstMin Prod.fst ((0,0) : ℤ × ℤ)
    (fun (a v : ℤ × ℤ) => a.1 < v.1) (by simp) hmap
  rw [List.length_map] at hmin
  have hc : (offsets.map entry).getD c (0,0) = entry (offsets.getD c 0) :=
    getD_map_of_lt entry offsets 0 (0,0) hmin.lt
  refine ⟨c, ?_, ?_⟩
  · have hdist : ∀ i < offsets.length, ((offsets.map entry).getD i (0,0)).1 =
        (totalDist (array1.map toLong) (array2.map toLong) (offsets.getD i 0) : ℤ) := by
      intro i hi
      rw [getD_map_of_lt entry offsets 0 (0,0) hi]
      exact correlate2VecWOffset_eq array1 hne _
    exact (hmin.congr hdist).of_strictMono Nat.strictMono_cast
  · rw [ngscopeSyncDciPkt, scanArray]
    exact (congrArg Prod.snd hfold).trans (congrArg Prod.snd hc)

theorem ngscopeSyncDciPkt_argmin (array1 : List UInt64) {array2 : List UInt64}
    {offsets : List ℤ} (hne : array2 ≠ []) (hoff : offsets ≠ []) :
    (∃ i, IsFirstMin (fun i =>
        totalDist (array1.map toLong) (array2.map toLong) (offsets.getD i 0)) offsets.length i ∧
      ngscopeSyncDciPkt array1 array2 offsets = offsets.getD i 0) ∧
    ((∃ offset ∈ offsets, array1.map toLong = (array2.map toLong).map (·+offset)) →
      totalDist (array1.map toLong) (array2.map toLong)
        (ngscopeSyncDciPkt array1 array2 offsets) = 0) := by
  obtain ⟨c, hmin, hsync⟩ := ngscopeSyncDciPkt_isFirstMin array1 hne hoff
  refine ⟨⟨c, hmin, hsync⟩, ?_⟩
  intro hex
  obtain ⟨offset, hmem, hshift⟩ := hex
  obtain ⟨i, hi, hioff⟩ := List.mem_iff_getElem.mp hmem
  have hzero : totalDist (array1.map toLong) (array2.map toLong) offset = 0 := by
    apply totalDist_eq_zero
    intro p hp
    rw [hshift] at hp
    obtain ⟨q, hq, rfl⟩ := List.mem_map.mp hp
    exact ⟨q, hq, rfl⟩
  have hle := hmin.le i hi
  rw [List.getD_eq_getElem _ _ hi, hioff, hzero] at hle
  rw [hsync]
  exact Nat.le_zero.mp hle

theorem ngscopeSyncDciPkt_argmin_shifted :
    (∃ i, IsFirstMin (fun i => totalDist ([1300,5300].map toLong) ([1000,5000].map toLong)
        ([0,300,500].getD i 0)) 3 i ∧
      ngscopeSyncDciPkt [1300,5300] [1000,5000] [0,300,500] = [0,300,500].getD i 0) ∧
    totalDist ([1300,5300].map toLong) ([1000,5000].map toLong)
      (ngscopeSyncDciPkt [1300,5300] [1000,5000] [0,300,500]) = 0 := by
  have h := @ngscopeSyncDciPkt_argmin [1300,5300] [1000,5000] [0,300,500]
    (by decide) (by decide)
  exact ⟨h.1, h.2 ⟨300, by decide, by decide⟩⟩

end CopaNgscope
