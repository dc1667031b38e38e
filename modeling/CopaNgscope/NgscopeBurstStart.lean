import Mathlib.Data.List.Sort
import CopaNgscope.NgscopeReTx
import CopaNgscope.NgscopeSync

/-! The search for the packet that starts a burst: which indices it reads, and which packet it
finds around the one nearest to the DCI. -/
namespace CopaNgscope
open FirstMin

/-! ### Reading inside the arrays -/

/-- The search with its reads: `none` is a read outside the array. -/
def nearestNeighbourIndexChecked (array : List UInt64) (size : ℕ) (num : UInt64) : Option ℕ :=
  ((List.range size).foldlM (fun (s : ℤ × ℕ) (i : ℕ) => array[i]?.map fun a =>
    let distTmp : ℤ := (toLong a-toLong num).natAbs
    if i = 0 then (distTmp, s.2) else if distTmp < s.1 then (distTmp, i) else s) (0,0)).map
    Prod.snd

def isBurstStartChecked (pktTUs oneway : List UInt64) (pktNum index : ℕ) : Option Bool :=
  if pktNum ≤ index then some false
  else if index = 0 then some true
  else do
    let time ← pktTUs[index]?
    let timePrev ← pktTUs[index-1]?
    if timeDiffThd ≤ ((toLong time-toLong timePrev).natAbs : ℤ) then
      let delay ← oneway[index]?
      let delayPrev ← oneway[index-1]?
      return onewayDiffThd < toLong delay-toLong delayPrev
    else return false

def ngscopeReTxFindBurstStartChecked (pktTUs oneway : List UInt64) (pktNum : ℕ)
    (dciReTxTUs : UInt64) : Option ℤ := do
  let index ← nearestNeighbourIndexChecked pktTUs pktNum dciReTxTUs
  match ← (burstSearch index pktNum).findM? (isBurstStartChecked pktTUs oneway pktNum) with
  | some i => return i
  | none =>
    let last ← pktTUs[pktNum-1]?
    return if (toLong (dciReTxTUs-last)).natAbs < 10000 then -1 else index

theorem foldlM_eq_some {ι σ : Type*} {f : σ → ι → Option σ} {g : σ → ι → σ} {is : List ι}
    (h : ∀ s, ∀ i ∈ is, f s i = some (g s i)) (s : σ) : is.foldlM f s = some (is.foldl g s) := by
  induction is generalizing s with
  | nil => rfl
  | cons i is ih =>
    rw [List.foldlM_cons, h s i List.mem_cons_self, Option.bind_eq_bind, Option.bind_some,
      List.foldl_cons]
    exact ih (fun s j hj => h s j (List.mem_cons_of_mem i hj)) (g s i)

theorem zipIdx_eq_map_range {α : Type*} (xs : List α) (zero : α) :
    xs.zipIdx = (List.range xs.length).map (fun i => (xs.getD i zero, i)) := by
  apply List.ext_getElem
  · rw [List.length_zipIdx, List.length_map, List.length_range]
  · intro i h1 h2
    have hi : i < xs.length := by simpa using h1
    rw [List.getElem_zipIdx, List.getElem_map, List.getElem_range, Nat.zero_add,
      List.getD_eq_getElem xs zero hi]

theorem getElem?_eq_getD {array : List UInt64} {i : ℕ} (hi : i < array.length) :
    array[i]? = some (array.getD i 0) := by
  rw [List.getElem?_eq_getElem hi, List.getD_eq_getElem array 0 hi]

theorem nearestNeighbourIndexChecked_eq (array : List UInt64) (num : UInt64) :
    nearestNeighbourIndexChecked array array.length num =
      some (nearestNeighbourIndex array num) := by
  rw [nearestNeighbourIndexChecked, nearestNeighbourIndex, zipIdx_eq_map_range array 0,
    List.foldl_map]
  rw [@foldlM_eq_some _ _ _ (fun (s : ℤ × ℕ) (i : ℕ) =>
    let distTmp : ℤ := (toLong (array.getD i 0)-toLong num).natAbs
    if i = 0 then (distTmp, s.2) else if distTmp < s.1 then (distTmp, i) else s), Option.map_some]
  intro s i hi
  rw [getElem?_eq_getD (List.mem_range.mp hi), Option.map_some]

theorem isBurstStartChecked_eq {pktTUs oneway : List UInt64}
    (hlen : oneway.length = pktTUs.length) (index : ℕ) :
    isBurstStartChecked pktTUs oneway pktTUs.length index =
      some (isBurstStart pktTUs oneway index) := by
  rw [isBurstStartChecked, isBurstStart]
  by_cases hsize : pktTUs.length ≤ index
  · rw [if_pos hsize, if_pos hsize]
  · rw [if_neg hsize, if_neg hsize]
    by_cases hzero : index = 0
    · rw [if_pos hzero, if_pos hzero]
    · have hi : index < pktTUs.length := by omega
      have hprev : index-1 < pktTUs.length := by omega
      rw [if_neg hzero, if_neg hzero, getElem?_eq_getD hi, getElem?_eq_getD hprev,
        Option.bind_eq_bind, Option.bind_some, Option.bind_some]
      by_cases htime : timeDiffThd ≤
          ((toLong (pktTUs.getD index 0)-toLong (pktTUs.getD (index-1) 0)).natAbs : ℤ)
      · rw [if_pos htime, getElem?_eq_getD (hlen ▸ hi), getElem?_eq_getD (hlen ▸ hprev),
          Option.bind_some, Option.bind_some, Option.pure_def, Bool.decide_and,
          decide_eq_true htime, Bool.true_and]
      · rw [if_neg htime, Option.pure_def, Bool.decide_and, decide_eq_false htime, Bool.false_and]

/-- With as many delays as times, and at least one, every read is inside the arrays. -/
theorem ngscopeReTxFindBurstStartChecked_eq {pktTUs oneway : List UInt64} (dciReTxTUs : UInt64)
    (hne : pktTUs ≠ []) (hlen : oneway.length = pktTUs.length) :
    ngscopeReTxFindBurstStartChecked pktTUs oneway pktTUs.length dciReTxTUs =
      some (ngscopeReTxFindBurstStart pktTUs oneway dciReTxTUs) := by
  have hpos : 0 < pktTUs.length := List.length_pos_of_ne_nil hne
  have hlast : pktTUs[pktTUs.length-1]? = some (pktTUs.getLastD 0) := by
    rw [List.getLastD_eq_getLast?, List.getLast?_eq_getElem?, getElem?_eq_getD (by omega)]
    rfl
  have hstart : isBurstStartChecked pktTUs oneway pktTUs.length =
      fun i => pure (isBurstStart pktTUs oneway i) := funext (isBurstStartChecked_eq hlen)
  rw [ngscopeReTxFindBurstStartChecked, nearestNeighbourIndexChecked_eq, hstart]
  simp only [Option.bind_eq_bind, Option.bind_some]
  rw [List.findM?_pure, ngscopeReTxFindBurstStart]
  cases (burstSearch (nearestNeighbourIndex pktTUs dciReTxTUs) pktTUs.length).find?
      (isBurstStart pktTUs oneway) with
  | some i => rfl
  | none => simp only [hlast, Option.pure_def, Option.bind_some]

/-! ### What the search finds -/

/-- Packet `i` starts a burst: it is the first one, or far from the one before it in time and
later in delay. -/
def StartsBurstAt (time delay : ℕ → ℤ) (i : ℕ) : Prop :=
  i = 0 ∨ (6500 ≤ |time i-time (i-1)| ∧ 3500 < delay i-delay (i-1))

/-- The result of a search among `n` packets around the packet `c`: the last start of a burst at
or before `c`, else the first one after it, else a fallback. -/
def FoundAround (time delay : ℕ → ℤ) (n c : ℕ) (t r : ℤ) : Prop :=
  (∃ i : ℕ, IsGreatest {i | c-7 ≤ i ∧ i ≤ c ∧ StartsBurstAt time delay i} i ∧ r = i) ∨
  ((∀ i, c-7 ≤ i → i ≤ c → ¬ StartsBurstAt time delay i) ∧
    ∃ i : ℕ, IsLeast {i | c+1 ≤ i ∧ i ≤ min (c+7) (n-1) ∧ StartsBurstAt time delay i} i ∧ r = i) ∨
  ((∀ i, c-7 ≤ i → i ≤ min (c+7) (n-1) → ¬ StartsBurstAt time delay i) ∧
    r = if |t-time (n-1)| < 10000 then -1 else (c:ℤ))

theorem isBurstStart_iff {pktTUs oneway : List UInt64} {i : ℕ} (hi : i < pktTUs.length) :
    isBurstStart pktTUs oneway i = true ↔ StartsBurstAt (fun i => toLong (pktTUs.getD i 0))
      (fun i => toLong (oneway.getD i 0)) i := by
  rw [isBurstStart, if_neg (not_le.mpr hi), StartsBurstAt]
  by_cases hzero : i = 0
  · simp [hzero]
  · rw [if_neg hzero, decide_eq_true_iff, timeDiffThd, onewayDiffThd, Int.natCast_natAbs]
    exact (or_iff_right hzero).symm

/-- A search through a sorted list stops at the first element that qualifies. -/
theorem find?_sorted {r : ℕ → ℕ → Prop} {xs : List ℕ} (hxs : xs.Pairwise r) {p : ℕ → Bool}
    {a : ℕ} (hfind : xs.find? p = some a) : ∀ b ∈ xs, p b = true → a = b ∨ r a b := by
  intro b hb hp
  obtain ⟨_, as, bs, rfl, has⟩ := List.find?_eq_some_iff_append.mp hfind
  rcases List.mem_append.mp hb with hb | hb
  · have := has b hb
    simp [hp] at this
  · rcases List.mem_cons.mp hb with rfl | hb
    · exact Or.inl rfl
    · exact Or.inr ((List.pairwise_cons.mp (List.pairwise_append.mp hxs).2.1).1 b hb)

/-- The indices tried up to the nearest packet, and those tried after it. -/
def searchBack (index : ℕ) : List ℕ :=
  if index < burstFindSearchPkt then (List.range (index+1)).reverse
  else (List.range burstFindSearchPkt).map (fun k => index-k)

def searchAhead (index pktNum : ℕ) : List ℕ :=
  if index+burstFindSearchPkt < pktNum then
    (List.range (burstFindSearchPkt-1)).map (fun k => index+1+k)
  else (List.range (pktNum-(index+1))).map (fun k => index+1+k)

theorem burstSearch_eq (index pktNum : ℕ) :
    burstSearch index pktNum = searchBack index ++ searchAhead index pktNum := rfl

theorem mem_searchBack {c i : ℕ} : i ∈ searchBack c ↔ c-7 ≤ i ∧ i ≤ c := by
  rw [searchBack, burstFindSearchPkt]
  split_ifs with h
  · rw [List.mem_reverse, List.mem_range]
    omega
  · simp only [List.mem_map, List.mem_range]
    constructor
    · intro hk
      obtain ⟨k, hk, rfl⟩ := hk
      omega
    · intro hi
      exact ⟨c-i, by omega, by omega⟩

theorem mem_searchAhead {c n i : ℕ} (hc : c < n) :
    i ∈ searchAhead c n ↔ c+1 ≤ i ∧ i ≤ min (c+7) (n-1) := by
  rw [searchAhead, burstFindSearchPkt]
  split_ifs with h
  all_goals
    simp only [List.mem_map, List.mem_range]
    constructor
    · intro hk
      obtain ⟨k, hk, rfl⟩ := hk
      omega
    · intro hi
      exact ⟨i-(c+1), by omega, by omega⟩

theorem pairwise_searchBack (c : ℕ) : (searchBack c).Pairwise (· > ·) := by
  rw [searchBack, burstFindSearchPkt]
  split_ifs with h
  · rw [List.pairwise_reverse]
    exact List.pairwise_lt_range
  · rw [List.pairwise_map]
    refine List.pairwise_lt_range.imp_of_mem ?_
    intro a b _ hb hab
    rw [List.mem_range] at hb
    omega

theorem pairwise_searchAhead (c n : ℕ) : (searchAhead c n).Pairwise (· < ·) := by
  rw [searchAhead]
  split_ifs with h
  all_goals
    rw [List.pairwise_map]
    refine List.pairwise_lt_range.imp ?_
    intro a b hab
    omega

section
variable {pktTUs oneway : List UInt64} {c : ℕ}

/-- The search back stops at the last start of a burst of its window. -/
theorem find?_searchBack (hc : c < pktTUs.length) {i : ℕ}
    (hfind : (searchBack c).find? (isBurstStart pktTUs oneway) = some i) :
    IsGreatest {i | c-7 ≤ i ∧ i ≤ c ∧ StartsBurstAt (fun i => toLong (pktTUs.getD i 0))
      (fun i => toLong (oneway.getD i 0)) i} i := by
  have hmem := mem_searchBack.mp (List.mem_of_find?_eq_some hfind)
  refine ⟨⟨hmem.1, hmem.2, (isBurstStart_iff (by omega)).mp (List.find?_some hfind)⟩, ?_⟩
  intro j hj
  obtain ⟨hlo, hhi, hstart⟩ := hj
  have hcmp := find?_sorted (pairwise_searchBack c) hfind j (mem_searchBack.mpr ⟨hlo,hhi⟩)
    ((isBurstStart_iff (by omega)).mpr hstart)
  omega

theorem find?_searchAhead (hc : c < pktTUs.length) {i : ℕ}
    (hfind : (searchAhead c pktTUs.length).find? (isBurstStart pktTUs oneway) = some i) :
    IsLeast {i | c+1 ≤ i ∧ i ≤ min (c+7) (pktTUs.length-1) ∧
      StartsBurstAt (fun i => toLong (pktTUs.getD i 0))
        (fun i => toLong (oneway.getD i 0)) i} i := by
  have hmem := (mem_searchAhead hc).mp (List.mem_of_find?_eq_some hfind)
  refine ⟨⟨hmem.1, hmem.2, (isBurstStart_iff (by omega)).mp (List.find?_some hfind)⟩, ?_⟩
  intro j hj
  obtain ⟨hlo, hhi, hstart⟩ := hj
  have hcmp := find?_sorted (pairwise_searchAhead c pktTUs.length) hfind j
    ((mem_searchAhead hc).mpr ⟨hlo,hhi⟩) ((isBurstStart_iff (by omega)).mpr hstart)
  omega

/-- A search that finds nothing leaves no start of a burst in its window. -/
theorem not_startsBurst_of_find? {xs : List ℕ}
    (hfind : xs.find? (isBurstStart pktTUs oneway) = none) {i : ℕ} (hi : i ∈ xs)
    (hlt : i < pktTUs.length) : ¬ StartsBurstAt (fun i => toLong (pktTUs.getD i 0))
      (fun i => toLong (oneway.getD i 0)) i := by
  intro hstart
  exact List.find?_eq_none.mp hfind i hi ((isBurstStart_iff hlt).mpr hstart)

/-- The unsigned difference read as `long`. -/
theorem toLong_sub {x y : UInt64} (h : |toLong x-toLong y| < 2^63) :
    toLong (x-y) = toLong x-toLong y := by
  have hx := x.toNat_lt
  have hy := y.toNat_lt
  have hsize := (x-y).toNat_lt
  have hsub : ((x-y).toNat:ℤ) = (x.toNat:ℤ)-y.toNat ∨
      ((x-y).toNat:ℤ) = (x.toNat:ℤ)-y.toNat+2^64 := by
    rw [UInt64.toNat_sub]
    omega
  have hxl := toLong_cases x
  have hyl := toLong_cases y
  have hxy := toLong_cases (x-y)
  rw [abs_lt] at h
  omega

end

theorem ngscopeReTxFindBurstStart_foundAround {pktTUs : List UInt64} (oneway : List UInt64)
    (dciReTxTUs : UInt64) (hpos : 1 ≤ pktTUs.length)
    (hdiff : ∀ x ∈ pktTUs, |toLong dciReTxTUs-toLong x| < 2^63) :
    FoundAround (fun i => toLong (pktTUs.getD i 0)) (fun i => toLong (oneway.getD i 0))
      pktTUs.length (nearestNeighbourIndex pktTUs dciReTxTUs) (toLong dciReTxTUs)
      (ngscopeReTxFindBurstStart pktTUs oneway dciReTxTUs) := by
  have hne : pktTUs ≠ [] := List.ne_nil_of_length_pos hpos
  have hc := (nearestNeighbourIndex_isFirstMin dciReTxTUs hne).lt
  rw [ngscopeReTxFindBurstStart, burstSearch_eq, List.find?_append]
  cases hback : (searchBack (nearestNeighbourIndex pktTUs dciReTxTUs)).find?
      (isBurstStart pktTUs oneway) with
  | some i => exact Or.inl ⟨i, find?_searchBack hc hback, rfl⟩
  | none =>
    have hnone : ∀ i, nearestNeighbourIndex pktTUs dciReTxTUs-7 ≤ i →
        i ≤ nearestNeighbourIndex pktTUs dciReTxTUs → ¬ StartsBurstAt _ _ i := fun i hlo hhi =>
      not_startsBurst_of_find? hback (mem_searchBack.mpr ⟨hlo,hhi⟩) (by omega)
    cases hahead : (searchAhead (nearestNeighbourIndex pktTUs dciReTxTUs) pktTUs.length).find?
        (isBurstStart pktTUs oneway) with
    | some i => exact Or.inr (Or.inl ⟨hnone, i, find?_searchAhead hc hahead, rfl⟩)
    | none =>
      refine Or.inr (Or.inr ⟨?_, ?_⟩)
      · intro i hlo hhi
        by_cases hi : i ≤ nearestNeighbourIndex pktTUs dciReTxTUs
        · exact hnone i hlo hi
        · exact not_startsBurst_of_find? hahead ((mem_searchAhead hc).mpr ⟨by omega,hhi⟩) (by omega)
      · have hlast : pktTUs.getLastD 0 = pktTUs.getD (pktTUs.length-1) 0 := by
          rw [List.getLastD_eq_getLast?, List.getLast?_eq_getElem?, getElem?_eq_getD (by omega)]
          rfl
        have hmem : pktTUs.getD (pktTUs.length-1) 0 ∈ pktTUs := getD_mem (by omega)
        simp only [Option.none_or, hlast, toLong_sub (hdiff _ hmem)]
        rw [← Int.natCast_natAbs]
        norm_cast

theorem ngscopeReTxFindBurstStart_spec {pktTUs oneway : List UInt64} (dciReTxTUs : UInt64)
    (hpos : 1 ≤ pktTUs.length) (hlen : oneway.length = pktTUs.length)
    (hdiff : ∀ x ∈ pktTUs, |toLong dciReTxTUs-toLong x| < 2^63) :
    ngscopeReTxFindBurstStartChecked pktTUs oneway pktTUs.length dciReTxTUs =
        some (ngscopeReTxFindBurstStart pktTUs oneway dciReTxTUs) ∧
      ∃ c, IsFirstMin (fun i => |toLong (pktTUs.getD i 0)-toLong dciReTxTUs|) pktTUs.length c ∧
        FoundAround (fun i => toLong (pktTUs.getD i 0)) (fun i => toLong (oneway.getD i 0))
          pktTUs.length c (toLong dciReTxTUs)
          (ngscopeReTxFindBurstStart pktTUs oneway dciReTxTUs) := by
  have hne : pktTUs ≠ [] := List.ne_nil_of_length_pos hpos
  refine ⟨ngscopeReTxFindBurstStartChecked_eq dciReTxTUs hne hlen,
    nearestNeighbourIndex pktTUs dciReTxTUs, ?_, ?_⟩
  · have hmin := nearestNeighbourIndex_isFirstMin dciReTxTUs hne
    refine IsFirstMin.congr (hmin.map Nat.strictMono_cast) ?_
    intro i _
    exact Int.natCast_natAbs _
  · exact ngscopeReTxFindBurstStart_foundAround oneway dciReTxTUs hpos hdiff

theorem ngscopeReTxFindBurstStart_spec_two :
    ngscopeReTxFindBurstStartChecked [1000,9000] [2000,6000] 2 9100 =
        some (ngscopeReTxFindBurstStart [1000,9000] [2000,6000] 9100) ∧
      ∃ c, IsFirstMin (fun i => |toLong ([1000,9000].getD i 0)-toLong 9100|) 2 c ∧
        FoundAround (fun i => toLong ([1000,9000].getD i 0))
          (fun i => toLong ([2000,6000].getD i 0)) 2 c (toLong 9100)
          (ngscopeReTxFindBurstStart [1000,9000] [2000,6000] 9100) := by
  have hdiff : ∀ x ∈ ([1000,9000] : List UInt64), |toLong 9100-toLong x| < 2^63 := by
    intro x hx
    rcases List.mem_cons.mp hx with rfl | hx
    · have hdist : |toLong 9100-toLong 1000| = 8100 := by decide
      omega
    · have hdist : |toLong 9100-toLong 9000| = 100 := by decide
      rw [List.mem_singleton.mp hx]
      omega
  exact ngscopeReTxFindBurstStart_spec 9100 (by decide) (by decide) hdiff

/-- The second packet, far behind in time and in delay, starts the burst of a DCI near it. -/
example : ngscopeReTxFindBurstStart [1000,9000] [2000,6000] 9100 = 1 := by decide

end CopaNgscope
