import CopaNgscope.CyclicList
import CopaNgscope.Doubles
import CopaNgscope.Estimators
import CopaNgscope.RingLog
import CopaNgscope.SendDataTimeout
import CopaNgscope.TopSelection

/-! The query of the percentile estimator of `estimators.cc`. It goes round the window a hundred
times whatever its size, so that it reads a window that is not full more than once, and stops in
the middle of it. How many values it selects is computed with doubles, which may lose one. -/
namespace CopaNgscope
open BinaryRounding CyclicList RingLog TopSelection

/-- The estimator for the percentile `v`, which is kept as a double. -/
def percentileOf (v : ℚ) : Percentile := ⟨binary64.round v, []⟩

namespace Percentile

/-- The variable `N`: the difference and the product are rounded to doubles, the conversion drops
the fraction. -/
def entries (p : Percentile) : Option ℤ :=
  doubleToInt (binary64.round (binary64.round (1-p.percentile)*windowLen))

/-- One round of the inner loop over `largest`, with the value `x` at hand. -/
def visitEntry (n : ℕ) (s : List ℚ × ℚ) (j : ℕ) : List ℚ × ℚ :=
  if s.2 ≤ s.1.getD (n-1) default then s
  else if s.1.getD j default < s.2 then (s.1.set j s.2, s.1.getD j default)
  else s

def visit (n : ℕ) (largest : List ℚ) (x : ℚ) : List ℚ :=
  ((List.range n).foldl (visitEntry n) (largest, x)).1

/-- One round of the outer loop, over the window and `largest`. The window is not empty. -/
def rotateVisit (n : ℕ) (s : List ℚ × List ℚ) : List ℚ × List ℚ :=
  match s.1 with
  | [] => s
  | val :: rest => (rest ++ [val], visit n s.2 val)

/-- `get_percentile_value`: the value, and the estimator after it. `none` is an access outside
`largest`, which has one entry more than the window may hold. -/
def getPercentileValue (p : Percentile) : Option (ℚ × Percentile) :=
  p.entries.bind fun n =>
    if windowLen+1 < n then none
    else if p.window.length = 0 then some (0, p)
    else if n < 1 then none
    else
      -- the number of rounds does not depend on the size
      let r := (List.range windowLen).foldl (fun s _ => rotateVisit n.toNat s)
        (p.window, List.replicate n.toNat (-1))
      some (r.2.getD (n.toNat-1) default, { p with window := r.1 })

/-! ### The loops -/

/-- In descending order the first test skips nothing that would change: the round leaves the
larger of the entry and the value at hand, and goes on with the smaller one. -/
theorem visitEntry_append {n : ℕ} {s rest : List ℚ} {a : ℚ}
    (hlen : s.length+(a :: rest).length = n) (ha : ∀ y ∈ rest, y ≤ a) (c : ℚ) :
    visitEntry n (s ++ a :: rest, c) s.length = (s ++ max a c :: rest, min a c) := by
  have hentry : (s ++ a :: rest).getD s.length default = a := by
    rw [List.getD_append_right _ _ _ _ le_rfl, Nat.sub_self, List.getD_cons_zero]
  have hlast : (s ++ a :: rest).getD (n-1) default ≤ a := by
    rw [List.length_cons] at hlen
    rw [List.getD_append_right _ _ _ _ (by omega), show n-1-s.length = rest.length by omega]
    have hlt : rest.length < (a :: rest).length := Nat.lt_succ_self _
    rw [List.getD_eq_getElem _ _ hlt]
    rcases List.mem_cons.mp (List.getElem_mem hlt) with heq | hmem
    · exact heq.le
    · exact ha _ hmem
  unfold visitEntry
  simp only [hentry]
  split_ifs with hskip hlt
  · -- a value no larger than the last entry is no larger than this one
    have hle := hskip.trans hlast
    rw [max_eq_left hle, min_eq_right hle]
  · rw [max_eq_right hlt.le, min_eq_left hlt.le, List.set_append_right _ _ le_rfl, Nat.sub_self,
      List.set_cons_zero]
  · have hle := not_lt.mp hlt
    rw [max_eq_left hle, min_eq_right hle]

/-- The inner loop lets the value sweep through the list. -/
theorem visit_eq_sweep {n : ℕ} {largest : List ℚ} (h : largest.Pairwise (· ≥ ·))
    (hlen : largest.length = n) (x : ℚ) : visit n largest x = (sweep largest x).1 := by
  have hloop (j : ℕ) (hj : j ≤ n) : (List.range j).foldl (visitEntry n) (largest, x) =
      ((sweep (largest.take j) x).1 ++ largest.drop j, (sweep (largest.take j) x).2) := by
    induction j with
    | zero => simp [sweep]
    | succ j ih =>
      have hj' : j < largest.length := by omega
      have hslen : (sweep (largest.take j) x).1.length = j := by
        rw [length_sweep, List.length_take, Nat.min_eq_left hj'.le]
      have htail : ∀ y ∈ largest.drop (j+1), y ≤ largest[j] := by
        have hdrop := List.Pairwise.sublist (List.drop_sublist j largest) h
        rw [List.drop_eq_getElem_cons hj'] at hdrop
        exact (List.pairwise_cons.mp hdrop).1
      have hround := visitEntry_append (n := n) (s := (sweep (largest.take j) x).1)
        (by rw [hslen, List.length_cons, List.length_drop]; omega) htail
        (sweep (largest.take j) x).2
      rw [hslen] at hround
      rw [List.range_succ, List.foldl_append, ih (by omega), List.foldl_cons, List.foldl_nil,
        List.drop_eq_getElem_cons hj', hround, List.take_succ_eq_append_getElem hj', sweep_concat,
        List.append_assoc, List.singleton_append]
  rw [visit, hloop n le_rfl, ← hlen, List.take_length, List.drop_length, List.append_nil]

/-- After `k` rounds the window is rotated, and the largest values read are selected. -/
theorem foldl_rotateVisit {window : List ℚ} (hne : window ≠ []) (n k : ℕ) :
    (List.range k).foldl (fun s _ => rotateVisit n s) (window, List.replicate n (-1)) =
      (window.rotate k, select (List.replicate n (-1)) (cycle window k)) := by
  have hconst : (List.replicate n (-1 : ℚ)).Pairwise (· ≥ ·) :=
    List.pairwise_replicate.mpr (Or.inr le_rfl)
  induction k with
  | zero => simp [cycle, select]
  | succ k ih =>
    obtain ⟨rest, hrot, hrot'⟩ := rotate_succ hne k
    have hlen : (select (List.replicate n (-1)) (cycle window k)).length = n := by
      rw [length_select hconst, List.length_replicate]
    rw [List.range_succ, List.foldl_append, ih, List.foldl_cons, List.foldl_nil, rotateVisit,
      hrot, cycle_succ, select_concat]
    simp only
    rw [visit_eq_sweep (pairwise_select hconst _) hlen, hrot']

/-! ### The query -/

/-- The values pushed last, as many as the window may hold. -/
def lastPushed (vals : List ℚ) : List ℚ := vals.rtake windowLen

theorem window_push (percentile : ℚ) (vals : List ℚ) :
    vals.foldl push ⟨percentile, []⟩ = ⟨percentile, lastPushed vals⟩ := by
  induction vals using List.reverseRecOn with
  | nil => rfl
  | append_singleton vals v ih =>
    have hlen : (lastPushed vals ++ [v]).length ≤ windowLen+1 := by
      rw [List.length_append, lastPushed, length_rtake, List.length_singleton]
      omega
    have hlast : (lastPushed vals ++ [v]).rtake windowLen =
        if windowLen < (lastPushed vals ++ [v]).length then (lastPushed vals ++ [v]).tail
        else lastPushed vals ++ [v] := by
      split_ifs with hfull
      · rw [List.rtake, show (lastPushed vals ++ [v]).length-windowLen = 1 by omega,
          List.drop_one]
      · rw [rtake_of_length_le (not_lt.mp hfull)]
    rw [List.foldl_append, ih, List.foldl_cons, List.foldl_nil, push, ← hlast]
    simp only [lastPushed, rtake_rtake_concat]

/-- The rank of the percentile `v` among a hundred values. -/
def rankAsked (v : ℚ) : ℕ := ⌊(1-v)*windowLen⌋₊

/-- After the pushes the query returns the value of the rank asked for among the last ones, or 0
without a value, and leaves the window as it was. -/
def QueryRight (v : ℚ) (vals : List ℚ) : Prop :=
  let window := lastPushed vals
  (vals.foldl push (percentileOf v)).getPercentileValue =
    some (if window = [] then 0 else rank window (min (rankAsked v) window.length),
      ⟨binary64.round v, window⟩)

/-- The window consists of equal blocks as long as the greatest common divisor `d` of 100 and its
size. Each value of the block is read `100/d` times, and is in the window `size/d` times; the rank
`m` among the values read and `n` among those in the window fall on equal values of the block. -/
def BlocksAgree (window : List ℚ) (m n : ℕ) : Prop :=
  let d := windowLen.gcd window.length
  window.rotate d = window ∧
    rank (window.take d) ((m-1)/(windowLen/d)+1) =
      rank (window.take d) ((min n window.length-1)/(window.length/d)+1)

theorem getPercentileValue_nil {p : Percentile} {m : ℤ} (hm : p.entries = some m)
    (hnil : p.window = []) :
    p.getPercentileValue = if windowLen+1 < m then none else some (0, p) := by
  rw [getPercentileValue, hm, Option.bind_some, hnil]
  rfl

/-- Without an entry the value returned is outside the array. -/
theorem getPercentileValue_of_lt {p : Percentile} {m : ℤ} (hm : p.entries = some m) (hlt : m < 1)
    (hne : p.window ≠ []) : p.getPercentileValue = none := by
  have hlen : ¬p.window.length = 0 := fun h => hne (List.length_eq_zero_iff.mp h)
  rw [getPercentileValue, hm, Option.bind_some, if_neg hlen, if_pos hlt, ite_self]

theorem getPercentileValue_cons {p : Percentile} {m : ℕ} (hm : p.entries = some (m : ℤ))
    (hpos : 1 ≤ m) (hne : p.window ≠ []) :
    p.getPercentileValue = if windowLen+1 < m then none else
      some ((select (List.replicate m (-1)) (cycle p.window windowLen)).getD (m-1) default,
        { p with window := p.window.rotate windowLen }) := by
  have hlen : ¬p.window.length = 0 := fun h => hne (List.length_eq_zero_iff.mp h)
  have hm1 : ¬(m : ℤ) < 1 := by omega
  rw [getPercentileValue, hm, Option.bind_some, if_neg hlen, if_neg hm1]
  simp only [Int.toNat_natCast, foldl_rotateVisit hne]
  split_ifs with h h' h'
  · rfl
  · exact absurd (by exact_mod_cast h) h'
  · exact absurd (by exact_mod_cast h') h
  · rfl

/-- Each value of a block that is read `k/d` times takes as many ranks. -/
theorem rank_cycle {window : List ℚ} {d k : ℕ} (hne : window ≠ []) (h : window.rotate d = window)
    (hd : d ∣ window.length) (hk : d ∣ k) (hpos : 0 < k) (r : ℕ) :
    rank (cycle window k) r = rank (window.take d) ((r-1)/(k/d)+1) := by
  have hd0 : 0 < d := Nat.pos_of_dvd_of_pos hk hpos
  have hlen : (window.take d).length = d := by
    rw [List.length_take, Nat.min_eq_left (Nat.le_of_dvd (List.length_pos_iff.mpr hne) hd)]
  have hperm := perm_cycle_mul (window.take d) (k/d)
  rw [hlen, Nat.div_mul_cancel hk] at hperm
  calc rank (cycle window k) r = rank (cycle (window.take d) k) r := by
        rw [cycle_take hne h hd hd0]
    _ = rank ((window.take d).flatMap (List.replicate (k/d))) r := rank_congr hperm r
    _ = rank (window.take d) ((r-1)/(k/d)+1) :=
        rank_flatMap_replicate _ (Nat.div_pos (Nat.le_of_dvd hpos hk) hd0) r

/-- The hundred values read have at the rank `m` what the window has at the rank `n`, and the
rotations have brought the window back. -/
theorem rotate_rank_iff {window : List ℚ} (hne : window ≠ []) (m n : ℕ) :
    (rank (cycle window windowLen) m = rank window (min n window.length) ∧
      window.rotate windowLen = window) ↔ BlocksAgree window m n := by
  have hd := Nat.gcd_dvd_right windowLen window.length
  have hk := Nat.gcd_dvd_left windowLen window.length
  have hpos := List.length_pos_iff.mpr hne
  -- the rotation decides first, since it makes the blocks
  rw [rotate_eq_iff_gcd hne, BlocksAgree, and_comm]
  refine and_congr_right (fun hrot => ?_)
  have hwindow := rank_cycle hne hrot hd hd hpos (min n window.length)
  rw [cycle_length] at hwindow
  rw [rank_cycle hne hrot hd hk (by decide), hwindow]

theorem nonneg_of_mem_lastPushed {vals : List ℚ} (hvals : ∀ v ∈ vals, 0 ≤ v) :
    ∀ v ∈ lastPushed vals, 0 ≤ v := fun v hv => hvals v (List.mem_of_mem_drop hv)

/-- No value that is read is below the sentinel. -/
theorem neg_one_le_of_mem_cycle {window : List ℚ} (hne : window ≠ []) (hmem : ∀ v ∈ window, 0 ≤ v)
    (k : ℕ) : ∀ v ∈ cycle window k, -1 ≤ v := fun v hv =>
  neg_one_lt_zero.le.trans (hmem v (mem_of_mem_cycle hne hv))

/-- Without a value there is nothing to read, and only the entries have to fit. -/
theorem queryRight_nil_iff {v : ℚ} {m : ℤ} (hm : (percentileOf v).entries = some m)
    {vals : List ℚ} (hnil : lastPushed vals = []) :
    QueryRight v vals ↔ m ≤ windowLen+1 := by
  rw [QueryRight, percentileOf, window_push, hnil, ← percentileOf, getPercentileValue_nil hm rfl]
  rw [if_pos rfl]
  split_ifs with hlt
  · exact iff_of_false (by simp) (not_le.mpr hlt)
  · exact iff_of_true rfl (not_lt.mp hlt)

section
variable {v : ℚ} {m : ℕ} (hm : (percentileOf v).entries = some (m : ℤ)) (hpos : 1 ≤ m)
  {vals : List ℚ} (hvals : ∀ x ∈ vals, 0 ≤ x)
include hm hpos hvals

theorem queryRight_cons_iff (hne : lastPushed vals ≠ []) (hle : m ≤ windowLen) :
    QueryRight v vals ↔ BlocksAgree (lastPushed vals) m (rankAsked v) := by
  have hmem := nonneg_of_mem_lastPushed hvals
  rw [QueryRight, percentileOf, window_push]
  generalize lastPushed vals = window at hmem hne ⊢
  have hbot := neg_one_le_of_mem_cycle hne hmem windowLen
  have hrank := getD_select_of_le hbot hpos (by rwa [length_cycle])
  rw [getPercentileValue_cons (p := ⟨binary64.round v, window⟩) hm hpos hne, if_neg hne,
    if_neg (by omega), hrank, ← rotate_rank_iff hne]
  simp

/-- With more entries than rounds the last one holds the sentinel, or is outside the array. -/
theorem not_queryRight (hasked : 1 ≤ rankAsked v) (hne : lastPushed vals ≠ [])
    (hlt : windowLen < m) : ¬QueryRight v vals := by
  have hmem := nonneg_of_mem_lastPushed hvals
  rw [QueryRight, percentileOf, window_push]
  generalize lastPushed vals = window at hmem hne ⊢
  have hbot := neg_one_le_of_mem_cycle hne hmem windowLen
  have hsentinel := getD_select_of_lt hbot (by rwa [length_cycle] : (cycle window _).length < m)
  have hrank : 0 ≤ rank window (min (rankAsked v) window.length) := by
    have hlen := List.length_pos_iff.mpr hne
    exact hmem _ (rank_mem (by omega) (Nat.min_le_right _ _))
  rw [getPercentileValue_cons (p := ⟨binary64.round v, window⟩) hm hpos hne, if_neg hne, hsentinel]
  intro h
  split_ifs at h
  have hval := congrArg Prod.fst (Option.some_injective _ h)
  simp only at hval
  linarith

/-- Once a hundred values are there, the query is right where no rank is lost. -/
theorem queryRight_full (hasked : rankAsked v = m) (hfull : windowLen ≤ vals.length)
    (hle : m ≤ windowLen) : QueryRight v vals := by
  have hlen : (lastPushed vals).length = windowLen := by
    rw [lastPushed, length_rtake, Nat.min_eq_right hfull]
  have hne : lastPushed vals ≠ [] := fun h => by
    rw [h] at hlen
    exact absurd hlen (by decide)
  rw [queryRight_cons_iff hm hpos hvals hne hle, BlocksAgree, hlen, Nat.gcd_self, hasked]
  refine ⟨by rw [← hlen, List.rotate_length], ?_⟩
  rw [Nat.min_eq_left hle]

end

/-- For a percentile that asks for a rank the query is right exactly in an empty window, as long
as the entries fit, and in a window of equal blocks where the rank that the doubles give agrees
with the one asked for. -/
theorem queryRight_iff {v : ℚ} (hv : 1 ≤ (1-v)*windowLen) {vals : List ℚ}
    (hvals : ∀ x ∈ vals, 0 ≤ x) :
    QueryRight v vals ↔ ∃ m : ℤ, (percentileOf v).entries = some m ∧
      ((lastPushed vals = [] ∧ m ≤ windowLen+1) ∨
        (lastPushed vals ≠ [] ∧ 1 ≤ m ∧ m ≤ windowLen ∧
          BlocksAgree (lastPushed vals) m.toNat (rankAsked v))) := by
  have hasked : 1 ≤ rankAsked v := Nat.le_floor (by exact_mod_cast hv)
  cases hm : (percentileOf v).entries with
  | none =>
    refine iff_of_false (fun h => ?_) (by simp)
    have hundefined : (vals.foldl push (percentileOf v)).getPercentileValue = none := by
      rw [percentileOf, window_push, getPercentileValue]
      exact congrArg (Option.bind · _) hm
    rw [QueryRight, hundefined] at h
    cases h
  | some m =>
    simp only [Option.some.injEq, exists_eq_left']
    rcases eq_or_ne (lastPushed vals) [] with hnil | hne
    · rw [queryRight_nil_iff hm hnil]
      simp [hnil]
    · rcases lt_or_ge m 1 with hlt | hpos
      · refine iff_of_false (fun h => ?_)
          (fun h => h.elim (fun h => hne h.1) (fun h => not_le.mpr hlt h.2.1))
        rw [QueryRight, percentileOf, window_push] at h
        rw [getPercentileValue_of_lt (p := ⟨binary64.round v, lastPushed vals⟩) hm hlt hne] at h
        cases h
      · lift m to ℕ using by omega
        have hpos : 1 ≤ m := by exact_mod_cast hpos
        rcases Nat.lt_or_ge windowLen m with hmany | hle
        · refine iff_of_false (not_queryRight hm hpos hvals hasked hne hmany) (fun h => ?_)
          rcases h with ⟨hnil, _⟩ | ⟨_, _, hle, _⟩
          · exact hne hnil
          · exact absurd (by exact_mod_cast hle) (not_le.mpr hmany)
        · rw [queryRight_cons_iff hm hpos hvals hne hle, Int.toNat_natCast]
          simp [hne, hpos, hle]

/-- The second largest of four values is as large as the first one. -/
theorem queryRight_iff_fourValues :
    rankAsked (98/100) = 2 ∧ QueryRight (98/100) [3, 5, 1, 5] := by
  have hm : (percentileOf (98/100)).entries = some 2 := by decide +kernel
  have hasked : rankAsked (98/100) = 2 := by decide +kernel
  have hlast : lastPushed [3, 5, 1, 5] = [3, 5, 1, 5] := by decide +kernel
  have hsorted : descending [(3 : ℚ), 5, 1, 5] = [5, 5, 3, 1] :=
    descending_eq (by decide +kernel) (by decide +kernel)
  refine ⟨hasked, (queryRight_iff (by decide +kernel) (by decide +kernel)).mpr ?_⟩
  rw [hlast, hasked]
  refine ⟨2, hm, Or.inr ⟨by decide, by decide, by decide, by decide +kernel, ?_⟩⟩
  change rank [(3 : ℚ), 5, 1, 5] 1 = rank [(3 : ℚ), 5, 1, 5] 2
  rw [rank, rank, hsorted]
  rfl

/-- Of two values, each one is read 50 times. The second largest of the values read is the larger
one again. -/
theorem getPercentileValue_twoValues :
    rankAsked (98/100) = 2 ∧
      ([1, 2].foldl push (percentileOf (98/100))).getPercentileValue.map Prod.fst = some 2 ∧
      ¬QueryRight (98/100) [1, 2] := by
  have hasked : rankAsked (98/100) = 2 := by decide +kernel
  have hvalue : ([1, 2].foldl push (percentileOf (98/100))).getPercentileValue.map Prod.fst =
      some 2 := by decide +kernel
  have hlast : lastPushed [1, 2] = [1, 2] := by decide +kernel
  have hsorted : descending [(1 : ℚ), 2] = [2, 1] :=
    descending_eq (List.Perm.swap 1 2 []) (by decide +kernel)
  refine ⟨hasked, hvalue, fun h => ?_⟩
  rw [QueryRight, hlast, hasked, if_neg (by decide), rank, hsorted] at h
  rw [h] at hvalue
  revert hvalue
  decide +kernel

/-- The double of 9/10 is a little more, so that a rank is lost. -/
example : rankAsked (9/10) = 10 ∧ (percentileOf (9/10)).entries = some 9 := by decide +kernel

/-- A hundred rounds over three values leave the oldest one behind the others. -/
example : ([1, 2, 3].foldl push (percentileOf (95/100))).getPercentileValue.map
    (fun r => r.2.window) = some [2, 3, 1] := by decide +kernel

end Percentile

end CopaNgscope
