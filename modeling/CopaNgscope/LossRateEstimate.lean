import Mathlib.Algebra.BigOperators.Ring.List
import Mathlib.Algebra.Order.BigOperators.Group.List
import Mathlib.Algebra.Order.Field.Rat
import Mathlib.Tactic.FieldSimp
import Mathlib.Tactic.Linarith
import Mathlib.Tactic.Positivity
import Mathlib.Tactic.Ring

/-! The loss rate estimator of `estimators.cc`. Its intervals are to be weighted by their age, but
the index that the weight depends on stays 0. Doubles are exact rationals, and the counter does
not wrap. -/
namespace CopaNgscope

/-- `none` is a division by zero. -/
def ratDiv (a b : ℚ) : Option ℚ := if b = 0 then none else some (a/b)

/-- The intervals between losses, oldest first, and the one that is still running. -/
structure LossRateEstimate where
  lossEvents : List ℚ
  curLossInterval : ℕ
deriving DecidableEq

def lossRateEstimate : LossRateEstimate := ⟨[], 0⟩

namespace LossRateEstimate

def window : ℕ := 8

/-- A loss soon after another one is not counted. -/
def update (e : LossRateEstimate) (lost : Bool) : LossRateEstimate :=
  if lost then
    if e.curLossInterval ≤ 2 then e
    else
      let lossEvents := e.lossEvents ++ [(e.curLossInterval : ℚ)]
      { lossEvents := if window < lossEvents.length then lossEvents.tail else lossEvents
        curLossInterval := 0 }
  else { e with curLossInterval := e.curLossInterval+1 }

/-- The weight of interval `i` of `curWindow`, counted from the most recent one. -/
def weight (curWindow i : ℕ) : ℚ :=
  if curWindow/2 ≤ i then 1-(i+1-(curWindow : ℚ)/2)/((curWindow : ℚ)/2+1) else 1

/-- The loop over the intervals, the most recent one first. It does not advance `i`. -/
def sums (e : LossRateEstimate) : ℚ × ℚ :=
  let i := 0
  e.lossEvents.reverse.foldl (fun r x =>
    (r.1+weight e.lossEvents.length i*x, r.2+weight e.lossEvents.length i)) (0, 0)

def value (e : LossRateEstimate) : Option ℚ :=
  if e.lossEvents.length = 0 then some 0
  else
    (ratDiv e.sums.1 e.sums.2).bind fun mean =>
      if mean < e.curLossInterval then ratDiv (e.sums.2+1) (e.sums.1+e.curLossInterval)
      else ratDiv e.sums.2 e.sums.1

/-! ### The weighted mean -/

/-- The intervals, the most recent one first. -/
def intervals (e : LossRateEstimate) : List ℚ := e.lossEvents.reverse

/-- The sum of the intervals with the weights `w`, and that of the weights. -/
def weightedSum (w : ℕ → ℚ) (s : List ℚ) : ℚ := (s.zipIdx.map fun x => w x.2*x.1).sum

def weightTotal (w : ℕ → ℚ) (s : List ℚ) : ℚ := (s.zipIdx.map fun x => w x.2).sum

def weightedMean (w : ℕ → ℚ) (s : List ℚ) : ℚ := weightedSum w s/weightTotal w s

/-- The mean with the current interval added with weight 1. -/
def meanWith (w : ℕ → ℚ) (s : List ℚ) (cur : ℚ) : ℚ :=
  (weightedSum w s+cur)/(weightTotal w s+1)

/-- The inverse of the mean, with the current interval added exactly when it exceeds the mean. -/
def inverseMean (w : ℕ → ℚ) (s : List ℚ) (cur : ℚ) : ℚ :=
  1/(if weightedMean w s < cur then meanWith w s cur else weightedMean w s)

theorem weight_pos {n i : ℕ} (hi : i < n) : 0 < weight n i := by
  unfold weight
  split_ifs
  · have hin : (i : ℚ)+1 ≤ n := by exact_mod_cast hi
    rw [sub_pos, div_lt_one (by positivity)]
    linarith
  · exact one_pos

section
variable {w : ℕ → ℚ} {s : List ℚ} (hne : s ≠ []) (hw : ∀ i < s.length, 0 < w i)
include hne hw

theorem weightTotal_pos : 0 < weightTotal w s := by
  apply List.sum_pos
  · intro x hx
    obtain ⟨y, hy, rfl⟩ := List.mem_map.mp hx
    exact hw y.2 (List.snd_lt_of_mem_zipIdx hy)
  · simpa using hne

theorem weightedSum_pos (hs : ∀ x ∈ s, 0 < x) : 0 < weightedSum w s := by
  apply List.sum_pos
  · intro x hx
    obtain ⟨y, hy, rfl⟩ := List.mem_map.mp hx
    exact mul_pos (hw y.2 (List.snd_lt_of_mem_zipIdx hy)) (hs y.1 (List.fst_mem_of_mem_zipIdx hy))
  · simpa using hne

/-- Added to a mean that it exceeds, the current interval still exceeds the new mean. -/
theorem meanWith_lt {cur : ℚ} (h : weightedMean w s < cur) : meanWith w s cur < cur := by
  have hpos := weightTotal_pos hne hw
  rw [weightedMean, div_lt_iff₀ hpos] at h
  rw [meanWith, div_lt_iff₀ (by linarith)]
  linarith

end

/-- A mean with the current interval added is below it only where the mean was. -/
theorem weightedMean_lt_of_meanWith {w : ℕ → ℚ} {s : List ℚ} (hne : s ≠ [])
    (hw : ∀ i < s.length, 0 < w i) {cur : ℚ} (h : meanWith w s cur < cur) :
    weightedMean w s < cur := by
  have hpos := weightTotal_pos hne hw
  rw [meanWith, div_lt_iff₀ (by linarith)] at h
  rw [weightedMean, div_lt_iff₀ hpos]
  linarith

/-- Two weightings give the same value when the means that the first one takes agree. -/
theorem inverseMean_eq_iff {w w' : ℕ → ℚ} {s : List ℚ} (hne : s ≠ [])
    (hw : ∀ i < s.length, 0 < w i) (hw' : ∀ i < s.length, 0 < w' i) (cur : ℚ) :
    inverseMean w s cur = inverseMean w' s cur ↔
      if weightedMean w s < cur then meanWith w s cur = meanWith w' s cur
      else weightedMean w s = weightedMean w' s := by
  rw [inverseMean, inverseMean, one_div, one_div, inv_inj]
  split_ifs with h h' h'
  · exact Iff.rfl
  · -- one mean is below the current interval, the other one is not, added to it or not
    have hlt := meanWith_lt hne hw h
    rw [not_lt] at h'
    refine iff_of_false (fun heq => by linarith) (fun heq => ?_)
    rw [heq] at hlt
    exact absurd (weightedMean_lt_of_meanWith hne hw' hlt) (not_lt.mpr h')
  · -- and the other way round
    have hlt := meanWith_lt hne hw' h'
    rw [not_lt] at h
    exact iff_of_false (fun heq => by linarith) (fun heq => by linarith)
  · exact Iff.rfl

/-! ### The weights that are not lost -/

/-- What interval `i` of `n` should lose of its weight, in parts of `n+2`. The newer half loses
nothing, and the oldest interval `n` parts. -/
def lostWeight (n i : ℕ) : ℚ := ((2*i+2-n : ℕ) : ℚ)

/-- Averaged by what they should lose, the older intervals are as long as all intervals are on
average, the current one included where it is longer than these. -/
def LossBalanced (s : List ℚ) (cur : ℚ) : Prop :=
  if s.sum < cur*s.length then
    (s.length+1)*weightedSum (lostWeight s.length) s =
      (s.sum+cur)*weightTotal (lostWeight s.length) s
  else s.length*weightedSum (lostWeight s.length) s =
    s.sum*weightTotal (lostWeight s.length) s

instance (s : List ℚ) (cur : ℚ) : Decidable (LossBalanced s cur) :=
  inferInstanceAs (Decidable (ite _ _ _))

theorem weight_eq_lostWeight (n i : ℕ) : weight n i = 1-lostWeight n i/(n+2) := by
  have hn : ((n:ℚ)/2+1) ≠ 0 := by positivity
  have hn' : ((n:ℚ)+2) ≠ 0 := by positivity
  unfold weight lostWeight
  split_ifs with hold
  · rw [Nat.cast_sub (by omega)]
    push_cast
    field_simp
  · rw [Nat.sub_eq_zero_of_le (by omega), Nat.cast_zero, zero_div, sub_zero]

theorem weightedSum_const (c : ℚ) (s : List ℚ) : weightedSum (fun _ => c) s = c*s.sum := by
  calc weightedSum (fun _ => c) s = ((s.zipIdx.map Prod.fst).map fun x => c*x).sum := by
        rw [List.map_map]
        rfl
    _ = c*s.sum := by rw [List.zipIdx_map_fst, List.sum_map_mul_left, List.map_id']

theorem weightTotal_const (c : ℚ) (s : List ℚ) : weightTotal (fun _ => c) s = c*s.length := by
  rw [weightTotal, List.map_const', List.sum_replicate, List.length_zipIdx, nsmul_eq_mul, mul_comm]

theorem weightedSum_congr {w w' : ℕ → ℚ} {s : List ℚ} (h : ∀ i < s.length, w i = w' i) :
    weightedSum w s = weightedSum w' s := by
  refine congrArg List.sum (List.map_congr_left (fun x hx => ?_))
  rw [h x.2 (List.snd_lt_of_mem_zipIdx hx)]

theorem weightTotal_congr {w w' : ℕ → ℚ} {s : List ℚ} (h : ∀ i < s.length, w i = w' i) :
    weightTotal w s = weightTotal w' s :=
  congrArg List.sum (List.map_congr_left fun x hx => h x.2 (List.snd_lt_of_mem_zipIdx hx))

theorem sum_map_sub_div {α : Type*} (f g : α → ℚ) (c : ℚ) (l : List α) :
    (l.map fun x => f x-g x/c).sum = (l.map f).sum-(l.map g).sum/c := by
  induction l with
  | nil => simp
  | cons x l ih =>
    simp only [List.map_cons, List.sum_cons, ih]
    ring

theorem weightTotal_one_sub (w : ℕ → ℚ) (c : ℚ) (s : List ℚ) :
    weightTotal (fun i => 1-w i/c) s = s.length-weightTotal w s/c := by
  have hone := weightTotal_const 1 s
  rw [one_mul] at hone
  rw [← hone]
  exact sum_map_sub_div (fun _ => 1) (fun x : ℚ × ℕ => w x.2) c s.zipIdx

theorem weightedSum_one_sub (w : ℕ → ℚ) (c : ℚ) (s : List ℚ) :
    weightedSum (fun i => 1-w i/c) s = s.sum-weightedSum w s/c := by
  have hone := weightedSum_const 1 s
  rw [one_mul] at hone
  calc weightedSum (fun i => 1-w i/c) s
      = (s.zipIdx.map fun x => 1*x.1-w x.2*x.1/c).sum := by
        refine congrArg List.sum (List.map_congr_left fun x _ => ?_)
        ring
    _ = weightedSum (fun _ => 1) s-weightedSum w s/c := sum_map_sub_div _ _ c s.zipIdx
    _ = s.sum-weightedSum w s/c := by rw [hone]

/-- Two means agree when what one of them leaves out has that mean as well. -/
theorem div_eq_sub_div_iff {a n x l c : ℚ} (hn : n ≠ 0) (hc : c ≠ 0) (hl : n-l/c ≠ 0) :
    a/n = (a-x/c)/(n-l/c) ↔ n*x = a*l := by
  rw [div_eq_div_iff hn hl]
  constructor
  · intro h
    field_simp at h
    linarith
  · intro h
    field_simp
    linarith

/-- The plain mean of the intervals and the weighted one lead to the same value exactly when the
weights to be lost are balanced. -/
theorem inverseMean_weight_iff {s : List ℚ} (hne : s ≠ []) (cur : ℚ) :
    inverseMean (fun _ => 1) s cur = inverseMean (weight s.length) s cur ↔
      LossBalanced s cur := by
  have hlen : (0:ℚ) < s.length := by exact_mod_cast List.length_pos_of_ne_nil hne
  have hparts : (s.length:ℚ)+2 ≠ 0 := by positivity
  have htotal := weightTotal_pos hne fun i hi => weight_pos hi
  have hsum := weightedSum_congr (s := s) fun i _ => weight_eq_lostWeight s.length i
  have hweights := weightTotal_congr (s := s) fun i _ => weight_eq_lostWeight s.length i
  rw [weightedSum_one_sub] at hsum
  rw [weightTotal_one_sub] at hweights
  rw [hweights] at htotal
  rw [inverseMean_eq_iff hne (fun _ _ => one_pos) (fun i hi => weight_pos hi), LossBalanced]
  simp only [weightedMean, meanWith, weightedSum_const, weightTotal_const, one_mul, hsum, hweights]
  rw [if_congr (div_lt_iff₀ hlen) rfl rfl]
  split_ifs
  · rw [show s.sum-weightedSum (lostWeight s.length) s/(s.length+2)+cur =
        s.sum+cur-weightedSum (lostWeight s.length) s/(s.length+2) by ring,
      show s.length-weightTotal (lostWeight s.length) s/(s.length+2)+1 =
        (s.length:ℚ)+1-weightTotal (lostWeight s.length) s/(s.length+2) by ring]
    exact div_eq_sub_div_iff (by positivity) hparts (by linarith)
  · exact div_eq_sub_div_iff hlen.ne' hparts htotal.ne'

/-! ### The value -/

/-- Every recorded interval is longer than two packets. -/
def Recorded (e : LossRateEstimate) : Prop := ∀ x ∈ e.lossEvents, 2 < x

theorem Recorded.update {e : LossRateEstimate} (h : Recorded e) (lost : Bool) :
    Recorded (e.update lost) := by
  unfold LossRateEstimate.update
  split_ifs with hlost hshort
  · exact h
  · intro x hx
    have hmem : x ∈ e.lossEvents ++ [(e.curLossInterval : ℚ)] := by
      simp only at hx
      split_ifs at hx
      · exact List.mem_of_mem_tail hx
      · exact hx
    rcases List.mem_append.mp hmem with hmem | hmem
    · exact h x hmem
    · rw [List.mem_singleton.mp hmem]
      exact_mod_cast not_le.mp hshort
  · exact h

theorem recorded_foldl (lost : List Bool) : Recorded (lost.foldl update lossRateEstimate) := by
  induction lost using List.reverseRecOn with
  | nil => exact fun x hx => absurd hx List.not_mem_nil
  | append_singleton lost l ih =>
    rw [List.foldl_append]
    exact ih.update l

/-- The loop adds up the intervals with the one weight that it computes each time. -/
theorem sums_eq (e : LossRateEstimate) :
    e.sums = (weightedSum (fun _ => weight e.lossEvents.length 0) e.intervals,
      weightTotal (fun _ => weight e.lossEvents.length 0) e.intervals) := by
  have hloop (c : ℚ) (s : List ℚ) (r : ℚ × ℚ) :
      s.foldl (fun r x => (r.1+c*x, r.2+c)) r = (r.1+c*s.sum, r.2+c*s.length) := by
    induction s generalizing r with
    | nil => simp
    | cons x s ih =>
      rw [List.foldl_cons, ih, List.sum_cons, List.length_cons, Prod.mk.injEq]
      push_cast
      constructor <;> ring
  rw [sums, hloop, weightedSum_const, weightTotal_const, zero_add, zero_add]
  rfl

theorem inverseMean_congr {w w' : ℕ → ℚ} {s : List ℚ} (h : ∀ i < s.length, w i = w' i)
    (cur : ℚ) : inverseMean w s cur = inverseMean w' s cur := by
  rw [inverseMean, inverseMean, weightedMean, weightedMean, meanWith, meanWith,
    weightedSum_congr h, weightTotal_congr h]

/-- No division is by zero, and the value is the inverse of the mean with the one weight. -/
theorem value_eq {e : LossRateEstimate} (h : Recorded e) (hne : e.lossEvents ≠ []) :
    e.value = some (inverseMean (fun _ => weight e.lossEvents.length 0) e.intervals
      e.curLossInterval) := by
  have hne' : e.intervals ≠ [] := by simpa [intervals] using hne
  have hw : ∀ i < e.intervals.length, 0 < weight e.lossEvents.length 0 :=
    fun _ _ => weight_pos (List.length_pos_iff.mpr hne)
  have hpos : ∀ x ∈ e.intervals, 0 < x := fun x hx =>
    two_pos.trans (h x (List.mem_reverse.mp hx))
  have hsum := weightedSum_pos hne' hw hpos
  have htotal := weightTotal_pos hne' hw
  have hcur : (0 : ℚ) ≤ e.curLossInterval := Nat.cast_nonneg _
  rw [value, if_neg (by simpa using hne), sums_eq, ratDiv, if_neg htotal.ne', Option.bind_some,
    inverseMean, weightedMean]
  split_ifs with hlt
  · rw [ratDiv, if_neg (by linarith), meanWith, one_div_div]
  · rw [ratDiv, if_neg hsum.ne', one_div_div]

/-- Where the most recent of two intervals or more counts fully, all do. -/
theorem weight_zero {n : ℕ} (hn : 2 ≤ n) : weight n 0 = 1 := if_neg (by omega)

/-- Equal intervals are balanced until the current one is longer. -/
theorem lossBalanced_replicate {n : ℕ} (hn : n ≠ 0) (x cur : ℚ) :
    LossBalanced (List.replicate n x) cur ↔ cur ≤ x := by
  have hlen : (0:ℚ) < n := by exact_mod_cast Nat.pos_of_ne_zero hn
  have hsum (w : ℕ → ℚ) : weightedSum w (List.replicate n x) =
      weightTotal w (List.replicate n x)*x := by
    unfold weightedSum weightTotal
    rw [← List.sum_map_mul_right]
    refine congrArg List.sum (List.map_congr_left fun y hy => ?_)
    rw [List.eq_of_mem_replicate (List.fst_mem_of_mem_zipIdx hy)]
  have hlost : 0 < weightTotal (lostWeight n) (List.replicate n x) := by
    -- the oldest interval loses a part for each interval
    have hlast : (n:ℚ) ∈ (List.replicate n x).zipIdx.map fun y => lostWeight n y.2 := by
      refine List.mem_map.mpr ⟨(x, n-1), List.mk_mem_zipIdx_iff_getElem?.mpr ?_, ?_⟩
      · rw [List.getElem?_replicate_of_lt (by omega)]
      · exact congrArg Nat.cast (by omega)
    refine hlen.trans_le (List.single_le_sum (fun y hy => ?_) _ hlast)
    obtain ⟨z, _, rfl⟩ := List.mem_map.mp hy
    exact Nat.cast_nonneg _
  rw [LossBalanced, List.length_replicate, List.sum_replicate, nsmul_eq_mul, hsum]
  split_ifs with h
  · have hlt : x < cur := by nlinarith
    refine iff_of_false (fun heq => ?_) (not_le.mpr hlt)
    nlinarith
  · refine iff_of_true (by ring) ?_
    nlinarith

/-- After any updates with a loss recorded, no division is by zero, and the value is that of the
weighted mean exactly with one interval, or where the weights to be lost are balanced; with two
equal intervals or more, exactly while the current one is not longer. -/
theorem value_weighted_iff {lost : List Bool} {e : LossRateEstimate}
    (he : lost.foldl update lossRateEstimate = e) (hne : e.lossEvents ≠ []) :
    (∃ v, e.value = some v) ∧
      (e.value = some (inverseMean (weight e.lossEvents.length) e.intervals e.curLossInterval) ↔
        e.lossEvents.length = 1 ∨ LossBalanced e.intervals e.curLossInterval) ∧
      ∀ n x, 2 ≤ n → e.intervals = List.replicate n x →
        (e.value = some (inverseMean (weight n) e.intervals e.curLossInterval) ↔
          e.curLossInterval ≤ x) := by
  have hrecorded : Recorded e := he ▸ recorded_foldl lost
  have hvalue := value_eq hrecorded hne
  have hne' : e.intervals ≠ [] := by simpa [intervals] using hne
  have hlen : e.intervals.length = e.lossEvents.length := List.length_reverse
  have hpos := List.length_pos_iff.mpr hne
  have hmany : 2 ≤ e.lossEvents.length →
      (e.value = some (inverseMean (weight e.lossEvents.length) e.intervals e.curLossInterval) ↔
        LossBalanced e.intervals e.curLossInterval) := by
    intro htwo
    rw [hvalue, Option.some.injEq, weight_zero htwo, ← hlen]
    exact inverseMean_weight_iff hne' _
  refine ⟨⟨_, hvalue⟩, ?_, fun n x hn hequal => ?_⟩
  · rcases Nat.lt_or_ge e.lossEvents.length 2 with hone | htwo
    · -- the only index is 0
      have hlen' : e.lossEvents.length = 1 := by omega
      rw [hvalue]
      refine iff_of_true (congrArg some (inverseMean_congr (fun i hi => ?_) _)) (Or.inl hlen')
      obtain rfl : i = 0 := by omega
      rfl
    · rw [hmany htwo]
      exact (or_iff_right (by omega)).symm
  · have hn' : e.lossEvents.length = n := by rw [← hlen, hequal, List.length_replicate]
    rw [← hn', hmany (hn'.symm ▸ hn), hequal]
    exact lossBalanced_replicate (by omega) x _

/-- The given numbers of packets, each run ended by a loss. -/
def lossesAfter (runs : List ℕ) : List Bool :=
  runs.flatMap fun n => List.replicate n false ++ [true]

/-- The intervals 8, 13 and 9, the most recent one first: weighted by what the last two should
lose, 1 and 3 parts of 5, these have the mean 10 that all three have. Two equal intervals agree. -/
theorem value_weighted_iff_balanced :
    ((lossesAfter [9, 13, 8]).foldl update lossRateEstimate).value =
        some (inverseMean (weight 3) [8, 13, 9] 0) ∧
      inverseMean (weight 3) [8, 13, 9] 0 = 1/10 ∧
      ((lossesAfter [4, 4]).foldl update lossRateEstimate).value =
        some (inverseMean (weight 2) [4, 4] 0) := by
  have hintervals : ((lossesAfter [9, 13, 8]).foldl update lossRateEstimate).intervals =
      [8, 13, 9] := by decide +kernel
  have hequal : ((lossesAfter [4, 4]).foldl update lossRateEstimate).intervals = [4, 4] := by
    decide +kernel
  have hbalanced : LossBalanced [8, 13, 9] 0 := by decide +kernel
  obtain ⟨_, hvalue, _⟩ := @value_weighted_iff (lossesAfter [9, 13, 8]) _ rfl (by decide +kernel)
  obtain ⟨_, _, hvalue'⟩ := @value_weighted_iff (lossesAfter [4, 4]) _ rfl (by decide +kernel)
  have hvalue := hvalue.mpr (Or.inr (by rw [hintervals]; exact hbalanced))
  have hvalue' := (hvalue' 2 4 le_rfl hequal).mpr (by decide +kernel)
  rw [hintervals] at hvalue
  rw [hequal] at hvalue'
  exact ⟨hvalue, by decide +kernel, hvalue'⟩

/-- Six packets, a loss, three packets, a loss. -/
def twoIntervals : List Bool := lossesAfter [6, 3]

/-- The intervals 3 and 6 have the mean 4 1/2, weighted the mean 4. -/
theorem value_twoIntervals :
    (twoIntervals.foldl update lossRateEstimate).value = some (2/9) ∧
      (twoIntervals.foldl update lossRateEstimate).value ≠ some (inverseMean (weight 2)
        (twoIntervals.foldl update lossRateEstimate).intervals 0) := by
  have hvalue : (twoIntervals.foldl update lossRateEstimate).value = some (2/9) := by
    decide +kernel
  have hmean : inverseMean (weight 2)
      (twoIntervals.foldl update lossRateEstimate).intervals 0 = 1/4 := by
    decide +kernel
  refine ⟨hvalue, ?_⟩
  rw [hvalue, hmean]
  norm_num

end LossRateEstimate

end CopaNgscope
