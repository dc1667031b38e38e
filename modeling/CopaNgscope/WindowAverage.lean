import Mathlib.Algebra.Order.Field.Rat
import CopaNgscope.RunInvariant
import CopaNgscope.StepIntegral

/-! The windowed time average of `estimators.hh`. The sum keeps what belongs to the time before the
window, which the divisor does not count. Doubles are exact rationals. -/
namespace CopaNgscope
open RunInvariant StepIntegral

/-- The window holds values with their timestamps. -/
structure WindowAverage where
  window : List (ℚ × ℚ)
  windowSize : ℚ
  sum : ℚ
  prevPoppedTimestamp : ℚ
deriving DecidableEq

def windowAverage (windowSize : ℚ) : WindowAverage := ⟨[], windowSize, 0, 0⟩

namespace WindowAverage

/-- The loop that drops the samples before `limit`; the timestamp 0 says that none has been
dropped yet. -/
def popOld (limit : ℚ) : List (ℚ × ℚ) → ℚ → ℚ → List (ℚ × ℚ) × ℚ × ℚ
  | x :: y :: z :: rest, sum, prev =>
    -- at least two samples stay
    if x.2 < limit then
      popOld limit (y :: z :: rest) (if prev ≠ 0 then sum-x.1*(x.2-prev) else sum) x.2
    else (x :: y :: z :: rest, sum, prev)
  | window, sum, prev => (window, sum, prev)

/-- `update` with a window that is not empty. -/
def pushSample (a : WindowAverage) (x : ℚ × ℚ) : WindowAverage :=
  let sum := a.sum+x.1*(x.2-(a.window.getLastD x).2)
  let r := popOld (x.2-a.windowSize) (a.window ++ [x]) sum a.prevPoppedTimestamp
  { a with window := r.1, sum := r.2.1, prevPoppedTimestamp := r.2.2 }

/-- The first sample is put in twice; `none` is a failed assertion. -/
def update (a : WindowAverage) (x : ℚ × ℚ) : Option WindowAverage :=
  if a.window = [] then
    if a.prevPoppedTimestamp = 0 then some (pushSample { a with window := [(x.1,x.2-1/1000)] } x)
    else none
  else some (a.pushSample x)

/-- The conversion to `double`; `none` is a failed assertion. -/
def value (a : WindowAverage) : Option ℚ :=
  match a.window with
  | [] => some 0
  | [_] => none
  | x :: y :: rest =>
    some (a.sum/(((x :: y :: rest).getLast (List.cons_ne_nil x _)).2-x.2))

/-! ### What the sum holds -/

/-- The interval of the second sample stays if the first timestamp was taken for none. -/
def sentinelLeft : List (ℚ × ℚ) → ℚ
  | d :: e :: _ => if d.2 = 0 then e.1*e.2 else 0
  | _ => 0

/-- What the sum keeps of the samples `dropped` before a window that starts with `x`: the interval
before `x`, and where the sentinel was met that of the second sample. -/
def leftover (dropped : List (ℚ × ℚ)) (x : ℚ × ℚ) : ℚ :=
  match dropped.getLast? with
  | none => 0
  | some d => x.1*(x.2-d.2)+sentinelLeft dropped

/-- The window and what was dropped before it, with the sum and the timestamp dropped last. -/
structure Holds (dropped window : List (ℚ × ℚ)) (sum prev : ℚ) : Prop where
  timed : Timed (dropped ++ window)
  /-- Only the sample that was put in first may have the timestamp 0. -/
  pos : ∀ x ∈ (dropped ++ window).tail, 0 < x.2
  sum_eq : ∀ x ∈ window.head?, sum = integral window+leftover dropped x
  prev_eq : prev = (dropped.getLast?.map Prod.snd).getD 0

/-- With another sample dropped, its interval leaves the sum, and that of the next one stays. -/
theorem leftover_concat {dropped : List (ℚ × ℚ)} {x y : ℚ × ℚ}
    (hpos : ∀ z ∈ (dropped ++ [x]).tail, 0 < z.2) :
    leftover (dropped ++ [x]) y = y.1*(y.2-x.2)+leftover dropped x-
      (if (dropped.getLast?.map Prod.snd).getD 0 ≠ 0 then
        x.1*(x.2-(dropped.getLast?.map Prod.snd).getD 0) else 0) := by
  have hnew : leftover (dropped ++ [x]) y = y.1*(y.2-x.2)+sentinelLeft (dropped ++ [x]) := by
    rw [leftover, List.getLast?_concat]
  rw [hnew]
  match dropped with
  | [] => simp [leftover, sentinelLeft]
  | [d] =>
    -- the sample put in first may have the timestamp that stands for none
    by_cases hd : d.2 = 0
    · simp [leftover, sentinelLeft, hd]
    · simp [leftover, sentinelLeft, hd]
  | d :: e :: ds =>
    -- the last timestamp is positive, so the sentinel is not met again
    have hlast : (d :: e :: ds).getLast? = some ((e :: ds).getLast (List.cons_ne_nil e ds)) := by
      rw [List.getLast?_cons_cons, List.getLast?_eq_some_getLast]
    have hne : ((e :: ds).getLast (List.cons_ne_nil e ds)).2 ≠ 0 := by
      refine (hpos _ ?_).ne'
      exact List.mem_append_left [x] (List.getLast_mem (List.cons_ne_nil e ds))
    rw [leftover, hlast]
    simp only [Option.map_some, Option.getD_some, ne_eq, hne, not_false_eq_true, if_true]
    simp only [List.cons_append, sentinelLeft]
    ring

theorem Holds.pop {dropped rest : List (ℚ × ℚ)} {x y z : ℚ × ℚ} {sum prev : ℚ}
    (h : Holds dropped (x :: y :: z :: rest) sum prev) :
    Holds (dropped ++ [x]) (y :: z :: rest)
      (if prev ≠ 0 then sum-x.1*(x.2-prev) else sum) x.2 := by
  have happend : dropped ++ [x] ++ (y :: z :: rest) = dropped ++ x :: y :: z :: rest := by simp
  refine ⟨happend ▸ h.timed, happend ▸ h.pos, ?_, by simp⟩
  intro w hw
  obtain rfl : y = w := Option.some.inj hw
  have hpos : ∀ w ∈ (dropped ++ [x]).tail, 0 < w.2 := by
    intro w hw
    apply h.pos
    rw [← happend, List.tail_append_of_ne_nil (List.append_ne_nil_of_right_ne_nil _ (by simp))]
    exact List.mem_append_left _ hw
  rw [leftover_concat hpos, ← h.prev_eq, h.sum_eq x rfl, integral_cons_cons]
  split_ifs
  · ring
  · ring

/-- The loop drops samples from the front, and what the sum holds stays known. -/
theorem Holds.popOld {dropped window : List (ℚ × ℚ)} {sum prev : ℚ}
    (h : Holds dropped window sum prev) (hlen : 2 ≤ window.length) (limit : ℚ) :
    ∃ popped, popped ++ (popOld limit window sum prev).1 = window ∧
      2 ≤ (popOld limit window sum prev).1.length ∧
      Holds (dropped ++ popped) (popOld limit window sum prev).1
        (popOld limit window sum prev).2.1 (popOld limit window sum prev).2.2 := by
  fun_induction WindowAverage.popOld limit window sum prev generalizing dropped with
  | case1 x y z rest sum prev hold ih =>
    obtain ⟨popped, hwindow, htwo, hholds⟩ := ih h.pop (by simp)
    refine ⟨x :: popped, by rw [List.cons_append, hwindow], htwo, ?_⟩
    rwa [List.append_assoc] at hholds
  | case2 x y z rest sum prev hnew => exact ⟨[], rfl, by simp, by rwa [List.append_nil]⟩
  | case3 window sum prev hshort => exact ⟨[], rfl, hlen, by rwa [List.append_nil]⟩

/-- A later sample adds its value over the time since the last one. -/
theorem Holds.push {dropped window : List (ℚ × ℚ)} {x : ℚ × ℚ} {sum prev : ℚ}
    (h : Holds dropped window sum prev) (hne : window ≠ [])
    (hlater : ∀ y ∈ dropped ++ window, y.2 < x.2) (hx : 0 < x.2) :
    Holds dropped (window ++ [x]) (sum+x.1*(x.2-(window.getLastD x).2)) prev := by
  have happend : dropped ++ (window ++ [x]) = (dropped ++ window) ++ [x] :=
    (List.append_assoc _ _ _).symm
  refine ⟨?_, ?_, ?_, h.prev_eq⟩
  · rw [happend]
    refine List.pairwise_append.mpr ⟨h.timed, List.pairwise_singleton _ x, fun y hy z hz => ?_⟩
    rw [List.mem_singleton.mp hz]
    exact hlater y hy
  · intro y hy
    rw [happend, List.tail_append_of_ne_nil (List.append_ne_nil_of_right_ne_nil _ hne)] at hy
    rcases List.mem_append.mp hy with hy | hy
    · exact h.pos y hy
    · rwa [List.mem_singleton.mp hy]
  · cases window with
    | nil => exact absurd rfl hne
    | cons w rest =>
      intro v hv
      obtain rfl : w = v := Option.some.inj hv
      rw [integral_concat, h.sum_eq w rfl, List.getLastD_cons, List.getLast_eq_getLastD]
      ring

/-- The samples as they were put in: the first one also a thousandth before. -/
def pushed : List (ℚ × ℚ) → List (ℚ × ℚ)
  | [] => []
  | x :: rest => (x.1,x.2-1/1000) :: x :: rest

/-- The samples not before `limit`, and at least the last two. -/
def keepFrom (limit : ℚ) : List (ℚ × ℚ) → List (ℚ × ℚ)
  | x :: y :: z :: rest =>
    if x.2 < limit then keepFrom limit (y :: z :: rest) else x :: y :: z :: rest
  | window => window

theorem popOld_fst (limit : ℚ) (window : List (ℚ × ℚ)) (sum prev : ℚ) :
    (popOld limit window sum prev).1 = keepFrom limit window := by
  fun_induction WindowAverage.popOld limit window sum prev with
  | case1 x y z rest sum prev hold ih => rw [keepFrom, if_pos hold, ih]
  | case2 x y z rest sum prev hnew => rw [keepFrom, if_neg hnew]
  | case3 window sum prev hshort =>
    cases window with
    | nil => rfl
    | cons x rest =>
      cases rest with
      | nil => rfl
      | cons y rest =>
        cases rest with
        | nil => rfl
        | cons z rest => exact absurd rfl (hshort x y z rest)

/-- What an earlier limit drops a later one drops as well. -/
theorem keepFrom_keepFrom {limit limit' : ℚ} (hle : limit ≤ limit') (window : List (ℚ × ℚ))
    (x : ℚ × ℚ) :
    keepFrom limit' (keepFrom limit window ++ [x]) = keepFrom limit' (window ++ [x]) := by
  fun_induction keepFrom limit window with
  | case1 a b c rest hold ih =>
    rw [ih]
    simp only [List.cons_append]
    rw [keepFrom.eq_def limit' (a :: b :: c :: (rest ++ [x]))]
    simp only
    rw [if_pos (hold.trans_le hle)]
  | case2 a b c rest hnew => rfl
  | case3 window hshort => rfl

/-- The samples in the window after the updates `xs`, by their times. -/
def kept (windowSize : ℚ) (xs : List (ℚ × ℚ)) : List (ℚ × ℚ) :=
  keepFrom ((xs.getLastD (0,0)).2-windowSize) (pushed xs)

/-- The samples put in before those. -/
def droppedBefore (windowSize : ℚ) (xs : List (ℚ × ℚ)) : List (ℚ × ℚ) :=
  (pushed xs).take ((pushed xs).length-(kept windowSize xs).length)

/-- After the updates `xs` the window is what is left of the samples. -/
structure Shows (windowSize : ℚ) (xs : List (ℚ × ℚ)) (a : WindowAverage) : Prop where
  windowSize_eq : a.windowSize = windowSize
  window_eq : a.window = kept windowSize xs
  exists_dropped : ∃ dropped, dropped ++ a.window = pushed xs ∧
    Holds dropped a.window a.sum a.prevPoppedTimestamp
  two_le : 2 ≤ a.window.length

theorem pushed_concat {xs : List (ℚ × ℚ)} (hne : xs ≠ []) (x : ℚ × ℚ) :
    pushed (xs ++ [x]) = pushed xs ++ [x] := by
  cases xs with
  | nil => exact absurd rfl hne
  | cons y ys => rfl

/-- One sample put behind a window. -/
theorem Holds.pushSample {dropped : List (ℚ × ℚ)} {a : WindowAverage} {x : ℚ × ℚ}
    (h : Holds dropped a.window a.sum a.prevPoppedTimestamp) (hne : a.window ≠ [])
    (hlater : ∀ y ∈ dropped ++ a.window, y.2 < x.2) (hx : 0 < x.2) {xs : List (ℚ × ℚ)}
    (hpushed : dropped ++ (a.window ++ [x]) = pushed (xs ++ [x]))
    (hkept : keepFrom (x.2-a.windowSize) (a.window ++ [x]) = kept a.windowSize (xs ++ [x])) :
    Shows a.windowSize (xs ++ [x]) (a.pushSample x) := by
  have hlen : 2 ≤ (a.window ++ [x]).length := by
    have hpos := List.length_pos_iff.mpr hne
    rw [List.length_append, List.length_singleton]
    omega
  obtain ⟨popped, hwindow, htwo, hholds⟩ :=
    (h.push hne hlater hx).popOld hlen (x.2-a.windowSize)
  refine ⟨rfl, (popOld_fst _ _ _ _).trans hkept, ⟨dropped ++ popped, ?_, hholds⟩, htwo⟩
  rw [List.append_assoc]
  exact (congrArg (dropped ++ ·) hwindow).trans hpushed

/-- The first update puts the sample in twice. -/
theorem shows_first (windowSize : ℚ) {x : ℚ × ℚ} (hx : 0 < x.2) :
    ∃ b, (windowAverage windowSize).update x = some b ∧ Shows windowSize [x] b := by
  refine ⟨_, rfl, ?_⟩
  have hstart : Holds [] [(x.1,x.2-1/1000)] 0 0 := by
    refine ⟨List.pairwise_singleton _ _, fun y hy => absurd hy List.not_mem_nil, ?_, rfl⟩
    intro y _
    simp [leftover]
  change Shows windowSize ([] ++ [x]) _
  refine hstart.pushSample (a := ⟨[(x.1,x.2-1/1000)], windowSize, 0, 0⟩) (by simp) ?_ hx rfl rfl
  intro y hy
  rw [List.mem_singleton.mp hy]
  norm_num

/-- One more update of a window that shows the samples before it. -/
theorem Shows.update {windowSize : ℚ} {xs : List (ℚ × ℚ)} {a : WindowAverage}
    (h : Shows windowSize xs a) {x : ℚ × ℚ} (hlater : ∀ y ∈ pushed xs, y.2 < x.2)
    (hx : 0 < x.2) : ∃ b, a.update x = some b ∧ Shows windowSize (xs ++ [x]) b := by
  obtain ⟨rfl, hwindow, ⟨dropped, happend, hholds⟩, htwo⟩ := h
  have hne : a.window ≠ [] := List.ne_nil_of_length_pos (by omega)
  have hxs : xs ≠ [] := by
    rintro rfl
    exact hne (List.append_eq_nil_iff.mp happend).2
  refine ⟨a.pushSample x, if_neg hne, hholds.pushSample hne (happend ▸ hlater) hx ?_ ?_⟩
  · rw [← List.append_assoc, happend, pushed_concat hxs]
  · -- the limit of the update before lies further back
    have hlast : (xs.getLastD (0,0)).2 < x.2 := by
      apply hlater
      cases xs with
      | nil => exact absurd rfl hxs
      | cons y ys =>
        rw [List.getLastD_eq_getLast?, List.getLast?_eq_some_getLast (List.cons_ne_nil y ys),
          Option.getD_some]
        exact List.mem_cons_of_mem _ (List.getLast_mem _)
    rw [hwindow, kept, keepFrom_keepFrom (by linarith), kept, pushed_concat hxs,
      List.getLastD_concat]

theorem lt_of_mem_pushed {xs : List (ℚ × ℚ)} {t : ℚ} (h : ∀ y ∈ xs, y.2 < t) :
    ∀ y ∈ pushed xs, y.2 < t := by
  intro y hy
  cases xs with
  | nil => exact absurd hy List.not_mem_nil
  | cons z zs =>
    rcases List.mem_cons.mp hy with rfl | hy
    · have hz := h z List.mem_cons_self
      linarith
    · exact h y hy

/-- No assertion fails, and the window shows the samples. -/
theorem run_shows (windowSize : ℚ) {xs : List (ℚ × ℚ)} (hs : Timed xs) (hpos : ∀ x ∈ xs, 0 < x.2)
    (hne : xs ≠ []) :
    ∃ a, run update (windowAverage windowSize) xs = some a ∧ Shows windowSize xs a := by
  induction xs using List.reverseRecOn with
  | nil => exact absurd rfl hne
  | append_singleton xs x ih =>
    obtain ⟨hinit, _, hlater⟩ := List.pairwise_append.mp hs
    have hx : 0 < x.2 := hpos x (by simp)
    rcases eq_or_ne xs [] with rfl | hne'
    · -- the window is empty before the first update only
      obtain ⟨b, hb, hshows⟩ := shows_first windowSize hx
      exact ⟨b, by rw [List.nil_append, run_singleton, hb], hshows⟩
    · obtain ⟨a, ha, hshows⟩ := ih hinit (fun y hy => hpos y (List.mem_append_left [x] hy)) hne'
      obtain ⟨b, hb, hshows'⟩ := hshows.update
        (lt_of_mem_pushed fun y hy => hlater y hy x List.mem_cons_self) hx
      exact ⟨b, by rw [run_concat, ha, Option.bind_some, hb], hshows'⟩

/-! ### The average -/

/-- The value lies between two values in the window. -/
def Averages (a : WindowAverage) : Prop :=
  ∃ v, a.value = some v ∧ (∃ x ∈ a.window, x.1 ≤ v) ∧ ∃ x ∈ a.window, v ≤ x.1

/-- The area that the samples `xs` leave over before the window: the first value kept times the
gap to the last sample dropped, and the sentinel's part. -/
def gapArea (windowSize : ℚ) (xs : List (ℚ × ℚ)) : ℚ :=
  leftover (droppedBefore windowSize xs) ((kept windowSize xs).headD (0,0))

/-- A positive area of the gap fits between the samples kept and the largest of them, a negative
one between these and the smallest. -/
def GapCovered (windowSize : ℚ) (xs : List (ℚ × ℚ)) : Prop :=
  (0 < gapArea windowSize xs → ∃ x ∈ kept windowSize xs,
    gapArea windowSize xs ≤ integral ((kept windowSize xs).map fun y => (x.1-y.1,y.2))) ∧
  (gapArea windowSize xs < 0 → ∃ x ∈ kept windowSize xs,
    -gapArea windowSize xs ≤ integral ((kept windowSize xs).map fun y => (y.1-x.1,y.2)))

instance (windowSize : ℚ) (xs : List (ℚ × ℚ)) : Decidable (GapCovered windowSize xs) :=
  inferInstanceAs (Decidable (_ ∧ _))

theorem Shows.holds {windowSize : ℚ} {xs : List (ℚ × ℚ)} {a : WindowAverage}
    (h : Shows windowSize xs a) : droppedBefore windowSize xs ++ a.window = pushed xs ∧
      Holds (droppedBefore windowSize xs) a.window a.sum a.prevPoppedTimestamp := by
  obtain ⟨_, hwindow, ⟨dropped, happend, hholds⟩, _⟩ := h
  have hdropped : droppedBefore windowSize xs = dropped := by
    rw [droppedBefore, ← hwindow, ← happend, List.length_append, Nat.add_sub_cancel,
      List.take_left]
  rw [hdropped]
  exact ⟨happend, hholds⟩

/-- The value counts the area of the gap, and not its time. -/
theorem Shows.value_eq {windowSize : ℚ} {xs : List (ℚ × ℚ)} {a : WindowAverage}
    (h : Shows windowSize xs a) : 0 < duration a.window ∧
      a.value = some ((integral a.window+gapArea windowSize xs)/duration a.window) := by
  have hholds := h.holds.2
  have htimed : Timed a.window := (List.pairwise_append.mp hholds.timed).2.1
  have hlen := h.two_le
  rw [gapArea, ← h.window_eq]
  unfold value
  match hwindow : a.window, hlen with
  | x :: y :: rest, _ =>
    rw [hwindow] at htimed hholds
    refine ⟨duration_pos htimed, ?_⟩
    simp only [List.headD_cons]
    rw [← hholds.sum_eq x rfl]
    rfl

theorem sentinelLeft_const {dropped : List (ℚ × ℚ)} {c : ℚ} (hc : ∀ y ∈ dropped, y.1 = c)
    (hpos : ∀ y ∈ dropped.tail, 0 < y.2) : ∃ k, 0 ≤ k ∧ sentinelLeft dropped = c*k := by
  match dropped with
  | [] => exact ⟨0, le_rfl, (mul_zero c).symm⟩
  | [d] => exact ⟨0, le_rfl, (mul_zero c).symm⟩
  | d :: e :: ds =>
    have he := hc e (by simp)
    have hpos' := hpos e (by simp)
    rw [sentinelLeft, he]
    split_ifs
    · exact ⟨e.2, hpos'.le, rfl⟩
    · exact ⟨0, le_rfl, (mul_zero c).symm⟩

/-- Of a constant signal a positive time is left as soon as a sample is dropped. -/
theorem leftover_const {dropped window : List (ℚ × ℚ)} {sum prev c : ℚ}
    (h : Holds dropped window sum prev) {x : ℚ × ℚ} (hx : x ∈ window)
    (hc : ∀ y ∈ dropped ++ window, y.1 = c) (hne : dropped ≠ []) :
    ∃ k, 0 < k ∧ leftover dropped x = c*k := by
  have hlater := (List.pairwise_append.mp h.timed).2.2 _ (List.getLast_mem hne) x hx
  have hpos : ∀ y ∈ dropped.tail, 0 < y.2 := by
    intro y hy
    apply h.pos
    rw [List.tail_append_of_ne_nil hne]
    exact List.mem_append_left window hy
  obtain ⟨k, hk, hsentinel⟩ :=
    sentinelLeft_const (fun y hy => hc y (List.mem_append_left window hy)) hpos
  refine ⟨x.2-(dropped.getLast hne).2+k, by linarith, ?_⟩
  rw [leftover, List.getLast?_eq_some_getLast hne]
  simp only
  rw [hsentinel, hc x (List.mem_append_right dropped hx)]
  ring

theorem pushed_const {xs : List (ℚ × ℚ)} {c : ℚ} (hc : ∀ x ∈ xs, x.1 = c) :
    ∀ y ∈ pushed xs, y.1 = c := by
  intro y hy
  cases xs with
  | nil => exact absurd hy List.not_mem_nil
  | cons x xs =>
    rcases List.mem_cons.mp hy with rfl | hy
    · exact hc x List.mem_cons_self
    · exact hc y hy

section
variable {windowSize : ℚ} {xs : List (ℚ × ℚ)} {a : WindowAverage} (h : Shows windowSize xs a)
include h

/-- Without the gap the value is an average, so only the side that the gap pulls to counts. -/
theorem Shows.averages_iff : Averages a ↔ GapCovered windowSize xs := by
  obtain ⟨hpos, hvalue⟩ := h.value_eq
  have htimed : Timed a.window := (List.pairwise_append.mp h.holds.2.timed).2.1
  have hne : a.window ≠ [] := List.ne_nil_of_length_pos (two_pos.trans_le h.two_le)
  obtain ⟨lo, hlo, hlow⟩ := exists_mul_le_integral hne htimed
  obtain ⟨hi, hhi, hhigh⟩ := exists_integral_le_mul hne htimed
  simp only [GapCovered, integral_const_sub, integral_sub_const, ← h.window_eq]
  set area := gapArea windowSize xs
  have hsome : Averages a ↔
      (∃ x ∈ a.window, x.1*duration a.window ≤ integral a.window+area) ∧
      ∃ x ∈ a.window, integral a.window+area ≤ x.1*duration a.window := by
    rw [Averages, hvalue]
    simp only [Option.some.injEq, exists_eq_left', le_div_iff₀ hpos, div_le_iff₀ hpos]
  rw [hsome]
  constructor
  · rintro ⟨⟨x, hx, hle⟩, ⟨y, hy, hge⟩⟩
    exact ⟨fun _ => ⟨y, hy, by linarith⟩, fun _ => ⟨x, hx, by linarith⟩⟩
  · rintro ⟨hup, hdown⟩
    rcases lt_trichotomy area 0 with hneg | hzero | hposArea
    · obtain ⟨x, hx, hle⟩ := hdown hneg
      exact ⟨⟨x, hx, by linarith⟩, ⟨hi, hhi, by linarith⟩⟩
    · exact ⟨⟨lo, hlo, by linarith⟩, ⟨hi, hhi, by linarith⟩⟩
    · obtain ⟨x, hx, hle⟩ := hup hposArea
      exact ⟨⟨lo, hlo, by linarith⟩, ⟨x, hx, by linarith⟩⟩

/-- Before anything is dropped there is no gap. -/
theorem Shows.averages_of_nil (hnil : droppedBefore windowSize xs = []) : Averages a := by
  have harea : gapArea windowSize xs = 0 := by rw [gapArea, hnil, leftover, List.getLast?_nil]
  rw [h.averages_iff, GapCovered, harea]
  exact ⟨fun hlt => absurd hlt (lt_irrefl 0), fun hlt => absurd hlt (lt_irrefl 0)⟩

/-- A constant signal is reported as it is exactly before anything is dropped. -/
theorem Shows.value_const_iff {c : ℚ} (hc : ∀ x ∈ xs, x.1 = c) :
    a.value = some c ↔ droppedBefore windowSize xs = [] ∨ c = 0 := by
  obtain ⟨hpos, hvalue⟩ := h.value_eq
  obtain ⟨happend, hholds⟩ := h.holds
  have hall : ∀ y ∈ droppedBefore windowSize xs ++ a.window, y.1 = c := happend ▸ pushed_const hc
  have hint := integral_const (fun y hy => hall y (List.mem_append_right _ hy))
  have hhead : a.window.headD (0,0) ∈ a.window := by
    have hlen := h.two_le
    cases hwindow : a.window with
    | nil => simp [hwindow] at hlen
    | cons x rest => exact List.mem_cons_self
  rw [hvalue, Option.some.injEq, div_eq_iff hpos.ne', hint, add_eq_left, gapArea, ← h.window_eq]
  rcases eq_or_ne (droppedBefore windowSize xs) [] with hnil | hne
  · rw [hnil]
    exact iff_of_true rfl (Or.inl rfl)
  · obtain ⟨k, hk, hleft⟩ := leftover_const hholds hhead hall hne
    rw [hleft, mul_eq_zero, or_iff_left hk.ne', or_iff_right hne]

end

/-- After updates at increasing positive times the window holds the samples kept by their times,
and the value is between values in it exactly where the area of the gap before it is covered. That
is so before anything is dropped, and for a constant other than 0 only then. -/
theorem windowAverage_averages_iff (windowSize : ℚ) {xs : List (ℚ × ℚ)}
    (hs : xs.Pairwise (fun x y => x.2 < y.2)) (hpos : ∀ x ∈ xs, 0 < x.2) (hne : xs ≠ []) :
    ∃ a, run update (windowAverage windowSize) xs = some a ∧ a.window = kept windowSize xs ∧
      (Averages a ↔ GapCovered windowSize xs) ∧ (droppedBefore windowSize xs = [] → Averages a) ∧
      ∀ c, (∀ x ∈ xs, x.1 = c) →
        (a.value = some c ↔ droppedBefore windowSize xs = [] ∨ c = 0) := by
  obtain ⟨a, ha, hshows⟩ := run_shows windowSize hs hpos hne
  exact ⟨a, ha, hshows.window_eq, hshows.averages_iff, hshows.averages_of_nil,
    fun c => hshows.value_const_iff⟩

/-- Two samples dropped, and the one of the gap is small against the third one kept. -/
theorem windowAverage_averages_dropped :
    (∃ a, run update (windowAverage 3) [((9:ℚ),(1:ℚ)),(9,2),(1,3),(1,4),(5,5),(2,6)] = some a ∧
      a.window = [(1,3),(1,4),(5,5),(2,6)] ∧ a.value = some 3 ∧ Averages a) ∧
    ∃ b, run update (windowAverage 5) [((7:ℚ),(2:ℚ)),(7,3)] = some b ∧ b.value = some 7 := by
  have hdropped : ([((9:ℚ),(1:ℚ)),(9,2),(1,3),(1,4),(5,5),(2,6)] : List (ℚ × ℚ)) ≠ [] := by decide
  have hconstant : ([((7:ℚ),(2:ℚ)),(7,3)] : List (ℚ × ℚ)) ≠ [] := by decide
  obtain ⟨a, ha, hwindow, hiff, _⟩ := windowAverage_averages_iff 3
    (by decide +kernel) (by decide +kernel) hdropped
  obtain ⟨b, hb, _, _, _, hconst⟩ := windowAverage_averages_iff 5
    (by decide +kernel) (by decide +kernel) hconstant
  have hvalue : (run update (windowAverage 3)
      [((9:ℚ),(1:ℚ)),(9,2),(1,3),(1,4),(5,5),(2,6)]).bind value = some 3 := by decide +kernel
  rw [ha, Option.bind_some] at hvalue
  refine ⟨⟨a, ha, ?_, hvalue, hiff.mpr (by decide +kernel)⟩, b, hb, ?_⟩
  · rw [hwindow]
    decide +kernel
  · exact (hconst 7 (by decide +kernel)).mpr (Or.inl (by decide +kernel))

/-- The constant 1 at the times 1, 2, 3 and 4 with a window of one time unit is reported as 2. -/
theorem windowAverage_constant :
    ∃ a, run update (windowAverage 1) [(1,1),(1,2),(1,3),(1,4)] = some a ∧
      a.window = [(1,3),(1,4)] ∧ a.value = some 2 ∧ ¬ Averages a := by
  have hrun : run update (windowAverage 1) [(1,1),(1,2),(1,3),(1,4)] =
      some ⟨[(1,3),(1,4)], 1, 2, 2⟩ := by decide +kernel
  have hvalue : value ⟨[(1,3),(1,4)], 1, 2, 2⟩ = some 2 := by decide +kernel
  refine ⟨_, hrun, rfl, hvalue, ?_⟩
  rintro ⟨v, hv, _, x, hx, hle⟩
  obtain rfl := Option.some.inj (hvalue.symm.trans hv)
  rcases List.mem_pair.mp hx with rfl | rfl
  · norm_num at hle
  · norm_num at hle

end WindowAverage

end CopaNgscope
