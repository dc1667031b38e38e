import CopaNgscope.MonotoneDeque
import CopaNgscope.RttWindow

/-! The trackers of an RTT window get the same samples and differ in how long they keep them. The
one that keeps them longest holds the samples of the others, which orders their extremes. -/
namespace CopaNgscope
open MonotoneDeque

/-! ### One tracker -/

/-- The values as a search for the least one sees them. -/
def extremeKey (findMin : Bool) (v : ℚ) : ℚ := if findMin then v else -v

def sampleKey (findMin : Bool) (s : ℚ × ℚ) : ℚ := extremeKey findMin s.2

theorem extremeKey_lt (findMin : Bool) (a b : ℚ) :
    (if findMin then a < b else b < a) ↔ extremeKey findMin a < extremeKey findMin b := by
  cases findMin <;> simp [extremeKey]

theorem decide_extremeKey_lt (findMin : Bool) (a b : ℚ) :
    (if findMin then decide (a < b) else decide (b < a)) =
      decide (extremeKey findMin a < extremeKey findMin b) := by
  cases findMin <;> simp [extremeKey]

theorem decide_extremeKey_le (findMin : Bool) (a b : ℚ) :
    (if findMin then decide (a ≤ b) else decide (b ≤ a)) =
      decide (extremeKey findMin a ≤ extremeKey findMin b) := by
  cases findMin <;> simp [extremeKey]

theorem extremeKey_injective (findMin : Bool) {a b : ℚ}
    (h : extremeKey findMin a = extremeKey findMin b) : a = b := by
  cases findMin <;> simpa [extremeKey] using h

theorem dropOldHist_fst (findMin : Bool) (limit extreme : ℚ) (vals : List (ℚ × ℚ)) (r : Bool) :
    (dropOldHist findMin limit extreme vals r).1 = expire Prod.fst limit vals := by
  fun_induction dropOldHist findMin limit extreme vals r with
  | case1 r v u vals hold ih => rw [ih, expire, if_pos hold]
  | case2 r v u vals hold => rw [expire, if_neg hold]
  | case3 vals r hshort =>
    unfold expire
    split
    · exact absurd rfl (hshort _ _ _)
    · rfl

/-- Once set, the flag stays set. -/
theorem dropOldHist_snd_of_true (findMin : Bool) (limit extreme : ℚ) (vals : List (ℚ × ℚ)) :
    (dropOldHist findMin limit extreme vals true).2 = true := by
  induction vals with
  | nil => rfl
  | cons v vals ih =>
    cases vals with
    | nil => rfl
    | cons u vals =>
      rw [dropOldHist, Bool.true_or]
      split_ifs
      · exact ih
      · rfl

/-- While the extreme beats every sample it is not recomputed. -/
theorem dropOldHist_snd_of_lt (findMin : Bool) (limit extreme : ℚ) {vals : List (ℚ × ℚ)}
    (h : ∀ s ∈ vals, extremeKey findMin extreme < sampleKey findMin s) :
    (dropOldHist findMin limit extreme vals false).2 = false := by
  induction vals with
  | nil => rfl
  | cons v vals ih =>
    cases vals with
    | nil => rfl
    | cons u vals =>
      have hv : ¬ extremeKey findMin v.2 ≤ extremeKey findMin extreme :=
        not_le.mpr (h v List.mem_cons_self)
      rw [dropOldHist, Bool.false_or, decide_extremeKey_le, decide_eq_false hv]
      split_ifs
      · exact ih (fun s hs => h s (List.mem_cons_of_mem v hs))
      · rfl

/-- The extreme is the value of the front. -/
def ExtremeWindow.AtFront (w : ExtremeWindow) : Prop :=
  ∃ s ss, w.vals = s :: ss ∧ w.extreme = s.2

/-- The extreme is the one of an empty window, and beats every sample. -/
def ExtremeWindow.AtStart (w : ExtremeWindow) : Prop :=
  w.extreme = (extremeWindow w.findMin).extreme ∧
    ∀ s ∈ w.vals, extremeKey w.findMin w.extreme < sampleKey w.findMin s

theorem clearOldHist_vals (w : ExtremeWindow) (now : ℚ) :
    (w.clearOldHist now).vals = expire Prod.fst (now-w.maxTime) w.vals :=
  dropOldHist_fst _ _ _ _ _

theorem clearOldHist_atFront {w : ExtremeWindow} (h : w.AtFront) (now : ℚ) :
    (w.clearOldHist now).AtFront := by
  obtain ⟨v, vals, hvals, hext⟩ := h
  have hnew := clearOldHist_vals w now
  rw [hvals] at hnew
  cases vals with
  | nil => exact ⟨v, [], hnew, by simp [ExtremeWindow.clearOldHist, hvals, dropOldHist, hext]⟩
  | cons u vals =>
    rw [expire] at hnew
    by_cases hold : v.1 < now-w.maxTime
    · -- the front leaves, so the extreme is taken from the new front
      rw [if_pos hold] at hnew
      have hv : extremeKey w.findMin v.2 ≤ extremeKey w.findMin w.extreme := by rw [hext]
      have hrec : (dropOldHist w.findMin (now-w.maxTime) w.extreme w.vals false).2 = true := by
        rw [hvals, dropOldHist, if_pos hold, Bool.false_or, decide_extremeKey_le, decide_eq_true hv]
        exact dropOldHist_snd_of_true _ _ _ _
      cases hex : expire Prod.fst (now-w.maxTime) (u :: vals) with
      | nil =>
        have hlast := getLast?_expire Prod.fst (now-w.maxTime) (u :: vals)
        rw [hex, List.getLast?_cons] at hlast
        cases hlast
      | cons x xs =>
        refine ⟨x, xs, hnew.trans hex, ?_⟩
        have hhead := hnew.trans hex
        simp only [ExtremeWindow.clearOldHist] at hhead ⊢
        rw [hrec, if_pos rfl, hhead]
        rfl
    · -- nothing leaves, and the extreme is not recomputed
      rw [if_neg hold] at hnew
      refine ⟨v, u :: vals, hnew, ?_⟩
      have hrec : (dropOldHist w.findMin (now-w.maxTime) w.extreme w.vals false).2 = false := by
        rw [hvals, dropOldHist, if_neg hold]
      simp only [ExtremeWindow.clearOldHist]
      rw [hrec, if_neg Bool.false_ne_true, hext]

theorem clearOldHist_atStart {w : ExtremeWindow} (h : w.AtStart) (now : ℚ) :
    (w.clearOldHist now).AtStart := by
  have hrec : (w.clearOldHist now).extreme = w.extreme := by
    simp only [ExtremeWindow.clearOldHist]
    rw [dropOldHist_snd_of_lt _ _ _ h.2, if_neg Bool.false_ne_true]
  refine ⟨hrec.trans h.1, fun s hs => ?_⟩
  rw [hrec]
  exact h.2 s ((clearOldHist_vals w now ▸ expire_suffix Prod.fst _ w.vals).subset
    (clearOldHist_vals w now ▸ hs))

/-- The window of `new_sample` before its old history is dropped. -/
def ExtremeWindow.pushSample (w : ExtremeWindow) (val now : ℚ) : ExtremeWindow :=
  { w with
    vals := push (sampleKey w.findMin) w.vals (now, val)
    extreme := if extremeKey w.findMin val < extremeKey w.findMin w.extreme then val
      else w.extreme }

theorem newSample_eq (w : ExtremeWindow) (val now : ℚ) :
    w.newSample val now = (w.pushSample val now).clearOldHist now := by
  simp only [ExtremeWindow.newSample, ExtremeWindow.pushSample, push, sampleKey, extremeKey_lt,
    decide_extremeKey_lt]
  congr

theorem newSample_vals (w : ExtremeWindow) (val now : ℚ) :
    (w.newSample val now).vals =
      expire Prod.fst (now-w.maxTime) (push (sampleKey w.findMin) w.vals (now, val)) := by
  rw [newSample_eq, clearOldHist_vals]
  rfl

/-- A tracker whose extreme is its front keeps it so. -/
theorem newSample_atFront {w : ExtremeWindow} (h : w.AtFront)
    (hm : Monotone (sampleKey w.findMin) Prod.fst w.vals) (val now : ℚ) :
    (w.newSample val now).AtFront := by
  rw [newSample_eq]
  apply clearOldHist_atFront
  obtain ⟨v, vals, hvals, hext⟩ := h
  rw [hvals] at hm
  unfold ExtremeWindow.AtFront ExtremeWindow.pushSample
  by_cases hlt : extremeKey w.findMin val < extremeKey w.findMin w.extreme
  · -- the new sample beats the front, so it beats all
    refine ⟨(now, val), [], ?_, if_pos hlt⟩
    apply push_of_lt
    intro s hs
    rw [hext] at hlt
    exact hlt.trans_le (hm.head_le s (hvals ▸ hs))
  · have hle : sampleKey w.findMin v ≤ sampleKey w.findMin (now,val) := by
      rw [hext] at hlt
      exact not_lt.mp hlt
    have hhead : (push (sampleKey w.findMin) (v :: vals) (now,val)).head? = some v :=
      head?_push (sampleKey w.findMin) hle
    obtain ⟨ss, hss⟩ := List.head?_eq_some_iff.mp hhead
    exact ⟨v, ss, by rw [hvals, hss], by rw [if_neg hlt, hext]⟩

/-- The first sample that is not beaten by the starting value becomes the front. -/
theorem newSample_of_atStart {w : ExtremeWindow} (h : w.AtStart) (val now : ℚ) :
    if extremeKey w.findMin val ≤ extremeKey w.findMin (extremeWindow w.findMin).extreme
    then (w.newSample val now).AtFront else (w.newSample val now).AtStart := by
  rw [newSample_eq, ← h.1]
  split_ifs with hle
  · apply clearOldHist_atFront
    refine ⟨(now, val), [], push_of_lt _ (fun s hs => hle.trans_lt (h.2 s hs)), ?_⟩
    simp only [ExtremeWindow.pushSample]
    split_ifs with hlt
    · rfl
    · exact extremeKey_injective _ (le_antisymm (not_lt.mp hlt) hle)
  · apply clearOldHist_atStart
    have hext : (w.pushSample val now).extreme = w.extreme :=
      if_neg (not_lt.mpr (not_le.mp hle).le)
    refine ⟨hext.trans h.1, fun s hs => ?_⟩
    rw [hext]
    rcases List.mem_append.mp hs with hs | hs
    · exact h.2 s ((List.rdropWhile_prefix _ _).subset hs)
    · obtain rfl := List.mem_singleton.mp hs
      exact not_le.mp hle

theorem newSample_getLast? (w : ExtremeWindow) (val now : ℚ) :
    (w.newSample val now).vals.getLast? = some (now, val) := by
  rw [newSample_vals, getLast?_expire, getLast?_push]

/-- The extreme beats the newest sample or is it. -/
theorem extreme_le_newest {w : ExtremeWindow} (h : w.AtFront ∨ w.AtStart)
    (hm : Monotone (sampleKey w.findMin) Prod.fst w.vals) {s : ℚ × ℚ}
    (hs : w.vals.getLast? = some s) :
    extremeKey w.findMin w.extreme ≤ extremeKey w.findMin s.2 := by
  have hmem := List.mem_of_getLast? hs
  rcases h with ⟨v, vals, hvals, hext⟩ | h
  · rw [hvals] at hm hmem
    rw [hext]
    exact hm.head_le s hmem
  · exact (h.2 s hmem).le

/-! ### The four trackers -/

/-- The kinds of the four trackers, which nothing changes. -/
def RTTWindow.Kinds (w : RTTWindow) : Prop :=
  w.minRtt.findMin = true ∧ w.unjitteredRtt.findMin = true ∧
    w.isCopaMin.findMin = true ∧ w.isCopaMax.findMin = false

/-- What a window cleared and fed at nondecreasing times, the last at `now`, satisfies: the long
tracker holds the samples of the two short ones, and as long as no sample beats the starting value
all three show it. -/
structure RTTWindow.Coherent (w : RTTWindow) (now : ℚ) : Prop where
  kinds : w.Kinds
  monotone : Monotone (sampleKey true) Prod.fst w.minRtt.vals
  monotoneMax : Monotone (sampleKey false) Prod.fst w.isCopaMax.vals
  time_le : ∀ s ∈ w.minRtt.vals, s.1 ≤ now
  timeMax_le : ∀ s ∈ w.isCopaMax.vals, s.1 ≤ now
  unjittered : w.unjitteredRtt.vals <:+ w.minRtt.vals
  isCopaMin : w.isCopaMin.vals <:+ w.minRtt.vals
  extremes : (w.minRtt.AtFront ∧ w.unjitteredRtt.AtFront ∧ w.isCopaMin.AtFront) ∨
    (w.minRtt.AtStart ∧ w.unjitteredRtt.AtStart ∧ w.isCopaMin.AtStart)
  extremeMax : w.isCopaMax.AtFront ∨ w.isCopaMax.AtStart

theorem RTTWindow.Coherent.mono {w : RTTWindow} {now now' : ℚ} (h : w.Coherent now)
    (hnow : now ≤ now') : w.Coherent now' :=
  { h with
    time_le := fun s hs => (h.time_le s hs).trans hnow
    timeMax_le := fun s hs => (h.timeMax_le s hs).trans hnow }

/-- The order of the extremes around the newest sample. -/
structure RTTWindow.Ordered (w : RTTWindow) : Prop where
  min_le_unjittered : w.getMinRtt ≤ w.getUnjitteredRtt
  unjittered_le_latest : w.getUnjitteredRtt ≤ w.getLatestRtt
  min_le_isCopaMin : w.getMinRtt ≤ w.isCopaMin.extreme
  isCopaMin_le_latest : w.isCopaMin.extreme ≤ w.getLatestRtt
  latest_le_isCopaMax : w.getLatestRtt ≤ w.isCopaMax.extreme

theorem monotone_update {w : ExtremeWindow} {findMin : Bool} (hf : w.findMin = findMin)
    (hm : Monotone (sampleKey findMin) Prod.fst w.vals) {maxTime rtt now : ℚ}
    (ht : ∀ s ∈ w.vals, s.1 ≤ now) :
    Monotone (sampleKey findMin) Prod.fst (w.update maxTime rtt now).vals ∧
      ∀ s ∈ (w.update maxTime rtt now).vals, s.1 ≤ now := by
  subst hf
  have hpush : Monotone (sampleKey w.findMin) Prod.fst
      (push (sampleKey w.findMin) w.vals (now, rtt)) := hm.push ht
  rw [ExtremeWindow.update, newSample_vals]
  refine ⟨hpush.suffix (expire_suffix _ _ _), fun s hs => ?_⟩
  rcases List.mem_append.mp ((expire_suffix _ _ _).subset hs) with hs | hs
  · exact ht s ((List.rdropWhile_prefix _ _).subset hs)
  · exact (List.mem_singleton.mp hs ▸ le_rfl)

theorem suffix_update {v w : ExtremeWindow} (hv : v.findMin = true) (hw : w.findMin = true)
    (h : v.vals <:+ w.vals) {maxTime maxTime' : ℚ} (hle : maxTime' ≤ maxTime) (rtt now : ℚ) :
    (v.update maxTime' rtt now).vals <:+ (w.update maxTime rtt now).vals := by
  rw [ExtremeWindow.update, ExtremeWindow.update, newSample_vals, newSample_vals, hv, hw]
  exact expire_suffix_expire _ (sub_le_sub_left hle now) (push_suffix _ h _)

theorem update_atFront {w : ExtremeWindow} {findMin : Bool} (hf : w.findMin = findMin)
    (h : w.AtFront) (hm : Monotone (sampleKey findMin) Prod.fst w.vals) (maxTime rtt now : ℚ) :
    (w.update maxTime rtt now).AtFront := by
  subst hf
  exact newSample_atFront (w := { w with maxTime := maxTime }) h hm rtt now

theorem update_of_atStart {w : ExtremeWindow} {findMin : Bool} (hf : w.findMin = findMin)
    (h : w.AtStart) (maxTime rtt now : ℚ) :
    if extremeKey findMin rtt ≤ extremeKey findMin (extremeWindow findMin).extreme
    then (w.update maxTime rtt now).AtFront else (w.update maxTime rtt now).AtStart := by
  subst hf
  exact newSample_of_atStart (w := { w with maxTime := maxTime }) h rtt now

theorem coherent_clear {w : RTTWindow} (h : w.Kinds) (now : ℚ) : w.clear.Coherent now := by
  have hstart : ∀ v : ExtremeWindow, v.clear.AtStart :=
    fun v => ⟨rfl, fun s hs => absurd hs (List.not_mem_nil)⟩
  have hnil : ∀ v : ExtremeWindow, ∀ s ∈ v.clear.vals, s.1 ≤ now :=
    fun v s hs => absurd hs (List.not_mem_nil)
  exact {
    kinds := h
    monotone := ⟨List.Pairwise.nil, List.Pairwise.nil⟩
    monotoneMax := ⟨List.Pairwise.nil, List.Pairwise.nil⟩
    time_le := hnil _
    timeMax_le := hnil _
    unjittered := List.suffix_refl _
    isCopaMin := List.suffix_refl _
    extremes := Or.inr ⟨hstart _, hstart _, hstart _⟩
    extremeMax := Or.inr (hstart _) }

/-- The windows of the short trackers are no longer than that of the long one, whatever the
smoothed RTT. -/
theorem coherent_newRttSample {w : RTTWindow} {now now' : ℚ} (h : w.Coherent now)
    (hnow : now ≤ now') (rtt : ℚ) : (w.newRttSample rtt now').Coherent now' := by
  obtain ⟨hf1, hf2, hf3, hf4⟩ := h.kinds
  have ht : ∀ s ∈ w.minRtt.vals, s.1 ≤ now' := fun s hs => (h.time_le s hs).trans hnow
  have htMax : ∀ s ∈ w.isCopaMax.vals, s.1 ≤ now' := fun s hs => (h.timeMax_le s hs).trans hnow
  have hunj := h.monotone.suffix h.unjittered
  have hcopa := h.monotone.suffix h.isCopaMin
  -- a shorter tracker holds a suffix of the samples of the long one
  refine {
    kinds := ⟨hf1, hf2, hf3, hf4⟩
    monotone := (monotone_update hf1 h.monotone ht).1
    monotoneMax := (monotone_update hf4 h.monotoneMax htMax).1
    time_le := (monotone_update hf1 h.monotone ht).2
    timeMax_le := (monotone_update hf4 h.monotoneMax htMax).2
    unjittered := suffix_update hf2 hf1 h.unjittered (min_le_left _ _) _ _
    isCopaMin := suffix_update hf3 hf1 h.isCopaMin (min_le_left _ _) _ _
    extremes := ?_
    extremeMax := ?_ }
  · rcases h.extremes with ⟨h1, h2, h3⟩ | ⟨h1, h2, h3⟩
    · exact Or.inl ⟨update_atFront hf1 h1 h.monotone _ _ _, update_atFront hf2 h2 hunj _ _ _,
        update_atFront hf3 h3 hcopa _ _ _⟩
    · -- the three trackers leave the starting value with the same sample
      have g1 := fun maxTime => update_of_atStart hf1 h1 maxTime rtt now'
      have g2 := fun maxTime => update_of_atStart hf2 h2 maxTime rtt now'
      have g3 := fun maxTime => update_of_atStart hf3 h3 maxTime rtt now'
      split_ifs at g1 g2 g3
      · exact Or.inl ⟨g1 _, g2 _, g3 _⟩
      · exact Or.inr ⟨g1 _, g2 _, g3 _⟩
  · rcases h.extremeMax with h4 | h4
    · exact Or.inl (update_atFront hf4 h4 h.monotoneMax _ _ _)
    · have g4 := fun maxTime => update_of_atStart hf4 h4 maxTime rtt now'
      split_ifs at g4
      · exact Or.inl (g4 _)
      · exact Or.inr (g4 _)

/-- A tracker that holds the samples of another one for longer has the smaller extreme. -/
theorem extreme_le_of_suffix {v w : ExtremeWindow} (hv : v.findMin = true) (hw : w.findMin = true)
    (h : v.vals <:+ w.vals) (hm : Monotone (sampleKey true) Prod.fst w.vals)
    (hext : (w.AtFront ∧ v.AtFront) ∨ (w.AtStart ∧ v.AtStart)) : w.extreme ≤ v.extreme := by
  rcases hext with ⟨⟨s, ss, hws, hwe⟩, ⟨t, ts, hvt, hve⟩⟩ | ⟨h1, h2⟩
  · rw [hwe, hve]
    rw [hws] at hm
    have hmem : t ∈ s :: ss := (hws ▸ h).subset (hvt ▸ List.mem_cons_self)
    exact hm.head_le t hmem
  · rw [h1.1, h2.1, hv, hw]

/-- After every sample the extremes are ordered. -/
theorem ordered_newRttSample {w : RTTWindow} {now now' : ℚ} (h : w.Coherent now)
    (hnow : now ≤ now') (rtt : ℚ) : (w.newRttSample rtt now').Ordered := by
  have hc := coherent_newRttSample h hnow rtt
  obtain ⟨hf1, hf2, hf3, hf4⟩ := hc.kinds
  have hunj := hc.monotone.suffix hc.unjittered
  have hcopa := hc.monotone.suffix hc.isCopaMin
  have hjoint2 := hc.extremes.imp (fun h => And.intro h.1 h.2.1) (fun h => And.intro h.1 h.2.1)
  have hjoint3 := hc.extremes.imp (fun h => And.intro h.1 h.2.2) (fun h => And.intro h.1 h.2.2)
  have hlast (v : ExtremeWindow) (maxTime : ℚ) :
      (v.update maxTime rtt now').vals.getLast? = some (now', rtt) :=
    newSample_getLast? { v with maxTime := maxTime } rtt now'
  have hle2 := extreme_le_newest (hjoint2.imp And.right And.right) (hf2 ▸ hunj) (hlast _ _)
  have hle3 := extreme_le_newest (hjoint3.imp And.right And.right) (hf3 ▸ hcopa) (hlast _ _)
  have hle4 := extreme_le_newest hc.extremeMax (hf4 ▸ hc.monotoneMax) (hlast _ _)
  rw [hf2] at hle2
  rw [hf3] at hle3
  rw [hf4] at hle4
  exact {
    min_le_unjittered := extreme_le_of_suffix hf2 hf1 hc.unjittered hc.monotone hjoint2
    unjittered_le_latest := hle2
    min_le_isCopaMin := extreme_le_of_suffix hf3 hf1 hc.isCopaMin hc.monotone hjoint3
    isCopaMin_le_latest := hle3
    latest_le_isCopaMax := neg_le_neg_iff.mp hle4 }

/-! ### Runs -/

inductive RttWindowOp
  | clear
  | sample (rtt now : ℚ)

def RTTWindow.apply (w : RTTWindow) : RttWindowOp → RTTWindow
  | .clear => w.clear
  | .sample rtt now => w.newRttSample rtt now

theorem kinds_apply {w : RTTWindow} (h : w.Kinds) (op : RttWindowOp) : (w.apply op).Kinds := by
  cases op with
  | clear => exact h
  | sample rtt now => exact h

theorem kinds_foldl_apply (ops : List RttWindowOp) {w : RTTWindow} (h : w.Kinds) :
    (ops.foldl RTTWindow.apply w).Kinds := by
  induction ops generalizing w with
  | nil => exact h
  | cons op ops ih => exact ih (kinds_apply h op)

theorem coherent_foldl_newRttSample {w : RTTWindow} (h : w.Kinds) (samples : List (ℚ × ℚ))
    (htimes : samples.Pairwise (fun s t => s.2 ≤ t.2)) (now : ℚ) (hnow : ∀ s ∈ samples, s.2 ≤ now) :
    (samples.foldl (fun w s => w.newRttSample s.1 s.2) w.clear).Coherent now := by
  induction samples using List.reverseRecOn generalizing now with
  | nil => exact coherent_clear h now
  | append_singleton samples s ih =>
    obtain ⟨hpre, _, hlast⟩ := List.pairwise_append.mp htimes
    have hprev := ih hpre s.2 (fun t ht => hlast t ht s (List.mem_singleton.mpr rfl))
    rw [List.foldl_append]
    have hstep := coherent_newRttSample hprev le_rfl s.1
    exact hstep.mono (hnow s (by simp))

/-- Whatever a window was used for before, once it is cleared and fed with samples at
nondecreasing times its extremes are ordered after each of them. -/
theorem rtt_window_ordered (ops : List RttWindowOp) (samples : List (ℚ × ℚ)) (s : ℚ × ℚ)
    (htimes : (samples ++ [s]).Pairwise (fun s t => s.2 ≤ t.2)) :
    ((samples ++ [s]).foldl (fun w s => w.newRttSample s.1 s.2)
      (ops.foldl RTTWindow.apply rttWindow).clear).Ordered := by
  obtain ⟨hpre, _, hlast⟩ := List.pairwise_append.mp htimes
  have hkinds : (ops.foldl RTTWindow.apply rttWindow).Kinds :=
    kinds_foldl_apply ops ⟨rfl, rfl, rfl, rfl⟩
  have hprev := coherent_foldl_newRttSample hkinds samples hpre s.2
    (fun t ht => hlast t ht s (List.mem_singleton.mpr rfl))
  rw [List.foldl_append]
  exact ordered_newRttSample hprev le_rfl s.1

/-- Samples of 2 ms, 1 ms and -3 ms, the last after the short windows have run out. -/
theorem rtt_window_ordered_three_samples :
    (([(2, 10), (1, 11)] ++ [(-3, 500)] : List (ℚ × ℚ)).foldl
      (fun w s => w.newRttSample s.1 s.2)
      ([RttWindowOp.sample 7 3].foldl RTTWindow.apply rttWindow).clear).Ordered :=
  rtt_window_ordered [RttWindowOp.sample 7 3] [(2, 10), (1, 11)] (-3, 500) (by decide)

end CopaNgscope
