import CopaNgscope.RttWindowOrder
import CopaNgscope.SlidingWindow

/-! The extreme that a tracker shows is the one of the samples in its sliding window, although it
keeps only some of them and the window may shrink and grow. -/
namespace CopaNgscope
open MonotoneDeque SlidingWindow

/-! ### Runs of one tracker -/

inductive ExtremeWindowOp
  | updateMaxTime (t : ℚ)
  | newSample (val now : ℚ)

def ExtremeWindow.apply (w : ExtremeWindow) : ExtremeWindowOp → ExtremeWindow
  | .updateMaxTime t => w.updateMaxTime t
  | .newSample val now => w.newSample val now

/-- A sample with the length of the window when it came. -/
structure WindowSample where
  time : ℚ
  val : ℚ
  maxTime : ℚ

/-- The samples of a run that starts with a window of length `maxTime`. -/
def windowSamples (maxTime : ℚ) : List ExtremeWindowOp → List WindowSample
  | [] => []
  | .updateMaxTime t :: ops => windowSamples t ops
  | .newSample val now :: ops => ⟨now, val, maxTime⟩ :: windowSamples maxTime ops

/-- The values of the samples that were within the window at every sample since. -/
def windowValues (ss : List WindowSample) : Set ℚ :=
  {v | ∃ (i : ℕ) (s : WindowSample), ss[i]? = some s ∧ s.val = v ∧
    ∀ (k : ℕ) (u : WindowSample), i ≤ k → ss[k]? = some u → u.time-u.maxTime ≤ s.time}

/-- The values of the samples of the last `maxTime`. -/
def recentValues (ss : List WindowSample) (maxTime : ℚ) : Set ℚ :=
  {v | ∃ last s : WindowSample, ss.getLast? = some last ∧ s ∈ ss ∧ s.val = v ∧
    last.time-maxTime ≤ s.time ∧ s.time ≤ last.time}

def IsExtreme (findMin : Bool) (vs : Set ℚ) (v : ℚ) : Prop :=
  if findMin then IsLeast vs v else IsGreatest vs v

/-- Doubles are at most `dblMax`; a search for the largest one starts at `dblMin`. -/
def IsSampleValue (findMin : Bool) (v : ℚ) : Prop := if findMin then v ≤ dblMax else dblMin < v

instance (findMin : Bool) (v : ℚ) : Decidable (IsSampleValue findMin v) := by
  unfold IsSampleValue
  infer_instance

/-! ### The deque of a run -/

def WindowSample.entry (s : WindowSample) : ℚ × ℚ := (s.time, s.val)

def WindowSample.limit (s : WindowSample) : ℚ := s.time-s.maxTime

theorem mem_windowValues {ss : List WindowSample} {v : ℚ} :
    v ∈ windowValues ss ↔ ∃ t, (t, v) ∈ held Prod.fst WindowSample.entry WindowSample.limit ss := by
  constructor
  · rintro ⟨i, s, hs, rfl, hlater⟩
    exact ⟨s.time, i, s, hs, rfl, hlater⟩
  · rintro ⟨t, i, s, hs, hentry, hlater⟩
    obtain ⟨rfl, rfl⟩ := Prod.mk.inj hentry
    exact ⟨i, s, hs, rfl, hlater⟩

/-- The tracker has seen the samples `ss` since it was cleared. -/
structure ExtremeWindow.Tracks (w : ExtremeWindow) (ss : List WindowSample) : Prop where
  vals : w.vals =
    feed (sampleKey w.findMin) Prod.fst WindowSample.entry WindowSample.limit ss
  extreme : if ss = [] then w.AtStart else w.AtFront

/-- Samples at nondecreasing times, each with a window and a value as they come. -/
structure SampleRun (findMin : Bool) (ss : List WindowSample) : Prop where
  times : ss.Pairwise (fun s u => s.time ≤ u.time)
  maxTime_nonneg : ∀ s ∈ ss, 0 ≤ s.maxTime
  value : ∀ s ∈ ss, IsSampleValue findMin s.val

theorem SampleRun.prefix {findMin : Bool} {ss us : List WindowSample}
    (h : SampleRun findMin (ss ++ us)) : SampleRun findMin ss where
  times := (List.pairwise_append.mp h.times).1
  maxTime_nonneg := fun s hs => h.maxTime_nonneg s (List.mem_append_left us hs)
  value := fun s hs => h.value s (List.mem_append_left us hs)

theorem SampleRun.covers {findMin : Bool} {ss : List WindowSample} (h : SampleRun findMin ss) :
    Monotone (sampleKey findMin) Prod.fst
        (feed (sampleKey findMin) Prod.fst WindowSample.entry WindowSample.limit ss) ∧
      Covers (sampleKey findMin) Prod.fst
        (held Prod.fst WindowSample.entry WindowSample.limit ss)
        (feed (sampleKey findMin) Prod.fst WindowSample.entry WindowSample.limit ss) := by
  have htimes : ss.Pairwise (fun s u => s.entry.1 ≤ u.entry.1) := h.times
  have hlimits : ∀ s ∈ ss, s.limit ≤ s.entry.1 := by
    intro s hs
    exact sub_le_self s.time (h.maxTime_nonneg s hs)
  exact covers_feed htimes hlimits

theorem extremeKey_le_start {findMin : Bool} {v : ℚ} (h : IsSampleValue findMin v) :
    extremeKey findMin v ≤ extremeKey findMin (extremeWindow findMin).extreme := by
  cases findMin with
  | false => exact neg_le_neg (le_of_lt h)
  | true => exact h

theorem tracks_updateMaxTime {w : ExtremeWindow} {ss : List WindowSample} (h : w.Tracks ss)
    (t : ℚ) : (w.updateMaxTime t).Tracks ss :=
  ⟨h.vals, h.extreme⟩

theorem tracks_newSample {w : ExtremeWindow} {ss : List WindowSample} {val now : ℚ}
    (h : w.Tracks ss) (hrun : SampleRun w.findMin (ss ++ [⟨now, val, w.maxTime⟩])) :
    (w.newSample val now).Tracks (ss ++ [⟨now, val, w.maxTime⟩]) := by
  refine ⟨?_, ?_⟩
  · rw [newSample_vals, h.vals]
    exact (feed_concat (sampleKey w.findMin) Prod.fst WindowSample.entry WindowSample.limit ss
      ⟨now, val, w.maxTime⟩).symm
  · rw [if_neg (List.append_ne_nil_of_right_ne_nil ss (List.cons_ne_nil _ _))]
    have hext := h.extreme
    by_cases hss : ss = []
    · -- the first sample is not beaten by the starting value, so it becomes the front
      rw [if_pos hss] at hext
      have hnew := newSample_of_atStart hext val now
      have hval : IsSampleValue w.findMin val :=
        hrun.value ⟨now, val, w.maxTime⟩ (by simp)
      rw [if_pos (extremeKey_le_start hval)] at hnew
      exact hnew
    · -- later the extreme is the front of a monotone deque
      rw [if_neg hss] at hext
      have hm := hrun.prefix.covers.1
      rw [← h.vals] at hm
      exact newSample_atFront hext hm val now

theorem findMin_apply (w : ExtremeWindow) (op : ExtremeWindowOp) :
    (w.apply op).findMin = w.findMin := by
  cases op with
  | updateMaxTime t => rfl
  | newSample val now => rfl

/-- A run adds its samples to those that the tracker has seen. -/
theorem tracks_foldl_apply (ops : List ExtremeWindowOp) {w : ExtremeWindow}
    {ss : List WindowSample} (h : w.Tracks ss)
    (hrun : SampleRun w.findMin (ss ++ windowSamples w.maxTime ops)) :
    (ops.foldl ExtremeWindow.apply w).Tracks (ss ++ windowSamples w.maxTime ops) ∧
      (ops.foldl ExtremeWindow.apply w).findMin = w.findMin := by
  -- by induction on the calls, with the samples so far going along
  induction ops generalizing w ss with
  | nil =>
    rw [windowSamples, List.append_nil]
    exact ⟨h, rfl⟩
  | cons op ops ih =>
    rw [List.foldl_cons, ← findMin_apply w op]
    cases op with
    | updateMaxTime t => exact ih (tracks_updateMaxTime h t) hrun
    | newSample val now =>
      rw [windowSamples, List.append_cons] at hrun ⊢
      exact ih (tracks_newSample h hrun.prefix) hrun

/-- What a tracker shows is the extreme of the values in its window. -/
theorem ExtremeWindow.Tracks.isExtreme {w : ExtremeWindow} {ss : List WindowSample}
    (h : w.Tracks ss) (hrun : SampleRun w.findMin ss) (hne : ss ≠ []) :
    IsExtreme w.findMin (windowValues ss) w.extreme := by
  have hfront := h.extreme
  rw [if_neg hne] at hfront
  obtain ⟨s, rest, hvals, hext⟩ := hfront
  obtain ⟨hm, hc⟩ := hrun.covers
  rw [← h.vals, hvals] at hm hc
  obtain ⟨hmem, hle⟩ := hc.head hm
  have hmem' : w.extreme ∈ windowValues ss := by
    rw [hext]
    exact mem_windowValues.mpr ⟨s.1, hmem⟩
  have hle' : ∀ v ∈ windowValues ss,
      extremeKey w.findMin w.extreme ≤ extremeKey w.findMin v := by
    intro v hv
    obtain ⟨t, ht⟩ := mem_windowValues.mp hv
    rw [hext]
    exact hle (t, v) ht
  unfold IsExtreme
  -- the keys are the values, or their negations
  split_ifs with hmin
  · rw [hmin] at hle'
    exact ⟨hmem', hle'⟩
  · rw [Bool.not_eq_true] at hmin
    rw [hmin] at hle'
    exact ⟨hmem', fun v hv => neg_le_neg_iff.mp (hle' v hv)⟩

theorem SampleRun.time_le_last {findMin : Bool} {ss : List WindowSample} {last : WindowSample}
    (h : SampleRun findMin ss) (hlast : ss.getLast? = some last) :
    ∀ s ∈ ss, s.time ≤ last.time := by
  obtain ⟨us, rfl⟩ := List.getLast?_eq_some_iff.mp hlast
  intro s hs
  rcases List.mem_append.mp hs with hs | hs
  · exact (List.pairwise_append.mp h.times).2.2 s hs last (List.mem_singleton.mpr rfl)
  · exact (congrArg WindowSample.time (List.mem_singleton.mp hs)).le

/-- With a fixed length the window is the last `maxTime`. -/
theorem windowValues_of_fixed {findMin : Bool} {ss : List WindowSample} {maxTime : ℚ}
    (hrun : SampleRun findMin ss) (hfixed : ∀ s ∈ ss, s.maxTime = maxTime) :
    windowValues ss = recentValues ss maxTime := by
  have hheld : ∀ last, ss.getLast? = some last →
      held Prod.fst WindowSample.entry WindowSample.limit ss =
        {x | ∃ s ∈ ss, s.entry = x ∧ last.limit ≤ x.1} := by
    intro last hlast
    apply held_of_last hlast
    intro s hs
    rw [WindowSample.limit, WindowSample.limit, hfixed s hs,
      hfixed last (List.mem_of_getLast? hlast)]
    exact sub_le_sub_right (hrun.time_le_last hlast s hs) maxTime
  have hlimit : ∀ last, ss.getLast? = some last → last.limit = last.time-maxTime := by
    intro last hlast
    rw [WindowSample.limit, hfixed last (List.mem_of_getLast? hlast)]
  ext v
  rw [mem_windowValues]
  constructor
  · rintro ⟨t, ht⟩
    obtain ⟨s, hs, _⟩ := exists_of_mem_held ht
    obtain ⟨last, hlast⟩ := Option.ne_none_iff_exists'.mp
      (fun hnone => List.ne_nil_of_mem hs (List.getLast?_eq_none_iff.mp hnone))
    rw [hheld last hlast] at ht
    obtain ⟨u, hu, hentry, hle⟩ := ht
    rw [hlimit last hlast, ← hentry] at hle
    exact ⟨last, u, hlast, hu, congrArg Prod.snd hentry, hle, hrun.time_le_last hlast u hu⟩
  · rintro ⟨last, s, hlast, hs, rfl, hle, _⟩
    refine ⟨s.time, ?_⟩
    rw [hheld last hlast]
    exact ⟨s, hs, rfl, (hlimit last hlast).le.trans hle⟩

/-! ### The result -/

theorem windowSamples_maxTime_nonneg {ops : List ExtremeWindowOp} {maxTime : ℚ}
    (hmax : 0 ≤ maxTime) (hops : ∀ t, ExtremeWindowOp.updateMaxTime t ∈ ops → 0 ≤ t) :
    ∀ s ∈ windowSamples maxTime ops, 0 ≤ s.maxTime := by
  induction ops generalizing maxTime with
  | nil => exact fun _ hs => absurd hs List.not_mem_nil
  | cons op ops ih =>
    have hrest : ∀ t, ExtremeWindowOp.updateMaxTime t ∈ ops → 0 ≤ t :=
      fun t ht => hops t (List.mem_cons_of_mem op ht)
    cases op with
    | updateMaxTime t => exact ih (hops t List.mem_cons_self) hrest
    | newSample val now =>
      intro s hs
      rcases List.mem_cons.mp hs with rfl | hs
      · exact hmax
      · exact ih hmax hrest s hs

theorem tracks_clear (w : ExtremeWindow) : w.clear.Tracks [] :=
  ⟨rfl, rfl, fun _ hs => absurd hs List.not_mem_nil⟩

/-- From a clear on, the extreme is that of the samples in the sliding window, for any changes
of the window's length; with one length it is the extreme of the samples of that last time. -/
theorem extreme_window_slides (w : ExtremeWindow) (ops : List ExtremeWindowOp)
    (hops : ∀ t, ExtremeWindowOp.updateMaxTime t ∈ ops → 0 ≤ t)
    (htimes : (windowSamples 10000 ops).Pairwise (fun s u => s.time ≤ u.time))
    (hvals : ∀ s ∈ windowSamples 10000 ops, IsSampleValue w.findMin s.val)
    (hne : windowSamples 10000 ops ≠ []) :
    IsExtreme w.findMin (windowValues (windowSamples 10000 ops))
        (ops.foldl ExtremeWindow.apply w.clear).extreme ∧
      ∀ maxTime, (∀ s ∈ windowSamples 10000 ops, s.maxTime = maxTime) →
        IsExtreme w.findMin (recentValues (windowSamples 10000 ops) maxTime)
          (ops.foldl ExtremeWindow.apply w.clear).extreme := by
  have hrun : SampleRun w.findMin (windowSamples 10000 ops) :=
    ⟨htimes, windowSamples_maxTime_nonneg (by decide) hops, hvals⟩
  obtain ⟨htracks, hmin⟩ := tracks_foldl_apply ops (tracks_clear w) hrun
  have hext := htracks.isExtreme (hmin.symm ▸ hrun) hne
  rw [hmin] at hext
  refine ⟨hext, ?_⟩
  intro maxTime hfixed
  rw [← windowValues_of_fixed hrun hfixed]
  exact hext

/-- Four samples whose window shrinks before the third and grows again before the last. -/
def shrinkingRun : List ExtremeWindowOp :=
  [.newSample 3 10, .newSample 5 20, .updateMaxTime 15, .newSample 5 30, .updateMaxTime 40,
    .newSample 6 31]

/-- The least value 3 is not found again when the window has grown. -/
theorem extreme_window_slides_shrinkingRun :
    (IsExtreme true (windowValues (windowSamples 10000 shrinkingRun))
        (shrinkingRun.foldl ExtremeWindow.apply (extremeWindow true).clear).extreme ∧
      ∀ maxTime, (∀ s ∈ windowSamples 10000 shrinkingRun, s.maxTime = maxTime) →
        IsExtreme true (recentValues (windowSamples 10000 shrinkingRun) maxTime)
          (shrinkingRun.foldl ExtremeWindow.apply (extremeWindow true).clear).extreme) ∧
    (shrinkingRun.foldl ExtremeWindow.apply (extremeWindow true).clear).extreme = 5 := by
  have hops : ∀ t, ExtremeWindowOp.updateMaxTime t ∈ shrinkingRun → 0 ≤ t := by
    intro t ht
    have hcases : t = 15 ∨ t = 40 := by simpa [shrinkingRun] using ht
    rcases hcases with rfl | rfl
    · decide
    · decide
  refine ⟨?_, by decide +kernel⟩
  exact extreme_window_slides (extremeWindow true) shrinkingRun hops (by decide +kernel)
    (by decide +kernel) (List.cons_ne_nil _ _)

end CopaNgscope
