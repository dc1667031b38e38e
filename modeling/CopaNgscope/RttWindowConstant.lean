import Mathlib.Tactic.Linarith
import CopaNgscope.RttWindowOrder

/-! An RTT window whose samples are all the same: its trackers collapse to that value, and the
threshold of `is_copa` to the least RTT, unless the RTT is below the starting value of a search for
the largest one. -/
namespace CopaNgscope
open MonotoneDeque

/-! ### One tracker -/

/-- What a tracker shows whose samples are all `r`. -/
def constantExtreme (findMin : Bool) (r : ℚ) : ℚ :=
  if extremeKey findMin r < extremeKey findMin (extremeWindow findMin).extreme then r
  else (extremeWindow findMin).extreme

theorem constantExtreme_le (findMin : Bool) (r : ℚ) :
    extremeKey findMin (constantExtreme findMin r) ≤ extremeKey findMin r := by
  unfold constantExtreme
  split_ifs with h
  · exact le_rfl
  · exact not_lt.mp h

/-- Every sample was `r`, if there was one. -/
structure ExtremeWindow.Constant (r : ℚ) (w : ExtremeWindow) : Prop where
  vals : ∀ s ∈ w.vals, s.2 = r
  extreme : w.extreme = (extremeWindow w.findMin).extreme ∨
    w.extreme = constantExtreme w.findMin r

/-- An extreme that is not beaten by the samples stays when old ones leave. -/
theorem clearOldHist_extreme_of_constant {w : ExtremeWindow} {r : ℚ} (h : ∀ s ∈ w.vals, s.2 = r)
    (hle : extremeKey w.findMin w.extreme ≤ extremeKey w.findMin r) (now : ℚ) :
    (w.clearOldHist now).extreme = w.extreme := by
  rcases hle.lt_or_eq with hlt | heq
  · -- nothing that leaves has the value of the extreme
    have hkeep : (dropOldHist w.findMin (now-w.maxTime) w.extreme w.vals false).2 = false := by
      apply dropOldHist_snd_of_lt
      intro s hs
      rw [sampleKey, h s hs]
      exact hlt
    simp only [ExtremeWindow.clearOldHist]
    rw [hkeep, if_neg Bool.false_ne_true]
  · -- a recomputed extreme is again the value of a sample
    have hext : w.extreme = r := extremeKey_injective w.findMin heq
    simp only [ExtremeWindow.clearOldHist]
    split_ifs
    · rw [dropOldHist_fst]
      have hsuffix := expire_suffix Prod.fst (now-w.maxTime) w.vals
      cases hvals : expire Prod.fst (now-w.maxTime) w.vals with
      | nil => rfl
      | cons s ss =>
        rw [hvals] at hsuffix
        rw [List.headD_cons, hext]
        exact h s (hsuffix.subset List.mem_cons_self)
    · rfl

theorem newSample_constant {w : ExtremeWindow} {r : ℚ} (h : w.Constant r) (now : ℚ) :
    (w.newSample r now).extreme = constantExtreme w.findMin r ∧
      (w.newSample r now).Constant r := by
  have hvals : ∀ s ∈ (w.pushSample r now).vals, s.2 = r := by
    intro s hs
    rcases List.mem_append.mp hs with hs | hs
    · exact h.vals s ((List.rdropWhile_prefix _ _).subset hs)
    · exact congrArg Prod.snd (List.mem_singleton.mp hs)
  have hpush : (w.pushSample r now).extreme = constantExtreme w.findMin r := by
    unfold ExtremeWindow.pushSample
    rcases h.extreme with hext | hext
    · rw [hext]
      rfl
    · -- a further sample does not beat what it has set
      rw [hext]
      exact if_neg (not_lt.mpr (constantExtreme_le w.findMin r))
  have hext : (w.newSample r now).extreme = constantExtreme w.findMin r := by
    rw [newSample_eq, clearOldHist_extreme_of_constant hvals, hpush]
    rw [hpush]
    exact constantExtreme_le w.findMin r
  refine ⟨hext, ?_, Or.inr hext⟩
  intro s hs
  rw [newSample_eq, clearOldHist_vals] at hs
  exact hvals s ((expire_suffix Prod.fst _ _).subset hs)

theorem constant_clear (w : ExtremeWindow) (r : ℚ) : w.clear.Constant r :=
  ⟨fun _ hs => absurd hs List.not_mem_nil, Or.inl rfl⟩

theorem update_constant {w : ExtremeWindow} {r : ℚ} (h : w.Constant r) (maxTime now : ℚ) :
    (w.update maxTime r now).extreme = constantExtreme w.findMin r ∧
      (w.update maxTime r now).Constant r :=
  newSample_constant (w := w.updateMaxTime maxTime) ⟨h.vals, h.extreme⟩ now

/-! ### The comparison of `is_copa` -/

/-- The trackers that `is_copa` compares have seen no RTT but `r`. -/
structure RTTWindow.Constant (r : ℚ) (w : RTTWindow) : Prop where
  kinds : w.Kinds
  minRtt : w.minRtt.Constant r
  isCopaMin : w.isCopaMin.Constant r
  isCopaMax : w.isCopaMax.Constant r

theorem rttWindow_constant_clear {w : RTTWindow} (h : w.Kinds) (r : ℚ) : w.clear.Constant r :=
  ⟨h, constant_clear _ r, constant_clear _ r, constant_clear _ r⟩

theorem constant_newRttSample {w : RTTWindow} {r : ℚ} (h : w.Constant r) (now : ℚ) :
    (w.newRttSample r now).Constant r where
  kinds := h.kinds
  minRtt := (update_constant h.minRtt _ now).2
  isCopaMin := (update_constant h.isCopaMin _ now).2
  isCopaMax := (update_constant h.isCopaMax _ now).2

theorem constantExtreme_min {r : ℚ} (hr : r ≤ dblMax) : constantExtreme true r = r := by
  unfold constantExtreme
  split_ifs with h
  · rfl
  · exact le_antisymm (not_lt.mp h) hr

theorem constantExtreme_max (r : ℚ) : constantExtreme false r = max r dblMin := by
  have hkey : extremeKey false r < extremeKey false (extremeWindow false).extreme ↔ dblMin < r :=
    neg_lt_neg_iff
  unfold constantExtreme
  split_ifs with h
  · exact (max_eq_left (hkey.mp h).le).symm
  · exact (max_eq_right (not_lt.mp (fun hlt => h (hkey.mpr hlt)))).symm

/-- The strict comparison fails once all RTTs are the same. -/
theorem isCopa_newRttSample {w : RTTWindow} {r : ℚ} (h : w.Constant r) (hr : r ≤ dblMax)
    (now : ℚ) : (w.newRttSample r now).isCopa = decide (r < dblMin) := by
  obtain ⟨hf1, -, hf3, hf4⟩ := h.kinds
  have h1 : (w.newRttSample r now).minRtt.extreme = r := by
    refine (update_constant h.minRtt _ now).1.trans ?_
    rw [hf1]
    exact constantExtreme_min hr
  have h3 : (w.newRttSample r now).isCopaMin.extreme = r := by
    refine (update_constant h.isCopaMin _ now).1.trans ?_
    rw [hf3]
    exact constantExtreme_min hr
  have h4 : (w.newRttSample r now).isCopaMax.extreme = max r dblMin := by
    refine (update_constant h.isCopaMax _ now).1.trans ?_
    rw [hf4]
    exact constantExtreme_max r
  unfold RTTWindow.isCopa
  rw [h1, h3, h4, decide_eq_decide]
  constructor
  · -- with the largest RTT also `r` the threshold is `r`
    intro hlt
    by_contra hge
    rw [max_eq_left (not_lt.mp hge)] at hlt
    linarith
  · intro hlt
    rw [max_eq_right hlt.le]
    linarith

end CopaNgscope
