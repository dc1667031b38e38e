import CopaNgscope.RttWindowOrder
import CopaNgscope.SlidingWindow

/-! What a sample leaves as the least RTT of a tracker: the least of the new sample and of the old
ones that are still in the window. -/
namespace CopaNgscope
open MonotoneDeque SlidingWindow

/-- The time that all samples are kept for at the next one. -/
def RTTWindow.historyLength (w : RTTWindow) : ℚ := max 10000 (20*w.minRtt.extreme)

/-- The smoothed RTT after a sample. -/
def RTTWindow.smoothedRtt (w : RTTWindow) (rtt : ℚ) : ℚ :=
  1/16*rtt+(1-1/16)*(if w.srtt = 0 then rtt else w.srtt)

/-- The time that the samples are kept for which decide the unjittered RTT. -/
def RTTWindow.unjitteredLength (w : RTTWindow) (rtt : ℚ) : ℚ :=
  min w.historyLength (w.smoothedRtt rtt*(1/2))

/-- The samples of a tracker that are not older than `length`. -/
def ExtremeWindow.recent (w : ExtremeWindow) (length now : ℚ) : List (ℚ × ℚ) :=
  w.vals.filter (fun s => now-length ≤ s.1)

theorem mem_recent {w : ExtremeWindow} {length now : ℚ} {s : ℚ × ℚ} :
    s ∈ w.recent length now ↔ s ∈ w.vals ∧ now-length ≤ s.1 := by
  rw [ExtremeWindow.recent, List.mem_filter, decide_eq_true_iff]

theorem newSample_atFront_or {w : ExtremeWindow} (hmin : w.findMin = true)
    (hm : Monotone (sampleKey true) Prod.fst w.vals) (hext : w.AtFront ∨ w.AtStart)
    (val now : ℚ) :
    (w.newSample val now).AtFront ∨
      (w.AtStart ∧ (w.newSample val now).AtStart ∧ dblMax < val) := by
  rcases hext with hfront | hstart
  · exact Or.inl (newSample_atFront hfront (hmin.symm ▸ hm) val now)
  · have hnew := newSample_of_atStart hstart val now
    rw [hmin] at hnew
    split_ifs at hnew with hval
    · exact Or.inl hnew
    · exact Or.inr ⟨hstart, hnew, not_le.mp hval⟩

/-- A bound from above holds of the least RTT if and only if it holds of the new sample or of one
that is still in the window. -/
theorem extreme_newSample_iff {w : ExtremeWindow} {now val : ℚ} (hmin : w.findMin = true)
    (hm : Monotone (sampleKey true) Prod.fst w.vals) (ht : ∀ s ∈ w.vals, s.1 ≤ now)
    (hext : w.AtFront ∨ w.AtStart) {p : ℚ → Prop} (hp : ∀ a b, a ≤ b → p b → p a)
    (hdbl : p dblMax → val ≤ dblMax) :
    p (w.newSample val now).extreme ↔ p val ∨ ∃ s ∈ w.recent w.maxTime now, p s.2 := by
  rcases newSample_atFront_or hmin hm hext val now with ⟨v, vs, hvals, hv⟩ | ⟨hold, hnew, hlarge⟩
  · rw [newSample_vals, hmin] at hvals
    obtain ⟨hfrom, hval, hrest⟩ := front_expire_push hm (x := (now, val)) ht hvals
    rw [hv]
    constructor
    · intro hpv
      rcases hfrom with rfl | ⟨hmem, hle⟩
      · exact Or.inl hpv
      · exact Or.inr ⟨v, mem_recent.mpr ⟨hmem, hle⟩, hpv⟩
    · rintro (hpval | ⟨s, hs, hps⟩)
      · exact hp _ _ hval hpval
      · obtain ⟨hmem, hle⟩ := mem_recent.mp hs
        exact hp _ _ (hrest s hmem hle) hps
  · -- no sample is below the starting value
    have hdblMax : (w.newSample val now).extreme = dblMax := by
      have hkind : (w.newSample val now).findMin = true := hmin
      rw [hnew.1, hkind]
      rfl
    have hnot : ¬ p dblMax := fun h => not_lt.mpr (hdbl h) hlarge
    have hvals : ∀ s ∈ w.vals, dblMax < s.2 := by
      intro s hs
      have hlt := hold.2 s hs
      rw [hold.1, hmin] at hlt
      exact hlt
    rw [hdblMax]
    refine iff_of_false hnot ?_
    rintro (hpval | ⟨s, hs, hps⟩)
    · exact hnot (hp _ _ hlarge.le hpval)
    · exact hnot (hp _ _ (hvals s (mem_recent.mp hs).1).le hps)

section
variable {w : RTTWindow} {now rtt : ℚ} {p : ℚ → Prop}

theorem getMinRtt_newRttSample_iff (h : w.Coherent now) (hp : ∀ a b, a ≤ b → p b → p a)
    (hdbl : p dblMax → rtt ≤ dblMax) :
    p (w.newRttSample rtt now).getMinRtt ↔
      p rtt ∨ ∃ s ∈ w.minRtt.recent w.historyLength now, p s.2 :=
  extreme_newSample_iff (w := { w.minRtt with maxTime := w.historyLength }) h.kinds.1 h.monotone
    h.time_le (h.extremes.imp And.left And.left) hp hdbl

theorem getUnjitteredRtt_newRttSample_iff (h : w.Coherent now) (hp : ∀ a b, a ≤ b → p b → p a)
    (hdbl : p dblMax → rtt ≤ dblMax) :
    p (w.newRttSample rtt now).getUnjitteredRtt ↔
      p rtt ∨ ∃ s ∈ w.unjitteredRtt.recent (w.unjitteredLength rtt) now, p s.2 :=
  extreme_newSample_iff (w := { w.unjitteredRtt with maxTime := w.unjitteredLength rtt })
    h.kinds.2.1 (h.monotone.suffix h.unjittered) (fun s hs => h.time_le s (h.unjittered.subset hs))
    (h.extremes.imp (fun h => h.2.1) (fun h => h.2.1)) hp hdbl

end

end CopaNgscope
