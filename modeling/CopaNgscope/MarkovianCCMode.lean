import CopaNgscope.MarkovianCCDelta
import CopaNgscope.RttWindowConstant

/-! The automatic mode of Copa over an empty queue: when every RTT is the same, the comparison that
chooses the mode of operation has two equal sides. -/
namespace CopaNgscope
open RunInvariant

namespace MarkovianCC

/-- An ACK brings the adjusted RTT `r`. -/
def SampleIs (r : ℚ) (q : MarkovianCC) : Callback → Prop
  | .onACK _ sentTime adjustUs => q.currRtt sentTime adjustUs = r
  | _ => True

instance decidableSampleIs (r : ℚ) (q : MarkovianCC) : ∀ c, Decidable (q.SampleIs r c)
  | .onACK _ sentTime adjustUs => inferInstanceAs (Decidable (q.currRtt sentTime adjustUs = r))
  | .init | .setMinRtt _ | .setTimestamp _ | .onPktSent _ | .onTimeout => isTrue trivial

/-- The mode that `update_delta` chooses when all RTTs are `r`. -/
def modeFor (r : ℚ) : OperationMode := if r < dblMin then .defaultMode else .lossSensitiveMode

/-- What holds between callbacks when the default delta is `d` and all RTTs are `r`. -/
structure SteadyRtt (r d : ℚ) (q : MarkovianCC) : Prop where
  autoMode : q.utilityMode = .autoMode
  defaultDelta : q.defaultDelta = d
  rttWindow : q.rttWindow.Constant r
  delta : r < dblMin → q.prevDeltaUpdateTime = 0 ∨ q.delta = d

/-- What holds from the delta update of an ACK to its end. -/
structure OperatesFor (r d : ℚ) (q : MarkovianCC) : Prop where
  autoMode : q.utilityMode = .autoMode
  defaultDelta : q.defaultDelta = d
  isCopa : q.rttWindow.isCopa = decide (r < dblMin)
  operationMode : q.operationMode = modeFor r
  delta : r < dblMin → q.delta = d

theorem operatesFor_updateDelta {r d : ℚ} {q : MarkovianCC} (hmode : q.utilityMode = .autoMode)
    (hdefault : q.defaultDelta = d) (hcopa : q.rttWindow.isCopa = decide (r < dblMin))
    (hdelta : r < dblMin → q.prevDeltaUpdateTime = 0 ∨ q.delta = d) (pktLost : Bool)
    (curRtt : ℚ) : (q.updateDelta pktLost curRtt).OperatesFor r d := by
  unfold updateDelta updateOperationMode
  rw [if_pos hmode, hcopa]
  extract_lets q'
  by_cases hr : r < dblMin
  · -- the first update of a flow sets delta, and later ones find it set
    have hq' : q'.operationMode = .defaultMode := if_pos (decide_eq_true hr)
    have hkept : (q'.updateDeltaDefault curRtt).delta = d := by
      rw [delta_updateDeltaDefault curRtt]
      · exact hdefault
      · exact (hdelta hr).imp id (fun h => h.trans hdefault.symm)
    obtain ⟨e, t, hframe⟩ := updateDeltaDefault_frame q' curRtt
    rw [if_pos ⟨hq', by simp [q', hmode]⟩]
    rw [hframe] at hkept ⊢
    exact ⟨hmode, hdefault, hcopa, hq'.trans (if_pos hr).symm, fun _ => hkept⟩
  · have hq' : q'.operationMode = .lossSensitiveMode := if_neg (by simpa using hr)
    obtain ⟨e, t, t', hframe⟩ := updateDeltaCompetitive_frame q' pktLost curRtt
    rw [if_neg (by simp [hq']), if_pos (Or.inr hq'), hframe]
    exact ⟨hmode, hdefault, hcopa, hq'.trans (if_neg hr).symm, fun h => absurd h hr⟩

theorem operatesFor_onACK {r d : ℚ} (hr : r ≤ dblMax) {q u : MarkovianCC} {ack : ℤ}
    {sentTime : ℚ} {adjustUs : ℤ} (hq : q.SteadyRtt r d) (hs : q.currRtt sentTime adjustUs = r)
    (h : q.onACK ack sentTime adjustUs = .ok u) : u.OperatesFor r d := by
  refine onACK_rule (Q := OperatesFor r d) (R := OperatesFor r d) ?_ ?_ ?_ ?_ ?_ ?_ ?_ h
  · intro e v he hv
    obtain ⟨w, s, a, p, l, c, f, i, j, rfl⟩ := updateIntersendTime_frame hv
    exact { he with }
  · exact fun q a b c v f n l hq => { hq with }
  · exact fun q m hq => { hq with }
  · exact fun q hq => operatesFor_updateDelta hq.autoMode hq.defaultDelta hq.isCopa
      (fun hlt => Or.inr (hq.delta hlt)) true 0
  · intro q reduce hq
    obtain ⟨l, w, i, j, hframe⟩ := reduceWindow_frame q reduce
    rw [hframe]
    exact { hq with }
  · exact fun q hq => { hq with }
  · intro e he
    obtain ⟨f, i, t, rfl⟩ := ackEntry_frame he
    rw [hs]
    apply operatesFor_updateDelta
    · exact hq.autoMode
    · exact hq.defaultDelta
    · exact isCopa_newRttSample hq.rttWindow hr q.curTick
    · exact hq.delta

/-! ### Runs -/

theorem steadyRtt_init {r d : ℚ} {q : MarkovianCC} (hmode : q.utilityMode = .autoMode)
    (hd : q.defaultDelta = d) (hkinds : q.rttWindow.Kinds) : q.init.SteadyRtt r d where
  autoMode := hmode
  defaultDelta := hd
  rttWindow := rttWindow_constant_clear hkinds r
  delta := fun _ => Or.inl rfl

/-- Every callback keeps the window constant, and an ACK chooses the mode for its RTT. -/
theorem steadyRtt_step {r d : ℚ} (hr : r ≤ dblMax) {q u : MarkovianCC} {c : Callback}
    (hq : q.SteadyRtt r d) (hs : q.SampleIs r c) (h : q.step c = some u) :
    u.SteadyRtt r d ∧ (c.IsACK → u.OperatesFor r d) := by
  cases c with
  | init =>
    cases h
    exact ⟨steadyRtt_init hq.autoMode hq.defaultDelta hq.rttWindow.kinds, False.elim⟩
  | setMinRtt x =>
    cases h
    exact ⟨steadyRtt_init (q := { q with
      externalMinRtt := if q.externalMinRtt = 0 then x else min q.externalMinRtt x })
      hq.autoMode hq.defaultDelta hq.rttWindow.kinds, False.elim⟩
  | setTimestamp now =>
    cases h
    exact ⟨{ hq with }, False.elim⟩
  | onTimeout =>
    cases h
    exact ⟨hq, False.elim⟩
  | onPktSent seqNum =>
    cases h
    obtain ⟨e, i, v, hframe⟩ := onPktSent_frame q seqNum
    rw [hframe]
    exact ⟨{ hq with }, False.elim⟩
  | onACK ack sentTime adjustUs =>
    have hack := toOption_eq_some h
    have hu := operatesFor_onACK hr hq hs hack
    refine ⟨⟨hu.autoMode, hu.defaultDelta, ?_, fun hlt => Or.inr (hu.delta hlt)⟩, fun _ => hu⟩
    rw [rttWindow_onACK hack, hs]
    exact constant_newRttSample hq.rttWindow q.curTick

theorem steadyRtt_run {r d : ℚ} (hr : r ≤ dblMax) {q u : MarkovianCC} (hq : q.SteadyRtt r d)
    {cs : List Callback} (hs : RunMeets step (SampleIs r) q cs) (hrun : run step q cs = some u) :
    u.SteadyRtt r d :=
  run_invariant_of_meets step (SteadyRtt r d) (SampleIs r)
    (fun _ _ _ hq hs h => (steadyRtt_step hr hq hs h).1) hq hs hrun

/-- Every ACK of the run chooses the mode for its RTT. -/
theorem operatesFor_run {r d : ℚ} (hr : r ≤ dblMax) {q t : MarkovianCC} (hq : q.SteadyRtt r d)
    {cs pre : List Callback} {c : Callback} (hs : RunMeets step (SampleIs r) q cs)
    (hpre : pre ++ [c] <+: cs) (hc : c.IsACK) (ht : run step q (pre ++ [c]) = some t) :
    t.OperatesFor r d := by
  obtain ⟨v, hv, hstep⟩ := (run_concat_eq_some step).mp ht
  obtain ⟨post, rfl⟩ := hpre
  rw [List.append_assoc, runMeets_append step (SampleIs r) hv] at hs
  exact (steadyRtt_step hr (steadyRtt_run hr hq hs.1 hv) hs.2.1 hstep).2 hc

/-- With all RTTs the same, Copa operates in the default way with its default delta after every
ACK exactly when there is none, or the RTT is below the smallest normal double: the first sample
already makes the two sides of the comparison equal. -/
theorem default_mode_kept_iff {delta : ℚ} {flowId : ℤ} {doSs keepExt : Bool} {param : List Char}
    {d : ℚ} (hparam : atof param = .ok d) {q s u : MarkovianCC}
    (hq : (markovianCC delta flowId).interpretConfigStr
      (confPrefix doSs keepExt ++ ("auto:".toList ++ param)) = .ok q)
    {before cs : List Callback} (hbefore : run step q before = some s) {r : ℚ} (hr : r ≤ dblMax)
    (hsamples : RunMeets step (SampleIs r) s.init cs) (hrun : run step s.init cs = some u) :
    (∀ pre c t, pre ++ [c] <+: cs → c.IsACK → run step s.init (pre ++ [c]) = some t →
        t.operationMode = .defaultMode ∧ t.delta = d) ↔
      r < dblMin ∨ ∀ c ∈ cs, ¬ c.IsACK := by
  rw [interpret_auto _ doSs keepExt hparam] at hq
  cases hq
  have hconfig := sameConfig_run hbefore
  have hsteady : s.init.SteadyRtt r d := steadyRtt_init hconfig.utilityMode hconfig.defaultDelta
    (hconfig.kinds ⟨rfl, rfl, rfl, rfl⟩)
  constructor
  · intro h
    by_contra hno
    obtain ⟨hge, hack⟩ := not_or.mp hno
    obtain ⟨c, hc⟩ := not_forall.mp hack
    obtain ⟨hmem, hisACK⟩ := Classical.not_imp.mp hc
    -- the run up to that ACK is defined, and ends in the other mode
    obtain ⟨pre, post, rfl⟩ := List.append_of_mem hmem
    have hpre : pre ++ [c] <+: pre ++ c :: post := ⟨post, by simp⟩
    rw [List.append_cons] at hrun
    obtain ⟨t, ht, _⟩ := (run_append_eq_some step).mp hrun
    have hmode := (operatesFor_run hr hsteady hsamples hpre (not_not.mp hisACK) ht).operationMode
    rw [(h pre c t hpre (not_not.mp hisACK) ht).1, modeFor, if_neg hge] at hmode
    cases hmode
  · intro h pre c t hpre hc ht
    rcases h with hlt | hnone
    · have hop := operatesFor_run hr hsteady hsamples hpre hc ht
      exact ⟨hop.operationMode.trans (if_pos hlt), hop.delta hlt⟩
    · exact absurd hc (hnone c (hpre.subset (by simp)))

/-- A packet sent at 1 ms and acknowledged at 2 ms. -/
def emptyQueueFlow : List Callback := [.setTimestamp 1, .onPktSent 0, .setTimestamp 2, .onACK 1 1 0]

/-- At an RTT of 1 ms the mode is not kept. -/
theorem default_mode_kept_iff_emptyQueueFlow :
    ¬ ∀ pre c t, pre ++ [c] <+: emptyQueueFlow → c.IsACK →
      run step autoHalf.init (pre ++ [c]) = some t →
      t.operationMode = .defaultMode ∧ t.delta = 1/2 := by
  have hsamples : RunMeets step (SampleIs 1) autoHalf.init emptyQueueFlow := by decide +kernel
  have hrun := (Option.some_get (x := run step autoHalf.init emptyQueueFlow)
    (by decide +kernel)).symm
  have hkept := default_mode_kept_iff (d := 1/2) (by decide +kernel) autoHalf_configured
    (rfl : run step autoHalf [] = some autoHalf) (by decide +kernel) hsamples hrun
  refine hkept.not.mpr ?_
  rintro (hlt | hnone)
  · exact absurd hlt (by decide +kernel)
  · exact hnone (.onACK 1 1 0) (by simp [emptyQueueFlow]) trivial

/-- With its only RTT at 1 ms and nothing lost, the flow competes from its first ACK on. -/
theorem emptyQueueFlow_competes :
    (markovianCC 1 0).interpretConfigStr
        (confPrefix true false ++ ("auto:".toList ++ "0.5".toList)) = .ok autoHalf ∧
      RunMeets step (SampleIs 1) autoHalf.init emptyQueueFlow ∧
      (run step autoHalf.init emptyQueueFlow).map
          (fun u => (u.operationMode, u.delta, u.numPktsLost)) =
        some (.lossSensitiveMode, 1/3, 0) :=
  ⟨autoHalf_configured, by decide +kernel, by decide +kernel⟩

end MarkovianCC

end CopaNgscope
