import CopaNgscope.MarkovianCCCases

/-! The constant-delta mode of Copa. Every mode but the automatic one operates in the default way,
so an ACK works delta toward its default also when it should be constant. -/
namespace CopaNgscope
open RunInvariant

namespace MarkovianCC

/-- The fields that `update_delta` decides on, in constant-delta mode: no ACK has been processed
since `init` and delta is `d`, or delta is the default. -/
structure ConstantDelta (d : ℚ) (q : MarkovianCC) : Prop where
  utilityMode : q.utilityMode = .constantDelta
  operationMode : q.operationMode = .defaultMode
  defaultDelta : q.defaultDelta = 1/2
  delta : (q.delta = d ∧ q.prevDeltaUpdateTime = 0) ∨ q.delta = 1/2

/-- The first update since `init` sets delta to its default, and it stays there. -/
theorem delta_updateDelta {d : ℚ} {q : MarkovianCC} (h : q.ConstantDelta d) (pktLost : Bool)
    (curRtt : ℚ) : (q.updateDelta pktLost curRtt).delta = 1/2 ∧
      (q.updateDelta pktLost curRtt).ConstantDelta d := by
  have hmode : q.updateOperationMode pktLost = q := by
    rw [updateOperationMode, if_neg (by rw [h.utilityMode]; decide)]
  have hupd : q.updateDelta pktLost curRtt = q.updateDeltaDefault curRtt := by
    unfold updateDelta
    rw [hmode]
    exact if_pos ⟨h.operationMode, by rw [h.utilityMode]; decide⟩
  have hhalf : (q.updateDelta pktLost curRtt).delta = 1/2 := by
    rw [hupd, delta_updateDeltaDefault curRtt, h.defaultDelta]
    exact h.delta.imp And.right (fun hd => hd.trans h.defaultDelta.symm)
  refine ⟨hhalf, ?_⟩
  obtain ⟨e, t, hframe⟩ := updateDeltaDefault_frame q curRtt
  rw [hupd, hframe] at hhalf ⊢
  exact ⟨h.utilityMode, h.operationMode, h.defaultDelta, Or.inr hhalf⟩

/-- Only `update_delta` and `init` write the fields it decides on. -/
theorem ConstantDelta.congr {d : ℚ} {q r : MarkovianCC} (h : q.ConstantDelta d)
    (h1 : r.utilityMode = q.utilityMode) (h2 : r.operationMode = q.operationMode)
    (h3 : r.defaultDelta = q.defaultDelta) (h4 : r.delta = q.delta)
    (h5 : r.prevDeltaUpdateTime = q.prevDeltaUpdateTime) : r.ConstantDelta d :=
  ⟨h1.trans h.utilityMode, h2.trans h.operationMode, h3.trans h.defaultDelta,
    by rw [h4, h5]; exact h.delta⟩

/-- After an ACK delta is the default. -/
theorem delta_onACK {d : ℚ} {q u : MarkovianCC} {ack : ℤ} {sentTime : ℚ} {adjustUs : ℤ}
    (hq : q.ConstantDelta d) (h : q.onACK ack sentTime adjustUs = .ok u) :
    u.delta = 1/2 ∧ u.ConstantDelta d := by
  refine onACK_rule (Q := fun q => q.delta = 1/2 ∧ q.ConstantDelta d)
    (R := fun q => q.delta = 1/2 ∧ q.ConstantDelta d) ?_ ?_ ?_ ?_ ?_ ?_ ?_ h
  · intro e r he hr
    obtain ⟨w, s, a, p, l, c, d', i, j, rfl⟩ := updateIntersendTime_frame hr
    exact ⟨he.1, he.2.congr rfl rfl rfl rfl rfl⟩
  · exact fun r a b c d' e n l hr => ⟨hr.1, hr.2.congr rfl rfl rfl rfl rfl⟩
  · exact fun q m hq => ⟨hq.1, hq.2.congr rfl rfl rfl rfl rfl⟩
  · exact fun q hq => delta_updateDelta hq.2 true 0
  · intro q reduce hq
    obtain ⟨l, w, i, j, hframe⟩ := reduceWindow_frame q reduce
    rw [hframe]
    exact ⟨hq.1, hq.2.congr rfl rfl rfl rfl rfl⟩
  · exact fun q hq => ⟨hq.1, hq.2.congr rfl rfl rfl rfl rfl⟩
  · intro e he
    obtain ⟨f, i, t, rfl⟩ := ackEntry_frame he
    apply delta_updateDelta
    exact hq.congr rfl rfl rfl rfl rfl

theorem constantDelta_init {d : ℚ} {q : MarkovianCC} (hq : q.ConstantDelta d) :
    q.init.delta = q.delta ∧ q.init.ConstantDelta d := by
  have hdelta : q.init.delta = q.delta := if_neg (by rw [hq.utilityMode]; simp)
  exact ⟨hdelta, hq.utilityMode, rfl, hq.defaultDelta,
    hq.delta.imp (fun h => ⟨hdelta.trans h.1, rfl⟩) (fun h => hdelta.trans h)⟩

def Callback.IsACK : Callback → Prop
  | .onACK _ _ _ => True
  | _ => False

/-- An ACK sets delta to its default, and every other callback leaves it alone. -/
theorem delta_step {d : ℚ} {q u : MarkovianCC} {c : Callback} (hq : q.ConstantDelta d)
    (h : q.step c = some u) :
    u.ConstantDelta d ∧ (c.IsACK → u.delta = 1/2) ∧ (¬ c.IsACK → u.delta = q.delta) := by
  cases c with
  | init =>
    cases h
    obtain ⟨hdelta, hconst⟩ := constantDelta_init hq
    exact ⟨hconst, False.elim, fun _ => hdelta⟩
  | setMinRtt x =>
    cases h
    obtain ⟨hdelta, hconst⟩ := constantDelta_init (q := { q with
      externalMinRtt := if q.externalMinRtt = 0 then x else min q.externalMinRtt x })
      (hq.congr rfl rfl rfl rfl rfl)
    exact ⟨hconst, False.elim, fun _ => hdelta⟩
  | setTimestamp now =>
    cases h
    exact ⟨hq.congr rfl rfl rfl rfl rfl, False.elim, fun _ => rfl⟩
  | onTimeout =>
    cases h
    exact ⟨hq, False.elim, fun _ => rfl⟩
  | onPktSent seqNum =>
    cases h
    obtain ⟨e, i, v, hframe⟩ := onPktSent_frame q seqNum
    rw [hframe]
    exact ⟨hq.congr rfl rfl rfl rfl rfl, False.elim, fun _ => rfl⟩
  | onACK ack sentTime adjustUs =>
    obtain ⟨hdelta, hconst⟩ := delta_onACK hq (toOption_eq_some h)
    exact ⟨hconst, fun _ => hdelta, fun hn => absurd trivial hn⟩

/-- Delta stays what it was configured to be exactly when that is the default or no ACK comes. -/
theorem delta_kept_iff {d : ℚ} {q u : MarkovianCC} (hq : q.ConstantDelta d) (hdelta : q.delta = d)
    {cs : List Callback} (hrun : run step q cs = some u) :
    (∀ pre t, pre <+: cs → run step q pre = some t → t.delta = d) ↔
      d = 1/2 ∨ ∀ c ∈ cs, ¬ c.IsACK := by
  have hok : (d = 1/2 ∨ ∀ c ∈ cs, ¬ c.IsACK) ↔
      RunMeets step (fun _ c => d = 1/2 ∨ ¬ c.IsACK) q cs := by
    rw [runMeets_actions_iff step (fun c => d = 1/2 ∨ ¬ c.IsACK) hrun]
    exact ⟨fun h c hc => h.imp_right (fun hall => hall c hc),
      fun h => or_iff_not_imp_left.mpr (fun hne c hc => (h c hc).resolve_left hne)⟩
  rw [hok, ← runShows_iff_reached step (fun t => t.delta = d) hdelta hrun]
  refine runShows_iff_runMeets step (fun q c => ∃ t, q.step c = some t)
    (fun _ c => d = 1/2 ∨ ¬ c.IsACK) (fun _ _ t => t.delta = d)
    (fun q => q.ConstantDelta d ∧ q.delta = d) ?_ ?_ cs q ⟨hq, hdelta⟩ (runMeets_defined step hrun)
  · rintro r c ⟨hr, hdelta⟩ ⟨t, ht⟩
    obtain ⟨-, hack, hother⟩ := delta_step hr ht
    refine ⟨?_, fun h => ⟨t, ht, ?_⟩⟩
    · rintro ⟨v, hv, hgood⟩
      cases ht.symm.trans hv
      exact or_iff_not_imp_right.mpr (fun hc => hgood.symm.trans (hack (not_not.mp hc)))
    · by_cases hc : c.IsACK
      · exact (hack hc).trans (h.resolve_right (not_not.mpr hc)).symm
      · exact (hother hc).trans hdelta
  · rintro r c t ⟨hr, -⟩ - ht hgood
    exact ⟨(delta_step hr ht).1, hgood⟩

/-- Configured with the constant delta `d`, Copa has that delta in every state of a run exactly
when `d` is the default delta of the automatic mode or the run has no ACK. -/
theorem constant_delta_kept_iff {delta : ℚ} {flowId : ℤ} {doSs keepExt : Bool} {param : List Char}
    {d : ℚ} (hparam : atof param = .ok d) {q u : MarkovianCC}
    (hq : (markovianCC delta flowId).interpretConfigStr
      (confPrefix doSs keepExt ++ ("constant_delta:".toList ++ param)) = .ok q)
    {cs : List Callback} (hrun : run step q cs = some u) :
    (∀ pre t, pre <+: cs → run step q pre = some t → t.delta = d) ↔
      d = 1/2 ∨ ∀ c ∈ cs, ¬ c.IsACK := by
  rw [interpret_constant_delta _ doSs keepExt hparam] at hq
  cases hq
  exact delta_kept_iff ⟨rfl, rfl, rfl, Or.inl ⟨rfl, rfl⟩⟩ rfl hrun

/-- One packet, sent and acknowledged. -/
def oneAckFlow : List Callback :=
  [.init, .setTimestamp 1, .onPktSent 0, .setTimestamp 2, .onACK 1 1 0]

/-- A delta of 1/2 is kept over the ACK, one of 1 is not. -/
theorem constant_delta_kept_iff_half :
    (∀ pre t, pre <+: oneAckFlow →
      run step { constantDeltaOne with delta := 1/2 } pre = some t → t.delta = 1/2) ∧
    ¬ ∀ pre t, pre <+: oneAckFlow → run step constantDeltaOne pre = some t → t.delta = 1 := by
  have hparam : atof "0.5".toList = .ok (1/2) := by decide +kernel
  have hhalf := interpret_constant_delta (markovianCC 1 0) false false hparam
  refine ⟨?_, ?_⟩
  · exact (constant_delta_kept_iff hparam hhalf (Option.some_get (by decide +kernel)).symm).mpr
      (.inl rfl)
  · have hrun := (Option.some_get (x := run step constantDeltaOne oneAckFlow)
      (by decide +kernel)).symm
    rw [constant_delta_kept_iff (by decide +kernel) constantDeltaOne_configured hrun]
    rintro (hone | hnone)
    · exact absurd hone (by decide +kernel)
    · exact hnone (.onACK 1 1 0) (by simp [oneAckFlow]) trivial

/-- The first ACK takes the delta of 1 back to the default. -/
theorem constant_delta_lost :
    (markovianCC 1 0).interpretConfigStr "constant_delta:1".toList = .ok constantDeltaOne ∧
    (run step constantDeltaOne oneAckFlow).map (fun q => q.delta) = some (1/2) :=
  ⟨constantDeltaOne_configured, by decide +kernel⟩

end MarkovianCC

end CopaNgscope
