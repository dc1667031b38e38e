import Mathlib.Tactic.Linarith
import Mathlib.Tactic.NormNum
import Mathlib.Tactic.Positivity
import CopaNgscope.MarkovianCCCases

/-! The safe region of Copa in its automatic mode: the window, the step size and delta keep within
their bounds, so that no division on the way is by zero or by a negative number. -/
namespace CopaNgscope
open RunInvariant

namespace MarkovianCC

/-- The clock does not go back. -/
def ClockForward (q : MarkovianCC) : Callback → Prop
  | .setTimestamp now => q.curTick ≤ now
  | _ => True

instance decidableClockForward (q : MarkovianCC) : ∀ c, Decidable (q.ClockForward c)
  | .setTimestamp now => inferInstanceAs (Decidable (q.curTick ≤ now))
  | .init | .setMinRtt _ | .onPktSent _ | .onACK _ _ _ | .onTimeout => isTrue trivial

/-- Every callback keeps the RTT window in order. -/
theorem coherent_step {q u : MarkovianCC} {c : Callback} (hq : q.rttWindow.Coherent q.curTick)
    (hclock : q.ClockForward c) (h : q.step c = some u) : u.rttWindow.Coherent u.curTick := by
  cases c with
  | init =>
    cases h
    exact coherent_clear hq.kinds q.curTick
  | setMinRtt x =>
    cases h
    exact coherent_clear hq.kinds q.curTick
  | setTimestamp now =>
    cases h
    exact hq.mono hclock
  | onTimeout =>
    cases h
    exact hq
  | onPktSent seqNum =>
    cases h
    obtain ⟨e, i, v, hframe⟩ := onPktSent_frame q seqNum
    rw [hframe]
    exact hq
  | onACK ack sentTime adjustUs =>
    have hack := toOption_eq_some h
    rw [rttWindow_onACK hack, curTick_onACK hack]
    exact coherent_newRttSample hq le_rfl _

/-- What holds from the RTT sample of an ACK to its end, with default delta `d`. -/
structure InSafeRegion (d : ℚ) (q : MarkovianCC) : Prop where
  autoMode : q.utilityMode = .autoMode
  defaultDelta : q.defaultDelta = d
  rttWindow : q.rttWindow.Coherent q.curTick
  theWindow : 2 ≤ q.theWindow
  updateAmt : ∃ k < 31, q.updateAmt = 2^k
  prevUpdateDir : q.prevUpdateDir = 1 ∨ q.prevUpdateDir = -1
  delta_pos : 0 < q.delta
  delta_le : q.delta ≤ d

/-- What holds between callbacks: before the first ACK delta may be anything. -/
structure Safe (d : ℚ) (q : MarkovianCC) : Prop where
  autoMode : q.utilityMode = .autoMode
  defaultDelta : q.defaultDelta = d
  rttWindow : q.rttWindow.Coherent q.curTick
  theWindow : 2 ≤ q.theWindow
  updateAmt : ∃ k < 31, q.updateAmt = 2^k
  prevUpdateDir : q.prevUpdateDir = 1 ∨ q.prevUpdateDir = -1
  delta : (q.numPktsAcked = 0 ∧ q.prevDeltaUpdateTime = 0) ∨ (0 < q.delta ∧ q.delta ≤ d)

theorem InSafeRegion.safe {d : ℚ} {q : MarkovianCC} (h : q.InSafeRegion d) : q.Safe d :=
  { h with delta := Or.inr ⟨h.delta_pos, h.delta_le⟩ }

theorem safe_init {d : ℚ} {q : MarkovianCC} (hmode : q.utilityMode = .autoMode)
    (hd : q.defaultDelta = d) (hkinds : q.rttWindow.Kinds) : q.init.Safe d where
  autoMode := hmode
  defaultDelta := hd
  rttWindow := coherent_clear hkinds _
  theWindow := by rw [init, numProbePkts]; norm_num
  updateAmt := ⟨0, by norm_num, by norm_num [init]⟩
  prevUpdateDir := Or.inl rfl
  delta := Or.inl ⟨rfl, rfl⟩

/-! ### Delta -/

theorem delta_updateDeltaDefault_pos {d : ℚ} (hd : 0 < d) {q : MarkovianCC}
    (hdefault : q.defaultDelta = d)
    (hdelta : q.prevDeltaUpdateTime = 0 ∨ (0 < q.delta ∧ q.delta ≤ d)) (curRtt : ℚ) :
    0 < (q.updateDeltaDefault curRtt).delta ∧ (q.updateDeltaDefault curRtt).delta ≤ d := by
  unfold updateDeltaDefault
  by_cases hcond : q.prevDeltaUpdateTime = 0 ∨ q.prevDeltaUpdateTimeLoss+curRtt < q.curTick
  · rw [if_pos hcond, hdefault]
    refine ⟨lt_min ?_ hd, min_le_right _ _⟩
    split_ifs with hlt
    · exact hd
    · exact hd.trans_le (not_lt.mp hlt)
  · rw [if_neg hcond]
    exact hdelta.resolve_left (fun h => hcond (Or.inl h))

theorem delta_updateDeltaCompetitive_pos {d : ℚ} (hd : 0 < d) {q : MarkovianCC}
    (hdefault : q.defaultDelta = d)
    (hdelta : q.prevDeltaUpdateTime = 0 ∨ (0 < q.delta ∧ q.delta ≤ d)) (pktLost : Bool)
    (curRtt : ℚ) :
    0 < (q.updateDeltaCompetitive pktLost curRtt).delta ∧
      (q.updateDeltaCompetitive pktLost curRtt).delta ≤ d := by
  unfold updateDeltaCompetitive
  extract_lets delta
  have hpos : 0 < delta := by
    simp only [delta]
    split_ifs with hfirst
    · exact hdefault ▸ hd
    · exact (hdelta.resolve_left hfirst).1
  rw [hdefault]
  split_ifs
  · exact ⟨lt_min (by positivity) hd, min_le_right _ _⟩
  · exact ⟨lt_min (by positivity) hd, min_le_right _ _⟩
  · exact ⟨lt_min hpos hd, min_le_right _ _⟩

/-- The automatic mode operates in one of two ways. -/
theorem updateDelta_autoMode {q : MarkovianCC} (hmode : q.utilityMode = .autoMode) (pktLost : Bool)
    (curRtt : ℚ) : ∃ i o,
      q.updateDelta pktLost curRtt =
        updateDeltaDefault { q with isUniform := i, operationMode := o } curRtt ∨
      q.updateDelta pktLost curRtt =
        updateDeltaCompetitive { q with isUniform := i, operationMode := o } pktLost curRtt := by
  unfold updateDelta updateOperationMode
  rw [if_pos hmode]
  cases q.rttWindow.isCopa with
  | true => exact ⟨_, _, Or.inl (if_pos ⟨rfl, by simp [hmode]⟩)⟩
  | false => exact ⟨_, _, Or.inr ((if_neg (by simp)).trans (if_pos (Or.inr rfl)))⟩

/-- Every update takes delta between 0 and its default. -/
theorem delta_updateDelta_pos {d : ℚ} (hd : 0 < d) {q : MarkovianCC}
    (hmode : q.utilityMode = .autoMode) (hdefault : q.defaultDelta = d)
    (hdelta : q.prevDeltaUpdateTime = 0 ∨ (0 < q.delta ∧ q.delta ≤ d)) (pktLost : Bool)
    (curRtt : ℚ) :
    0 < (q.updateDelta pktLost curRtt).delta ∧ (q.updateDelta pktLost curRtt).delta ≤ d := by
  obtain ⟨i, o, h | h⟩ := updateDelta_autoMode hmode pktLost curRtt
  · rw [h]
    exact delta_updateDeltaDefault_pos hd (by exact hdefault) (by exact hdelta) curRtt
  · rw [h]
    exact delta_updateDeltaCompetitive_pos hd (by exact hdefault) (by exact hdelta) pktLost curRtt

/-! ### The step size -/

/-- Doubling a power of two below `2^31` gives one, or overflows to a negative number. -/
theorem doubledAmt_pow {k : ℕ} (hk : k < 31) :
    (doubledAmt (2^k) = 2^(k+1) ∧ k+1 < 31) ∨ doubledAmt (2^k) < 0 := by
  have hcast : (2:ℚ)^k = ((2^k : ℤ) : ℚ) := by push_cast; rfl
  have hnum : ((2:ℚ)^k).num = 2^k := by rw [hcast, Rat.num_intCast]
  have hden : ((2:ℚ)^k).den = 1 := by rw [hcast, Rat.den_intCast]
  unfold doubledAmt
  rw [hnum, hden, Nat.cast_one, Int.tdiv_one, ← pow_succ]
  rcases Nat.lt_or_ge (k+1) 31 with hlt | hge
  · left
    have hbound : (2:ℤ)^(k+1) ≤ 2^30 := pow_le_pow_right₀ (by norm_num) (by omega)
    have hpos : (0:ℤ) < 2^(k+1) := by positivity
    rw [Int.bmod_eq_of_le (by omega) (by omega)]
    exact ⟨by push_cast; rfl, hlt⟩
  · right
    obtain rfl : k = 30 := by omega
    norm_num [Int.bmod]

theorem updateAmt_updateAmtPerRtt {q : MarkovianCC} (h : ∃ k < 31, q.updateAmt = 2^k) :
    (∃ k < 31, q.updateAmtPerRtt.updateAmt = 2^k) ∨ q.updateAmtPerRtt.updateAmt < 0 := by
  unfold updateAmtPerRtt
  extract_lets keeps
  split_ifs with htime hkeeps hsmall
  · obtain ⟨k, hk, hamt⟩ := h
    have hone : (1:ℚ) ≤ 2^k := one_le_pow₀ (by norm_num)
    rw [hamt] at hsmall
    exact absurd hsmall (by linarith)
  · obtain ⟨k, hk, hamt⟩ := h
    simp only [hamt]
    exact (doubledAmt_pow hk).imp_left (fun h => ⟨k+1, h.2, h.1⟩)
  · exact Or.inl ⟨0, by norm_num, rfl⟩
  · exact Or.inl h

theorem prevUpdateDir_updateAmtPerRtt {q : MarkovianCC}
    (h : q.prevUpdateDir = 1 ∨ q.prevUpdateDir = -1) :
    q.updateAmtPerRtt.prevUpdateDir = 1 ∨ q.updateAmtPerRtt.prevUpdateDir = -1 := by
  unfold updateAmtPerRtt
  extract_lets keeps
  split_ifs
  · exact h
  · exact h
  · exact h.symm.imp (fun h => by simp [h]) (fun h => by simp [h])
  · exact h

/-- Halving stops at 1, where an overflow ends too. -/
theorem clampedAmt_pow {a : ℚ} (h : (∃ k < 31, a = 2^k) ∨ a < 0) (halve : Prop)
    [Decidable halve] : ∃ k < 31, max (if halve then a/2 else a) 1 = 2^k := by
  rcases h with ⟨k, hk, rfl⟩ | hneg
  · have hone (k : ℕ) : (1:ℚ) ≤ 2^k := one_le_pow₀ (by norm_num)
    split_ifs
    · cases k with
      | zero => exact ⟨0, hk, by norm_num⟩
      | succ k =>
        refine ⟨k, by omega, ?_⟩
        rw [pow_succ, mul_div_cancel_right₀ _ (two_ne_zero' ℚ), max_eq_left (hone k)]
    · exact ⟨k, hk, max_eq_left (hone k)⟩
  · refine ⟨0, by norm_num, ?_⟩
    rw [pow_zero]
    split_ifs
    · exact max_eq_right (by linarith)
    · exact max_eq_right (by linarith)

theorem updateAmt_steadyState {q : MarkovianCC} (h : ∃ k < 31, q.updateAmt = 2^k) (target : ℚ) :
    ∃ k < 31, (q.steadyState target).updateAmt = 2^k := by
  have hclamped := clampedAmt_pow (updateAmt_updateAmtPerRtt h)
    (q.updateAmtPerRtt.theWindow*q.updateAmtPerRtt.delta < q.updateAmtPerRtt.updateAmt)
  unfold steadyState
  extract_lets r a a' r'
  split_ifs
  · exact hclamped
  · exact hclamped

theorem prevUpdateDir_steadyState {q : MarkovianCC}
    (h : q.prevUpdateDir = 1 ∨ q.prevUpdateDir = -1) (target : ℚ) :
    (q.steadyState target).prevUpdateDir = 1 ∨ (q.steadyState target).prevUpdateDir = -1 := by
  have hdir := prevUpdateDir_updateAmtPerRtt h
  unfold steadyState
  extract_lets r a a' r'
  split_ifs
  · exact hdir
  · exact hdir

/-! ### The acknowledgement -/

theorem inSafeRegion_updateIntersendTime {d : ℚ} {e r : MarkovianCC} (h : e.InSafeRegion d)
    (hr : e.updateIntersendTime = .ok r) : r.InSafeRegion d := by
  rcases updateIntersendTime_eq_ok hr with ⟨_, rfl⟩ | ⟨s, ⟨_, hs⟩ | ⟨_, rfl⟩, rfl⟩
  · exact h
  · obtain ⟨_, rfl⟩ := startUp_eq_ok hs
    exact { h with theWindow := le_max_left _ _ }
  · obtain ⟨w, a, p, l, c, i, hs⟩ := steadyState_frame e e.targetWindow
    have hamt := updateAmt_steadyState h.updateAmt e.targetWindow
    have hdir := prevUpdateDir_steadyState h.prevUpdateDir e.targetWindow
    rw [hs] at hamt hdir ⊢
    exact { h with theWindow := le_max_left _ _, updateAmt := hamt, prevUpdateDir := hdir }

theorem inSafeRegion_reduceWindow {d : ℚ} {q : MarkovianCC} (h : q.InSafeRegion d)
    (reduce : Bool) : (q.reduceWindow reduce).InSafeRegion d := by
  unfold reduceWindow
  extract_lets r q'
  split_ifs
  · exact { h with theWindow := le_max_left _ _ }
  · exact { h with }

theorem inSafeRegion_updateDelta {d : ℚ} (hd : 0 < d) {q : MarkovianCC} (h : q.Safe d)
    (hdelta : q.prevDeltaUpdateTime = 0 ∨ (0 < q.delta ∧ q.delta ≤ d)) (pktLost : Bool)
    (curRtt : ℚ) : (q.updateDelta pktLost curRtt).InSafeRegion d := by
  obtain ⟨hpos, hle⟩ := delta_updateDelta_pos hd h.autoMode h.defaultDelta hdelta pktLost curRtt
  obtain ⟨i, o, v, t, t', hq⟩ := updateDelta_frame q pktLost curRtt
  rw [hq] at hpos hle ⊢
  exact { h with delta_pos := hpos, delta_le := hle }

/-- What the RTT sample of an ACK leaves: the safe region, and two minima in order. -/
theorem safe_ackEntry {d : ℚ} (hd : 0 < d) {q e : MarkovianCC} (h : q.Safe d) {sentTime : ℚ}
    {adjustUs : ℤ} (he : q.AckEntry sentTime adjustUs e) :
    e.InSafeRegion d ∧ 0 ≤ e.queuingDelay := by
  obtain ⟨f, i, t, rfl⟩ := ackEntry_frame he
  have hordered := ordered_newRttSample h.rttWindow le_rfl (q.currRtt sentTime adjustUs)
  have hsafe : Safe d { q with
      rttWindow := q.rttWindow.newRttSample (q.currRtt sentTime adjustUs) q.curTick
      minRtt := (q.rttWindow.newRttSample (q.currRtt sentTime adjustUs) q.curTick).getMinRtt
      interarrivalEwma := f, interarrival := i, prevAckTime := t } :=
    { h with rttWindow := coherent_newRttSample h.rttWindow le_rfl _ }
  refine ⟨inSafeRegion_updateDelta hd hsafe (hsafe.delta.imp_left And.right) _ _, ?_⟩
  obtain ⟨_, _, _, _, _, hdelta⟩ := updateDelta_frame _ false (q.currRtt sentTime adjustUs)
  rw [hdelta]
  exact sub_nonneg.mpr hordered.min_le_unjittered

theorem safe_onACK {d : ℚ} (hd : 0 < d) {q u : MarkovianCC} {ack : ℤ} {sentTime : ℚ}
    {adjustUs : ℤ} (hq : q.Safe d) (h : q.onACK ack sentTime adjustUs = .ok u) : u.Safe d := by
  refine (onACK_rule (Q := InSafeRegion d) (R := InSafeRegion d) ?_ ?_ ?_ ?_ ?_ ?_ ?_ h).safe
  · exact fun e r he hr => inSafeRegion_updateIntersendTime he hr
  · exact fun r a b c v f n l hr => { hr with }
  · exact fun q m hq => { hq with }
  · exact fun q hq =>
      inSafeRegion_updateDelta hd hq.safe (Or.inr ⟨hq.delta_pos, hq.delta_le⟩) true 0
  · exact fun q reduce hq => inSafeRegion_reduceWindow hq reduce
  · exact fun q hq => { hq with }
  · exact fun e he => (safe_ackEntry hd hq he).1

/-! ### Runs -/

theorem safe_step {d : ℚ} (hd : 0 < d) {q u : MarkovianCC} {c : Callback} (hq : q.Safe d)
    (hclock : q.ClockForward c) (h : q.step c = some u) : u.Safe d := by
  cases c with
  | init =>
    cases h
    exact safe_init hq.autoMode hq.defaultDelta hq.rttWindow.kinds
  | setMinRtt x =>
    cases h
    exact safe_init (q := { q with
      externalMinRtt := if q.externalMinRtt = 0 then x else min q.externalMinRtt x })
      hq.autoMode hq.defaultDelta hq.rttWindow.kinds
  | setTimestamp now =>
    cases h
    exact { hq with rttWindow := hq.rttWindow.mono hclock }
  | onTimeout =>
    cases h
    exact hq
  | onPktSent seqNum =>
    cases h
    obtain ⟨e, i, v, hframe⟩ := onPktSent_frame q seqNum
    rw [hframe]
    exact { hq with }
  | onACK ack sentTime adjustUs => exact safe_onACK hd hq (toOption_eq_some h)

theorem safe_run {d : ℚ} (hd : 0 < d) {q u : MarkovianCC} (hq : q.Safe d) {cs : List Callback}
    (hclock : RunMeets step ClockForward q cs) (hrun : run step q cs = some u) : u.Safe d :=
  run_invariant_of_meets step (Safe d) ClockForward (fun _ _ _ => safe_step hd) hq hclock hrun

/-- The divisions of `update_intersend_time` from the state `e` are by positive numbers. -/
structure DivisorsPositive (e : MarkovianCC) : Prop where
  queuingDelay_nonneg : 0 ≤ e.queuingDelay
  target : e.queuingDelay ≠ 0 → 0 < e.queuingDelay*e.delta
  step : 0 < e.delta*e.theWindow
  intersend : ∀ r, e.updateIntersendTime = .ok r → 0 < r.theWindow

theorem divisorsPositive_ackEntry {d : ℚ} (hd : 0 < d) {q e : MarkovianCC} (h : q.Safe d)
    {sentTime : ℚ} {adjustUs : ℤ} (he : q.AckEntry sentTime adjustUs e) : e.DivisorsPositive := by
  obtain ⟨hsafe, hqueue⟩ := safe_ackEntry hd h he
  have hwindow : 0 < e.theWindow := two_pos.trans_le hsafe.theWindow
  refine ⟨hqueue, fun hne => mul_pos (hqueue.lt_of_ne' hne) hsafe.delta_pos,
    mul_pos hsafe.delta_pos hwindow, fun r hr => ?_⟩
  exact two_pos.trans_le (inSafeRegion_updateIntersendTime hsafe hr).theWindow

/-- In the automatic mode with a positive default delta, whatever happened before `init`, every
state of the flow is in the safe region, and every ACK in it divides by positive numbers only. -/
theorem safe_region {delta : ℚ} {flowId : ℤ} {doSs keepExt : Bool} {param : List Char} {d : ℚ}
    (hparam : atof param = .ok d) (hd : 0 < d) {q s u : MarkovianCC}
    (hq : (markovianCC delta flowId).interpretConfigStr
      (confPrefix doSs keepExt ++ ("auto:".toList ++ param)) = .ok q)
    {before cs : List Callback} (hbefore : run step q before = some s)
    (hclock : RunMeets step ClockForward s.init cs) (hrun : run step s.init cs = some u) :
    2 ≤ u.theWindow ∧ (∃ k < 31, u.updateAmt = 2^k) ∧
      (u.prevUpdateDir = 1 ∨ u.prevUpdateDir = -1) ∧
      (0 < u.numPktsAcked → 0 < u.delta ∧ u.delta ≤ d) ∧
      ∀ sentTime adjustUs e, u.AckEntry sentTime adjustUs e → e.DivisorsPositive := by
  rw [interpret_auto _ doSs keepExt hparam] at hq
  cases hq
  have hconfig := sameConfig_run hbefore
  have hsafe := safe_run hd (safe_init hconfig.utilityMode hconfig.defaultDelta
    (hconfig.kinds ⟨rfl, rfl, rfl, rfl⟩)) hclock hrun
  exact ⟨hsafe.theWindow, hsafe.updateAmt, hsafe.prevUpdateDir,
    fun hacked => hsafe.delta.resolve_left (fun h => hacked.ne' h.1),
    fun _ _ _ he => divisorsPositive_ackEntry hd hsafe he⟩

/-- Slow start with RTTs of 20, then RTTs of 40 to 60, with which the window goes down. -/
def queueFills : List Callback :=
  .setTimestamp 100 :: List.replicate 20 (.onACK 1 80 0) ++
    [.onPktSent 1, .setTimestamp 101, .onPktSent 2, .setTimestamp 160, .onACK 2 100 0,
      .setTimestamp 161, .onPktSent 3, .onACK 3 101 0, .setTimestamp 220, .onPktSent 4,
      .onACK 3 161 0, .setTimestamp 280, .onPktSent 5, .onACK 4 220 0, .setTimestamp 320,
      .onACK 5 280 0]

/-- An ACK of the flow before it, and 25 ACKs in this one. -/
theorem safe_region_queueFills : ∃ s u,
    run step autoHalf [.setTimestamp 50, .onPktSent 0, .setTimestamp 60, .onACK 1 50 0] = some s ∧
    run step s.init queueFills = some u ∧
    (u.numPktsAcked = 25 ∧ u.slowStart = false ∧ u.theWindow < 12) ∧
    2 ≤ u.theWindow ∧ (∃ k < 31, u.updateAmt = 2^k) ∧
      (u.prevUpdateDir = 1 ∨ u.prevUpdateDir = -1) ∧
      (0 < u.numPktsAcked → 0 < u.delta ∧ u.delta ≤ 1/2) ∧
      ∀ sentTime adjustUs e, u.AckEntry sentTime adjustUs e → e.DivisorsPositive := by
  have hbefore := (Option.some_get (x := run step autoHalf
    [.setTimestamp 50, .onPktSent 0, .setTimestamp 60, .onACK 1 50 0]) (by decide +kernel)).symm
  set s := (run step autoHalf
    [.setTimestamp 50, .onPktSent 0, .setTimestamp 60, .onACK 1 50 0]).get (by decide +kernel)
  have hrun := (Option.some_get (x := run step s.init queueFills) (by decide +kernel)).symm
  have hparam : atof "0.5".toList = .ok (1/2) := by decide +kernel
  exact ⟨s, _, hbefore, hrun, by decide +kernel, safe_region hparam (by norm_num)
    autoHalf_configured hbefore (by decide +kernel) hrun⟩

end MarkovianCC

end CopaNgscope
