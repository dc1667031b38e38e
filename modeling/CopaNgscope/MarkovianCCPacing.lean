import CopaNgscope.MarkovianCCMinRtt

/-! The pacing interval of Copa: where it is set, and when it is not negative. -/
namespace CopaNgscope
open RunInvariant

/-- Whether the updates for some lost packets and the acknowledged one report a high loss rate. -/
def ReduceOnLoss.reports (curTime rtt : ℚ) : ℕ → ReduceOnLoss → Bool
  | 0, r => (r.update false curTime rtt).2
  | lost+1, r =>
    (r.update true curTime rtt).2 || reports curTime rtt lost (r.update true curTime rtt).1

namespace MarkovianCC

/-- The number of packets that the loop up to `seqNum` takes for lost. -/
def lostUpTo (seqNum : ℤ) (xs : List (ℤ × PacketData)) : ℕ :=
  (xs.takeWhile (fun x => x.1 ≤ seqNum)).countP (fun x => x.1 < seqNum)

/-- Whether an ACK with the given RTT reduces the window for its losses. -/
def reduces (q : MarkovianCC) (ack : ℤ) (rtt : ℚ) : Bool :=
  q.reduceOnLoss.reports q.curTick rtt
    (if ack-1 ∈ q.unacknowledgedPackets.keys then
      lostUpTo (ack-1) q.unacknowledgedPackets.entries else 0)

/-- An ACK sets the pacing interval after the probing phase, and when it reduces the window. -/
def Paces (q : MarkovianCC) (ack : ℤ) (sentTime : ℚ) (adjustUs : ℤ) : Prop :=
  2*numProbePkts-1 ≤ q.numPktsAcked ∨ q.reduces ack (q.currRtt sentTime adjustUs)

instance (q : MarkovianCC) (ack : ℤ) (sentTime : ℚ) (adjustUs : ℤ) :
    Decidable (q.Paces ack sentTime adjustUs) := inferInstanceAs (Decidable (_ ∨ _))

/-- An ACK that sets the pacing interval finds no negative RTT in the window of the unjittered
one. -/
def PacesForward (q : MarkovianCC) : Callback → Prop
  | .onACK ack sentTime adjustUs =>
    q.Paces ack sentTime adjustUs →
      0 ≤ q.currRtt sentTime adjustUs ∧
        ∀ s ∈ q.rttWindow.unjitteredRtt.recent
          (q.rttWindow.unjitteredLength (q.currRtt sentTime adjustUs)) q.curTick, 0 ≤ s.2
  | _ => True

instance decidablePacesForward (q : MarkovianCC) : ∀ c, Decidable (q.PacesForward c)
  | .onACK ack sentTime adjustUs =>
    inferInstanceAs (Decidable (q.Paces ack sentTime adjustUs →
      0 ≤ q.currRtt sentTime adjustUs ∧
        ∀ s ∈ q.rttWindow.unjitteredRtt.recent
          (q.rttWindow.unjitteredLength (q.currRtt sentTime adjustUs)) q.curTick, 0 ≤ s.2))
  | .init | .setMinRtt _ | .setTimestamp _ | .onPktSent _ | .onTimeout => isTrue trivial

/-- The clock does not go back, and no negative RTT is set from outside. -/
def PacingClock (q : MarkovianCC) : Callback → Prop
  | .setTimestamp now => q.curTick ≤ now
  | .setMinRtt x => 0 ≤ x
  | _ => True

instance decidablePacingClock (q : MarkovianCC) : ∀ c, Decidable (q.PacingClock c)
  | .setTimestamp now => inferInstanceAs (Decidable (q.curTick ≤ now))
  | .setMinRtt x => inferInstanceAs (Decidable (0 ≤ x))
  | .init | .onPktSent _ | .onACK _ _ _ | .onTimeout => isTrue trivial

theorem PacingClock.clockForward {q : MarkovianCC} {c : Callback} (h : q.PacingClock c) :
    q.ClockForward c := by
  cases c with
  | setTimestamp now => exact h
  | init | setMinRtt | onPktSent | onACK | onTimeout => trivial

/-! ### Losses -/

/-- The loop and the update after it report a loss rate as the updates one by one do. -/
theorem ackLoop_reports {seqNum : ℤ} {xs : List (ℤ × PacketData)} {tmp : ℤ}
    {r s : MarkovianCC × Bool × Bool} (h : ackLoop seqNum xs tmp r = .ok s) :
    (s.2.2 || (s.1.reduceOnLoss.update false r.1.curTick r.1.rttWindow.getLatestRtt).2) =
      (r.2.2 || r.1.reduceOnLoss.reports r.1.curTick r.1.rttWindow.getLatestRtt
        (lostUpTo seqNum xs)) := by
  -- the induction goes with the loop; a lost packet is one update of the estimator
  induction xs generalizing tmp r with
  | nil =>
    cases h
    rfl
  | cons x xs ih =>
    rw [ackLoop] at h
    split_ifs at h with horder hpast
    · cases h
      have hnone : lostUpTo seqNum (x :: xs) = 0 := by
        rw [lostUpTo, List.takeWhile_cons_of_neg (by simpa using hpast), List.countP_nil]
      rw [hnone]
      rfl
    · have hrest := ih h
      have htake : (x :: xs).takeWhile (fun x => decide (x.1 ≤ seqNum)) =
          x :: xs.takeWhile (fun x => decide (x.1 ≤ seqNum)) :=
        List.takeWhile_cons_of_pos (by simpa using not_lt.mp hpast)
      unfold lostUpTo at hrest ⊢
      rw [htake]
      by_cases hlost : x.1 < seqNum
      · rw [List.countP_cons_of_pos (by simpa using hlost)]
        rw [decide_eq_true hlost] at hrest
        exact hrest.trans (Bool.or_assoc _ _ _)
      · rw [List.countP_cons_of_neg (by simpa using hlost)]
        rw [decide_eq_false hlost] at hrest
        exact hrest

theorem eraseAcked_reports {q : MarkovianCC} {ack : ℤ} {t : MarkovianCC × Bool × Bool}
    (h : q.eraseAcked (ack-1) = .ok t) :
    (t.2.2 || (t.1.reduceOnLoss.update false q.curTick q.rttWindow.getLatestRtt).2) =
      q.reduces ack q.rttWindow.getLatestRtt := by
  unfold reduces
  rcases eraseAcked_eq_ok h with ⟨hmem, rfl⟩ | ⟨v, hmem, hv, rfl⟩
  · rw [if_neg hmem]
    exact Bool.false_or _
  · rw [if_pos hmem]
    exact (ackLoop_reports hv).trans (Bool.false_or _)

/-! ### Where the interval is set -/

/-- The interval is half the RTT spread over a window of at least 2. -/
def SpreadOver (rtt : ℚ) (q : MarkovianCC) : Prop :=
  (∃ w, 2 ≤ w ∧ q.curIntersendTime = 1/2*rtt/w) ∧ q.intersendTime = q.curIntersendTime

theorem spreadOver_setIntersendTime (q : MarkovianCC) (w rtt : ℚ) :
    (q.setIntersendTime w rtt).SpreadOver rtt :=
  ⟨⟨max 2 w, le_max_left 2 w, rfl⟩, rfl⟩

theorem SpreadOver.nonneg_iff {rtt : ℚ} {q : MarkovianCC} (h : q.SpreadOver rtt) :
    0 ≤ q.curIntersendTime ↔ 0 ≤ rtt := by
  obtain ⟨⟨w, hw, hcur⟩, -⟩ := h
  have hpos : 0 < w := two_pos.trans_le hw
  rw [hcur, le_div_iff₀ hpos, zero_mul]
  constructor
  · intro h
    linarith
  · intro h
    linarith

/-- The two intervals are what they were. -/
def SameInterval (q t : MarkovianCC) : Prop :=
  t.curIntersendTime = q.curIntersendTime ∧ t.intersendTime = q.intersendTime

theorem interval_updateIntersendTime {e r : MarkovianCC} (h : e.updateIntersendTime = .ok r) :
    if 2*numProbePkts-1 ≤ e.numPktsAcked then r.SpreadOver e.rttWindow.getUnjitteredRtt
    else e.SameInterval r := by
  by_cases hprobe : e.numPktsAcked < 2*numProbePkts-1
  · rw [updateIntersendTime, if_pos hprobe] at h
    cases h
    rw [if_neg (not_le.mpr hprobe)]
    exact ⟨rfl, rfl⟩
  · rw [if_pos (not_lt.mp hprobe)]
    rcases updateIntersendTime_eq_ok h with ⟨hlt, _⟩ | ⟨s, _, rfl⟩
    · exact absurd hlt hprobe
    · exact spreadOver_setIntersendTime s s.theWindow _

theorem interval_reduceWindow (q : MarkovianCC) (reduce : Bool) :
    if reduce || (q.reduceOnLoss.update false q.curTick q.rttWindow.getLatestRtt).2 then
      (q.reduceWindow reduce).SpreadOver q.rttWindow.getUnjitteredRtt
    else q.SameInterval (q.reduceWindow reduce) := by
  unfold reduceWindow
  extract_lets r q'
  split_ifs
  · exact spreadOver_setIntersendTime q' _ _
  · exact ⟨rfl, rfl⟩

/-- What the decision on the window still finds as it was before the losses were counted. -/
structure LossFrame (q t : MarkovianCC) : Prop where
  curTick : t.curTick = q.curTick
  rttWindow : t.rttWindow = q.rttWindow
  interval : q.SameInterval t

theorem lossFrame_eraseAcked {q : MarkovianCC} {seqNum : ℤ} {t : MarkovianCC × Bool × Bool}
    (h : q.eraseAcked seqNum = .ok t) : q.LossFrame t.1 := by
  rcases eraseAcked_eq_ok h with ⟨_, rfl⟩ | ⟨v, _, hv, rfl⟩
  · exact ⟨rfl, rfl, rfl, rfl⟩
  · obtain ⟨a, b, c, d, e, n, l, hframe⟩ := ackLoop_frame hv
    dsimp only
    rw [hframe]
    exact ⟨rfl, rfl, rfl, rfl⟩

theorem lossFrame_updateDelta {q t : MarkovianCC} (h : q.LossFrame t) (lost : Bool) :
    q.LossFrame (if lost then t.updateDelta true 0 else t) ∧
      (if lost then t.updateDelta true 0 else t).reduceOnLoss = t.reduceOnLoss := by
  obtain ⟨i, o, d, p, p', hframe⟩ := updateDelta_frame t true 0
  rw [hframe]
  split_ifs
  · exact ⟨{ h with }, rfl⟩
  · exact ⟨h, rfl⟩

theorem interval_ackTail {r u : MarkovianCC} {ack : ℤ} (h : r.ackTail ack = .ok u) :
    if r.reduces ack r.rttWindow.getLatestRtt then u.SpreadOver r.rttWindow.getUnjitteredRtt
    else r.SameInterval u := by
  obtain ⟨t, ht, rfl⟩ := ackTail_eq_ok h
  obtain ⟨hframe, hloss⟩ := lossFrame_updateDelta (lossFrame_eraseAcked ht) t.2.1
  have hwindow := interval_reduceWindow (if t.2.1 then t.1.updateDelta true 0 else t.1) t.2.2
  rw [hframe.curTick, hframe.rttWindow, hloss, eraseAcked_reports ht] at hwindow
  by_cases hreduce : r.reduces ack r.rttWindow.getLatestRtt = true
  · rw [if_pos hreduce] at hwindow ⊢
    exact hwindow
  · rw [if_neg hreduce] at hwindow ⊢
    exact ⟨hwindow.1.trans hframe.interval.1, hwindow.2.trans hframe.interval.2⟩

theorem reduces_updateIntersendTime {e r : MarkovianCC} (h : e.updateIntersendTime = .ok r)
    (ack : ℤ) (rtt : ℚ) : r.rttWindow = e.rttWindow ∧ r.reduces ack rtt = e.reduces ack rtt := by
  obtain ⟨w, s, a, p, l, c, d, i, j, rfl⟩ := updateIntersendTime_frame h
  exact ⟨rfl, rfl⟩

theorem reduces_ackEntry {q e : MarkovianCC} {sentTime : ℚ} {adjustUs : ℤ}
    (h : q.AckEntry sentTime adjustUs e) (ack : ℤ) (rtt : ℚ) :
    e.rttWindow = q.rttWindow.newRttSample (q.currRtt sentTime adjustUs) q.curTick ∧
      e.reduces ack rtt = q.reduces ack rtt ∧ e.numPktsAcked = q.numPktsAcked ∧
        q.SameInterval e := by
  obtain ⟨f, i, p, rfl⟩ := ackEntry_frame h
  obtain ⟨i', o, d, p', p'', hentry⟩ := updateDelta_frame _ false (q.currRtt sentTime adjustUs)
  rw [hentry]
  exact ⟨rfl, rfl, rfl, rfl, rfl⟩

/-- An ACK sets both intervals by the unjittered RTT of its sample, or leaves both. -/
theorem interval_onACK {q u : MarkovianCC} {ack : ℤ} {sentTime : ℚ} {adjustUs : ℤ}
    (h : q.onACK ack sentTime adjustUs = .ok u) :
    if q.Paces ack sentTime adjustUs then
      u.SpreadOver
        (q.rttWindow.newRttSample (q.currRtt sentTime adjustUs) q.curTick).getUnjitteredRtt
    else q.SameInterval u := by
  obtain ⟨e, r, he, hr, htail⟩ := onACK_eq_ok h
  obtain ⟨hwindow, hentry, hacked, hsame⟩ :=
    reduces_ackEntry he ack (q.currRtt sentTime adjustUs)
  obtain ⟨hwindow', hupdated⟩ := reduces_updateIntersendTime hr ack (q.currRtt sentTime adjustUs)
  have hupdate := interval_updateIntersendTime hr
  have hlost := interval_ackTail htail
  rw [hwindow', hwindow, RTTWindow.getLatestRtt, newRttSample_latestRtt, hupdated, hentry] at hlost
  rw [hwindow, hacked] at hupdate
  by_cases hreduce : q.reduces ack (q.currRtt sentTime adjustUs) = true
  · rw [if_pos hreduce] at hlost
    have hpaces : q.Paces ack sentTime adjustUs := Or.inr hreduce
    rw [if_pos hpaces]
    exact hlost
  · rw [if_neg hreduce] at hlost
    by_cases hprobe : 2*numProbePkts-1 ≤ q.numPktsAcked
    · rw [if_pos hprobe] at hupdate
      have hpaces : q.Paces ack sentTime adjustUs := Or.inl hprobe
      rw [if_pos hpaces]
      obtain ⟨⟨v, hv, hcur⟩, hpace⟩ := hupdate
      exact ⟨⟨v, hv, hlost.1.trans hcur⟩, hlost.2.trans (hpace.trans hlost.1.symm)⟩
    · rw [if_neg hprobe] at hupdate
      have hleft : ¬ q.Paces ack sentTime adjustUs := not_or.mpr ⟨hprobe, hreduce⟩
      rw [if_neg hleft]
      exact ⟨hlost.1.trans (hupdate.1.trans hsame.1), hlost.2.trans (hupdate.2.trans hsame.2)⟩

/-! ### Runs -/

/-- What holds as long as the pacing interval has not been negative. -/
structure PacedForward (q : MarkovianCC) : Prop where
  rttWindow : q.rttWindow.Coherent q.curTick
  externalMinRtt : 0 ≤ q.externalMinRtt
  curIntersendTime : 0 ≤ q.curIntersendTime
  intersendTime : 0 ≤ q.intersendTime

/-- An ACK leaves a pacing interval that is not negative if and only if it finds no negative RTT
where it sets it. -/
theorem intersendTime_onACK_iff {q u : MarkovianCC} (hq : q.PacedForward) {ack : ℤ}
    {sentTime : ℚ} {adjustUs : ℤ} (h : q.onACK ack sentTime adjustUs = .ok u) :
    (0 ≤ u.intersendTime ↔ q.PacesForward (.onACK ack sentTime adjustUs)) ∧
      (0 ≤ u.intersendTime → 0 ≤ u.curIntersendTime) := by
  have hinterval := interval_onACK h
  have hdbl : dblMax < 0 → q.currRtt sentTime adjustUs ≤ dblMax :=
    fun h => absurd h (by norm_num [dblMax])
  have hneg := getUnjitteredRtt_newRttSample_iff (p := fun v => v < 0) hq.rttWindow
    (fun a b hab hb => hab.trans_lt hb) hdbl
  by_cases hpaces : q.Paces ack sentTime adjustUs
  · -- the interval is a positive multiple of the unjittered RTT
    rw [if_pos hpaces] at hinterval
    have hsign : 0 ≤ u.intersendTime ↔ q.PacesForward (.onACK ack sentTime adjustUs) := by
      rw [hinterval.2, hinterval.nonneg_iff, ← not_lt, hneg]
      simp only [PacesForward, hpaces, true_imp_iff, not_or, not_exists, not_and, not_lt]
    exact ⟨hsign, fun hu => hinterval.2 ▸ hu⟩
  · rw [if_neg hpaces] at hinterval
    have hkept : 0 ≤ u.intersendTime := hinterval.2 ▸ hq.intersendTime
    exact ⟨iff_of_true hkept (fun h => absurd h hpaces),
      fun _ => hinterval.1 ▸ hq.curIntersendTime⟩

theorem pacedForward_init {q : MarkovianCC} (hkinds : q.rttWindow.Kinds)
    (hext : 0 ≤ q.externalMinRtt) : q.init.PacedForward where
  rttWindow := coherent_clear hkinds _
  externalMinRtt := hext
  curIntersendTime := le_refl 0
  intersendTime := by
    unfold init
    dsimp only
    split_ifs
    · exact div_nonneg hext (Nat.cast_nonneg _)
    · exact le_refl 0

theorem setMinRtt_externalMinRtt_nonneg {q : MarkovianCC} (hq : 0 ≤ q.externalMinRtt) {x : ℚ}
    (hx : 0 ≤ x) : 0 ≤ if q.externalMinRtt = 0 then x else min q.externalMinRtt x := by
  split_ifs
  · exact hx
  · exact le_min hq hx

/-- A callback whose state before it has been paced forward leaves a pacing interval that is not
negative if and only if it paces forward itself; then the next state is such again. -/
theorem intersendTime_step_iff {q u : MarkovianCC} (hq : q.PacedForward) {c : Callback}
    (hc : q.PacingClock c) (h : q.step c = some u) :
    (0 ≤ u.intersendTime ↔ q.PacesForward c) ∧ (0 ≤ u.intersendTime → u.PacedForward) := by
  have hcoherent : u.rttWindow.Coherent u.curTick :=
    coherent_step hq.rttWindow hc.clockForward h
  cases c with
  | init =>
    cases h
    have hinit := pacedForward_init hq.rttWindow.kinds hq.externalMinRtt
    exact ⟨iff_of_true hinit.intersendTime trivial, fun _ => hinit⟩
  | setMinRtt x =>
    cases h
    have hinit : (q.setMinRtt x).PacedForward := pacedForward_init (q := { q with
      externalMinRtt := if q.externalMinRtt = 0 then x else min q.externalMinRtt x })
      hq.rttWindow.kinds (setMinRtt_externalMinRtt_nonneg hq.externalMinRtt hc)
    exact ⟨iff_of_true hinit.intersendTime trivial, fun _ => hinit⟩
  | setTimestamp now =>
    cases h
    exact ⟨iff_of_true hq.intersendTime trivial,
      fun _ => ⟨hcoherent, hq.externalMinRtt, hq.curIntersendTime, hq.intersendTime⟩⟩
  | onTimeout =>
    cases h
    exact ⟨iff_of_true hq.intersendTime trivial, fun _ => hq⟩
  | onPktSent seqNum =>
    cases h
    obtain ⟨e, i, v, hframe⟩ := onPktSent_frame q seqNum
    rw [hframe] at hcoherent ⊢
    exact ⟨iff_of_true hq.curIntersendTime trivial,
      fun _ => ⟨hcoherent, hq.externalMinRtt, hq.curIntersendTime, hq.curIntersendTime⟩⟩
  | onACK ack sentTime adjustUs =>
    have hack := toOption_eq_some h
    obtain ⟨hiff, hcur⟩ := intersendTime_onACK_iff hq hack
    refine ⟨hiff, fun hu => ⟨hcoherent, ?_, hcur hu, hu⟩⟩
    rw [externalMinRtt_onACK hack]
    exact hq.externalMinRtt

/-- In a run from the start of a flow the pacing interval is never negative if and only if no ACK
that sets it finds a negative RTT in its window. -/
theorem pacing_nonneg_iff {delta : ℚ} {flowId : ℤ} {config : List Char} {q s u : MarkovianCC}
    (hq : (markovianCC delta flowId).interpretConfigStr config = .ok q) {before cs : List Callback}
    (hbefore : run step q before = some s) (hext : 0 ≤ s.externalMinRtt)
    (hclock : RunMeets step PacingClock s.init cs) (hrun : run step s.init cs = some u) :
    RunShows step (fun _ _ t => 0 ≤ t.intersendTime) s.init cs ↔
      RunMeets step PacesForward s.init cs := by
  have hkinds := (sameConfig_run hbefore).kinds (kinds_interpretConfigStr hq)
  refine runShows_iff_runMeets step (fun q c => q.PacingClock c ∧ ∃ t, q.step c = some t)
    PacesForward _ PacedForward ?_ ?_ cs s.init (pacedForward_init hkinds hext)
    (hclock.and (runMeets_defined step hrun))
  · rintro r c hr ⟨hc, t, ht⟩
    have hiff := (intersendTime_step_iff hr hc ht).1
    refine ⟨?_, fun hok => ⟨t, ht, hiff.mpr hok⟩⟩
    rintro ⟨t', ht', hnonneg⟩
    cases ht.symm.trans ht'
    exact hiff.mp hnonneg
  · rintro r c t hr ⟨hc, -⟩ ht hnonneg
    exact (intersendTime_step_iff hr hc ht).2 hnonneg

/-- Twenty ACKs after 20 ms, of which the receiver takes back `adjustUs`. -/
def adjustedAcks (adjustUs : ℤ) : List Callback :=
  .setTimestamp 100 :: List.replicate 20 (.onACK 1 80 adjustUs)

theorem pacing_nonneg_iff_adjustedAcks : ∃ u,
    run step autoHalf.init (adjustedAcks 5000) = some u ∧
    RunShows step (fun _ _ t => 0 ≤ t.intersendTime) autoHalf.init (adjustedAcks 5000) := by
  have hrun := (Option.some_get (x := run step autoHalf.init (adjustedAcks 5000))
    (by decide +kernel)).symm
  exact ⟨_, hrun, (pacing_nonneg_iff autoHalf_configured (run_nil step autoHalf) (le_refl 0)
    (by decide +kernel) hrun).mpr (by decide +kernel)⟩

/-- When it takes back more than the RTT, the interval is negative. -/
theorem pacing_negative :
    ¬ ∀ (delta : ℚ) (flowId : ℤ) (config : List Char) (q u : MarkovianCC) (cs : List Callback),
      (markovianCC delta flowId).interpretConfigStr config = .ok q → q.doSlowStart = true →
      0 < q.delta → RunMeets step PacingClock q.init cs → run step q.init cs = some u →
      0 ≤ u.intersendTime := by
  intro hall
  have hview : (run step autoHalf.init (adjustedAcks 40000)).map intersendTime = some (-10/11) := by
    decide +kernel
  obtain ⟨u, hrun, hneg⟩ := Option.map_eq_some_iff.mp hview
  have hnonneg := hall 1 0 _ autoHalf u (adjustedAcks 40000) autoHalf_configured rfl
    (by norm_num [autoHalf]) (by decide +kernel) hrun
  rw [hneg] at hnonneg
  exact absurd hnonneg (by norm_num)

end MarkovianCC

end CopaNgscope
