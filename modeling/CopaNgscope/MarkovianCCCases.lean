import Mathlib.Tactic.SplitIfs
import CopaNgscope.MarkovianCCConfig
import CopaNgscope.RttWindowOrder
import CopaNgscope.SenderAck

/-! What each function of `markoviancc.cc` can do: its outcomes, and the fields it may write. -/
namespace CopaNgscope
open RunInvariant

namespace MarkovianCC

/-! ### Outcomes -/

theorem toOption_eq_some {ε σ : Type*} {x : Except ε σ} {r : σ} (h : x.toOption = some r) :
    x = .ok r := by
  cases x with
  | error e => cases h
  | ok s => cases h; rfl

theorem ackSample_eq_ok {q r : MarkovianCC} {sentTime : ℚ} {adjustUs : ℤ}
    (h : q.ackSample sentTime adjustUs = .ok r) :
    sentTime < q.curTick ∧
      r = { q with
        rttWindow := q.rttWindow.newRttSample (q.currRtt sentTime adjustUs) q.curTick
        minRtt :=
          (q.rttWindow.newRttSample (q.currRtt sentTime adjustUs) q.curTick).getMinRtt } := by
  unfold ackSample at h
  extract_lets w at h
  split_ifs at h with hsent hmin
  cases h
  exact ⟨not_le.mp hsent, rfl⟩

/-- The state in which an ACK reaches `update_intersend_time`. -/
def AckEntry (q : MarkovianCC) (sentTime : ℚ) (adjustUs : ℤ) (e : MarkovianCC) : Prop :=
  ∃ a, q.ackSample sentTime adjustUs = .ok a ∧
    e = a.updateInterarrival.updateDelta false (q.currRtt sentTime adjustUs)

theorem onACK_eq_ok {q u : MarkovianCC} {ack : ℤ} {sentTime : ℚ} {adjustUs : ℤ}
    (h : q.onACK ack sentTime adjustUs = .ok u) :
    ∃ e r, q.AckEntry sentTime adjustUs e ∧ e.updateIntersendTime = .ok r ∧
      r.ackTail ack = .ok u := by
  unfold onACK at h
  cases ha : q.ackSample sentTime adjustUs with
  | error e => rw [ha] at h; cases h
  | ok a =>
    rw [ha] at h
    cases hr : (a.updateInterarrival.updateDelta false
        (q.currRtt sentTime adjustUs)).updateIntersendTime with
    | error e => simp only [bind, Except.bind, hr] at h; cases h
    | ok r =>
      simp only [bind, Except.bind, hr] at h
      exact ⟨_, r, ⟨a, ha, rfl⟩, hr, h⟩

theorem onACK_of_ackSample {q a : MarkovianCC} {ack : ℤ} {sentTime : ℚ} {adjustUs : ℤ}
    (h : q.ackSample sentTime adjustUs = .ok a) :
    q.onACK ack sentTime adjustUs =
      (a.updateInterarrival.updateDelta false
        (q.currRtt sentTime adjustUs)).updateIntersendTime.bind (fun r => r.ackTail ack) := by
  unfold onACK
  rw [h]
  rfl

theorem updateIntersendTime_eq_ok {q r : MarkovianCC} (h : q.updateIntersendTime = .ok r) :
    (q.numPktsAcked < 19 ∧ r = q) ∨
      ∃ s, (q.slowStart = true ∧ q.startUp q.targetWindow = .ok s ∨
          q.slowStart = false ∧ s = q.steadyState q.targetWindow) ∧
        r = s.setIntersendTime s.theWindow q.rttWindow.getUnjitteredRtt := by
  unfold updateIntersendTime at h
  split_ifs at h with hprobe hslow
  · cases h
    exact Or.inl ⟨hprobe, rfl⟩
  · cases hs : q.startUp q.targetWindow with
    | error e => rw [hs] at h; cases h
    | ok s =>
      rw [hs] at h
      cases h
      exact Or.inr ⟨s, Or.inl ⟨hslow, rfl⟩, rfl⟩
  · cases h
    exact Or.inr ⟨_, Or.inr ⟨Bool.eq_false_iff.mpr hslow, rfl⟩, rfl⟩

theorem startUp_eq_ok {q s : MarkovianCC} {target : ℚ} (h : q.startUp target = .ok s) :
    (q.doSlowStart = true ∨ target = dblMax) ∧
      s = { q with
        theWindow := q.theWindow+1
        slowStart := if target ≤ q.theWindow+1 then false else q.slowStart } := by
  unfold startUp at h
  by_cases hcond : q.doSlowStart = true ∨ target = dblMax
  · rw [if_pos hcond] at h
    cases h
    exact ⟨hcond, rfl⟩
  · rw [if_neg hcond] at h
    cases h

theorem updateIntersendTime_eq_error {q : MarkovianCC} {x : Assertion}
    (h : q.updateIntersendTime = .error x) : q.doSlowStart = false ∧ x = .startUp := by
  unfold updateIntersendTime at h
  split_ifs at h with hprobe hslow
  · unfold startUp at h
    by_cases hcond : q.doSlowStart = true ∨ q.targetWindow = dblMax
    · rw [if_pos hcond] at h
      cases h
    · rw [if_neg hcond] at h
      cases h
      exact ⟨Bool.eq_false_iff.mpr (fun hs => hcond (Or.inl hs)), rfl⟩
  · cases h

theorem ackLoop_eq_error {seqNum : ℤ} {xs : List (ℤ × PacketData)} {tmp : ℤ}
    {r : MarkovianCC × Bool × Bool} {x : Assertion} (h : ackLoop seqNum xs tmp r = .error x) :
    x = .seqNumOrder := by
  induction xs generalizing tmp r with
  | nil => cases h
  | cons y ys ih =>
    rw [ackLoop] at h
    split_ifs at h
    · cases h
      rfl
    · exact ih h

theorem ackTail_eq_error {q : MarkovianCC} {ack : ℤ} {x : Assertion}
    (h : q.ackTail ack = .error x) : x = .seqNumOrder := by
  unfold ackTail eraseAcked at h
  split_ifs at h
  · cases hloop : ackLoop (ack-1) q.unacknowledgedPackets.entries (-1) (q, false, false) with
    | error y =>
      rw [hloop] at h
      cases h
      exact ackLoop_eq_error hloop
    | ok t =>
      rw [hloop] at h
      cases h
  · cases h

/-- Without the slow start of the configuration, an ACK can fail in start-up. -/
theorem onACK_eq_error_startUp {q : MarkovianCC} {ack : ℤ} {sentTime : ℚ} {adjustUs : ℤ}
    (h : q.onACK ack sentTime adjustUs = .error .startUp) :
    ∃ e, q.AckEntry sentTime adjustUs e ∧ e.doSlowStart = false := by
  cases ha : q.ackSample sentTime adjustUs with
  | error x =>
    unfold onACK at h
    rw [ha] at h
    cases h
    unfold ackSample at ha
    extract_lets w at ha
    split_ifs at ha
    · cases ha
    · cases ha
  | ok a =>
    rw [onACK_of_ackSample ha] at h
    cases hr : (a.updateInterarrival.updateDelta false
        (q.currRtt sentTime adjustUs)).updateIntersendTime with
    | error x => exact ⟨_, ⟨a, ha, rfl⟩, (updateIntersendTime_eq_error hr).1⟩
    | ok r =>
      rw [hr] at h
      exact absurd (ackTail_eq_error h) (by decide)

theorem eraseAcked_eq_ok {q : MarkovianCC} {seqNum : ℤ} {r : MarkovianCC × Bool × Bool}
    (h : q.eraseAcked seqNum = .ok r) :
    (seqNum ∉ q.unacknowledgedPackets.keys ∧ r = (q, false, false)) ∨
      ∃ t, seqNum ∈ q.unacknowledgedPackets.keys ∧
        ackLoop seqNum q.unacknowledgedPackets.entries (-1) (q, false, false) = .ok t ∧
        r =
          ({ t.1 with unacknowledgedPackets := q.unacknowledgedPackets.eraseLE seqNum }, t.2) := by
  unfold eraseAcked at h
  split_ifs at h with hmem
  · cases ht : ackLoop seqNum q.unacknowledgedPackets.entries (-1) (q, false, false) with
    | error e => rw [ht] at h; cases h
    | ok t =>
      rw [ht] at h
      cases h
      exact Or.inr ⟨t, hmem, rfl, rfl⟩
  · cases h
    exact Or.inl ⟨hmem, rfl⟩

theorem ackTail_eq_ok {q u : MarkovianCC} {ack : ℤ} (h : q.ackTail ack = .ok u) :
    ∃ r : MarkovianCC × Bool × Bool, q.eraseAcked (ack-1) = .ok r ∧
      u = { (if r.2.1 then r.1.updateDelta true 0 else r.1).reduceWindow r.2.2 with
        numPktsAcked :=
          ((if r.2.1 then r.1.updateDelta true 0
            else r.1).reduceWindow r.2.2).numPktsAcked+1 } := by
  unfold ackTail at h
  cases hr : q.eraseAcked (ack-1) with
  | error e => rw [hr] at h; cases h
  | ok r =>
    rw [hr] at h
    cases h
    exact ⟨r, rfl, rfl⟩

/-! ### Equations -/

/-- Without a loss only the mode of operation is written. -/
theorem updateOperationMode_false (q : MarkovianCC) :
    q.updateOperationMode false = { q with
      operationMode :=
        if q.utilityMode = .autoMode then
          if q.rttWindow.isCopa then .defaultMode else .lossSensitiveMode
        else q.operationMode } := by
  unfold updateOperationMode
  by_cases h : q.utilityMode = .autoMode
  · rw [if_pos h, if_pos h]
    rfl
  · rw [if_neg h, if_neg h]

/-- Working toward the default gets there at once. -/
theorem min_toward_default (delta defaultDelta : ℚ) :
    min (if delta < defaultDelta then defaultDelta else delta) defaultDelta = defaultDelta := by
  split_ifs with h
  · exact min_self _
  · exact min_eq_right (not_lt.mp h)

/-- Before the first update of a flow it does, and afterwards delta stays the default. -/
theorem delta_updateDeltaDefault {q : MarkovianCC} (curRtt : ℚ)
    (h : q.prevDeltaUpdateTime = 0 ∨ q.delta = q.defaultDelta) :
    (q.updateDeltaDefault curRtt).delta = q.defaultDelta := by
  unfold updateDeltaDefault
  by_cases hcond : q.prevDeltaUpdateTime = 0 ∨ q.prevDeltaUpdateTimeLoss+curRtt < q.curTick
  · rw [if_pos hcond]
    exact min_toward_default _ _
  · rw [if_neg hcond]
    exact h.resolve_left (fun hfirst => hcond (Or.inl hfirst))

/-! ### Frames -/

theorem updateInterarrival_frame (q : MarkovianCC) : ∃ e i t, q.updateInterarrival =
    { q with interarrivalEwma := e, interarrival := i, prevAckTime := t } := by
  unfold updateInterarrival
  split_ifs
  · exact ⟨_, _, _, rfl⟩
  · exact ⟨_, _, _, rfl⟩

theorem ackEntry_frame {q e : MarkovianCC} {sentTime : ℚ} {adjustUs : ℤ}
    (h : q.AckEntry sentTime adjustUs e) : ∃ f i t, e = updateDelta { q with
      rttWindow := q.rttWindow.newRttSample (q.currRtt sentTime adjustUs) q.curTick
      minRtt := (q.rttWindow.newRttSample (q.currRtt sentTime adjustUs) q.curTick).getMinRtt
      interarrivalEwma := f, interarrival := i, prevAckTime := t } false
        (q.currRtt sentTime adjustUs) := by
  obtain ⟨a, ha, rfl⟩ := h
  obtain ⟨_, rfl⟩ := ackSample_eq_ok ha
  obtain ⟨f, i, t, hframe⟩ := updateInterarrival_frame { q with
    rttWindow := q.rttWindow.newRttSample (q.currRtt sentTime adjustUs) q.curTick
    minRtt := (q.rttWindow.newRttSample (q.currRtt sentTime adjustUs) q.curTick).getMinRtt }
  rw [hframe]
  exact ⟨f, i, t, rfl⟩

theorem updateOperationMode_frame (q : MarkovianCC) (pktLost : Bool) :
    ∃ i o, q.updateOperationMode pktLost = { q with isUniform := i, operationMode := o } := by
  unfold updateOperationMode
  by_cases h : q.utilityMode = .autoMode
  · rw [if_pos h]
    exact ⟨_, _, rfl⟩
  · rw [if_neg h]
    exact ⟨_, _, rfl⟩

theorem updateDeltaDefault_frame (q : MarkovianCC) (curRtt : ℚ) :
    ∃ d t, q.updateDeltaDefault curRtt = { q with delta := d, prevDeltaUpdateTime := t } := by
  unfold updateDeltaDefault
  by_cases h : q.prevDeltaUpdateTime = 0 ∨ q.prevDeltaUpdateTimeLoss+curRtt < q.curTick
  · rw [if_pos h]
    exact ⟨_, _, rfl⟩
  · rw [if_neg h]
    exact ⟨_, _, rfl⟩

theorem updateDeltaCompetitive_frame (q : MarkovianCC) (pktLost : Bool) (curRtt : ℚ) :
    ∃ d t t', q.updateDeltaCompetitive pktLost curRtt =
      { q with delta := d, prevDeltaUpdateTime := t, prevDeltaUpdateTimeLoss := t' } := by
  unfold updateDeltaCompetitive
  extract_lets delta
  by_cases hlost : pktLost = true ∧ q.prevDeltaUpdateTimeLoss+curRtt < q.curTick
  · rw [if_pos hlost]
    exact ⟨_, _, _, rfl⟩
  · rw [if_neg hlost]
    by_cases htime : q.prevDeltaUpdateTime+curRtt < q.curTick
    · rw [if_pos htime]
      exact ⟨_, _, _, rfl⟩
    · rw [if_neg htime]
      exact ⟨_, _, _, rfl⟩

theorem updateDelta_frame (q : MarkovianCC) (pktLost : Bool) (curRtt : ℚ) :
    ∃ i o d t t', q.updateDelta pktLost curRtt =
      { q with
        isUniform := i, operationMode := o, delta := d, prevDeltaUpdateTime := t
        prevDeltaUpdateTimeLoss := t' } := by
  obtain ⟨i, o, hq⟩ := updateOperationMode_frame q pktLost
  unfold updateDelta
  rw [hq]
  extract_lets q'
  split_ifs
  · obtain ⟨d, t, h⟩ :=
      updateDeltaDefault_frame { q with isUniform := i, operationMode := o } curRtt
    exact ⟨_, _, _, _, _, h⟩
  · obtain ⟨d, t, t', h⟩ :=
      updateDeltaCompetitive_frame { q with isUniform := i, operationMode := o } pktLost curRtt
    exact ⟨_, _, _, _, _, h⟩
  · exact ⟨_, _, _, _, _, rfl⟩

theorem updateAmtPerRtt_frame (q : MarkovianCC) : ∃ a p l c d, q.updateAmtPerRtt =
    { q with
      updateAmt := a, prevUpdateDir := p, lastUpdateTime := l, pktsPerRtt := c
      updateDir := d } := by
  unfold updateAmtPerRtt
  by_cases h : q.lastUpdateTime+q.rttWindow.getLatestRtt < q.curTick
  · rw [if_pos h]
    exact ⟨_, _, _, _, _, rfl⟩
  · rw [if_neg h]
    exact ⟨_, _, _, _, _, rfl⟩

theorem steadyState_frame (q : MarkovianCC) (target : ℚ) : ∃ w a p l c d, q.steadyState target =
    { q with
      theWindow := w, updateAmt := a, prevUpdateDir := p, lastUpdateTime := l, pktsPerRtt := c
      updateDir := d } := by
  obtain ⟨a, p, l, c, d, hq⟩ := updateAmtPerRtt_frame q
  unfold steadyState
  rw [hq]
  extract_lets updateAmt updateAmt' q'
  split_ifs
  · exact ⟨_, _, _, _, _, _, rfl⟩
  · exact ⟨_, _, _, _, _, _, rfl⟩

theorem updateIntersendTime_frame {q r : MarkovianCC} (h : q.updateIntersendTime = .ok r) :
    ∃ w s a p l c d i j, r =
      { q with
        theWindow := w, slowStart := s, updateAmt := a, prevUpdateDir := p, lastUpdateTime := l
        pktsPerRtt := c, updateDir := d, curIntersendTime := i, intersendTime := j } := by
  rcases updateIntersendTime_eq_ok h with ⟨_, rfl⟩ | ⟨s, ⟨_, hs⟩ | ⟨_, rfl⟩, rfl⟩
  · exact ⟨_, _, _, _, _, _, _, _, _, rfl⟩
  · obtain ⟨_, rfl⟩ := startUp_eq_ok hs
    exact ⟨_, _, _, _, _, _, _, _, _, rfl⟩
  · obtain ⟨w, a, p, l, c, d, hs⟩ := steadyState_frame q q.targetWindow
    rw [hs]
    exact ⟨_, _, _, _, _, _, _, _, _, rfl⟩

theorem ackVisit_frame (r : MarkovianCC × Bool × Bool) (x : PacketData) (lost : Bool) :
    ∃ a b c d e n l, (ackVisit r x lost).1 =
      { r.1 with
        prevIntersendTime := a, prevIntersendTimeVel := b, prevRtt := c, prevRttUpdateTime := d
        prevAvgSendingRate := e, numPktsLost := n, reduceOnLoss := l } := by
  cases lost with
  | false => exact ⟨_, _, _, _, _, _, _, rfl⟩
  | true => exact ⟨_, _, _, _, _, _, _, rfl⟩

theorem ackLoop_frame {seqNum : ℤ} {xs : List (ℤ × PacketData)} {tmp : ℤ}
    {r s : MarkovianCC × Bool × Bool} (h : ackLoop seqNum xs tmp r = .ok s) :
    ∃ a b c d e n l, s.1 =
      { r.1 with
        prevIntersendTime := a, prevIntersendTimeVel := b, prevRtt := c, prevRttUpdateTime := d
        prevAvgSendingRate := e, numPktsLost := n, reduceOnLoss := l } := by
  induction xs generalizing tmp r with
  | nil =>
    cases h
    exact ⟨_, _, _, _, _, _, _, rfl⟩
  | cons x xs ih =>
    rw [ackLoop] at h
    split_ifs at h
    · cases h
      exact ⟨_, _, _, _, _, _, _, rfl⟩
    · obtain ⟨_, _, _, _, _, _, _, hrest⟩ := ih h
      obtain ⟨_, _, _, _, _, _, _, hvisit⟩ := ackVisit_frame r x.2 (x.1 < seqNum)
      rw [hrest, hvisit]
      exact ⟨_, _, _, _, _, _, _, rfl⟩

theorem reduceWindow_frame (q : MarkovianCC) (reduce : Bool) : ∃ l w i j, q.reduceWindow reduce =
    { q with reduceOnLoss := l, theWindow := w, curIntersendTime := i, intersendTime := j } := by
  unfold reduceWindow setIntersendTime
  extract_lets r q'
  split_ifs
  · exact ⟨_, _, _, _, rfl⟩
  · exact ⟨_, _, _, _, rfl⟩

theorem unackedLoop_frame (xs : List (ℤ × PacketData)) (q : MarkovianCC) :
    ∃ e i v, unackedLoop xs q =
      { q with rttUnacked := e, prevIntersendTime := i, prevIntersendTimeVel := v } := by
  induction xs generalizing q with
  | nil => exact ⟨_, _, _, rfl⟩
  | cons x xs ih =>
    rw [unackedLoop]
    split_ifs
    · exact ih _
    · exact ⟨_, _, _, rfl⟩

theorem onPktSent_frame (q : MarkovianCC) (seqNum : ℤ) :
    ∃ e i v, q.onPktSent seqNum =
      { q with
        unacknowledgedPackets := q.unacknowledgedPackets.insert seqNum q.packetData
        rttUnacked := e, prevIntersendTime := i, prevIntersendTimeVel := v
        numPktsSent := q.numPktsSent+1
        intersendTime := q.curIntersendTime } := by
  unfold onPktSent
  obtain ⟨e, i, v, h⟩ := unackedLoop_frame
    (q.unacknowledgedPackets.insert seqNum q.packetData).entries
    { q with
      unacknowledgedPackets := q.unacknowledgedPackets.insert seqNum q.packetData
      rttUnacked := q.rttUnacked.forceSet q.rttWindow.getUnjitteredRtt }
  simp only
  rw [h]
  exact ⟨e, i, v, rfl⟩

/-! ### The rule for an acknowledgement -/

/-- What holds when an ACK reaches `update_intersend_time` and is kept by the functions that run
after it holds up to the point where the ACK is counted. -/
theorem onACK_rule {Q R : MarkovianCC → Prop}
    (hupdate : ∀ e r, Q e → e.updateIntersendTime = .ok r → Q r)
    (hvisit : ∀ q a b c d e n l, Q q → Q { q with
      prevIntersendTime := a, prevIntersendTimeVel := b, prevRtt := c, prevRttUpdateTime := d
      prevAvgSendingRate := e, numPktsLost := n, reduceOnLoss := l })
    (herase : ∀ q seqNum, Q q →
      Q { q with unacknowledgedPackets := q.unacknowledgedPackets.eraseLE seqNum })
    (hdelta : ∀ q, Q q → Q (q.updateDelta true 0))
    (hreduce : ∀ q reduce, Q q → Q (q.reduceWindow reduce))
    (hacked : ∀ q, Q q → R { q with numPktsAcked := q.numPktsAcked+1 })
    {q u : MarkovianCC} {ack : ℤ} {sentTime : ℚ} {adjustUs : ℤ}
    (hentry : ∀ e, q.AckEntry sentTime adjustUs e → Q e)
    (h : q.onACK ack sentTime adjustUs = .ok u) : R u := by
  obtain ⟨e, r, he, hr, htail⟩ := onACK_eq_ok h
  have hQr : Q r := hupdate e r (hentry e he) hr
  obtain ⟨t, ht, rfl⟩ := ackTail_eq_ok htail
  have hQt : Q t.1 := by
    rcases eraseAcked_eq_ok ht with ⟨_, rfl⟩ | ⟨v, _, hv, rfl⟩
    · exact hQr
    · obtain ⟨a, b, c, d, e, n, l, hframe⟩ := ackLoop_frame hv
      rw [hframe]
      exact herase _ (ack-1) (hvisit r a b c d e n l hQr)
  have hQd : Q (if t.2.1 then t.1.updateDelta true 0 else t.1) := by
    split_ifs
    · exact hdelta _ hQt
    · exact hQt
  exact hacked _ (hreduce _ _ hQd)

/-! ### The RTT window -/

/-- The RTT window, and what an ACK does not write. -/
def ackFixed (q : MarkovianCC) : RTTWindow × ℚ × ℚ := (q.rttWindow, q.curTick, q.externalMinRtt)

theorem ackFixed_updateDelta (q : MarkovianCC) (pktLost : Bool) (curRtt : ℚ) :
    (q.updateDelta pktLost curRtt).ackFixed = q.ackFixed := by
  obtain ⟨i, o, d, t, t', h⟩ := updateDelta_frame q pktLost curRtt
  rw [h]
  rfl

/-- An ACK gives the RTT window its sample and nothing else. -/
theorem ackFixed_onACK {q u : MarkovianCC} {ack : ℤ} {sentTime : ℚ} {adjustUs : ℤ}
    (h : q.onACK ack sentTime adjustUs = .ok u) :
    u.ackFixed = (q.rttWindow.newRttSample (q.currRtt sentTime adjustUs) q.curTick,
      q.curTick, q.externalMinRtt) := by
  let Q : MarkovianCC → Prop := fun e =>
    e.ackFixed = (q.rttWindow.newRttSample (q.currRtt sentTime adjustUs) q.curTick,
      q.curTick, q.externalMinRtt)
  refine onACK_rule (Q := Q) (R := Q) ?_ ?_ ?_ ?_ ?_ ?_ ?_ h
  · intro e r he hr
    obtain ⟨w, s, a, p, l, c, d, i, j, rfl⟩ := updateIntersendTime_frame hr
    exact he
  · exact fun r a b c d e n l hr => hr
  · exact fun r m hr => hr
  · exact fun r hr => (ackFixed_updateDelta r true 0).trans hr
  · intro r reduce hr
    obtain ⟨l, w, i, j, hframe⟩ := reduceWindow_frame r reduce
    rw [hframe]
    exact hr
  · exact fun r hr => hr
  · intro e he
    obtain ⟨f, i, t, rfl⟩ := ackEntry_frame he
    exact ackFixed_updateDelta _ _ _

theorem rttWindow_onACK {q u : MarkovianCC} {ack : ℤ} {sentTime : ℚ} {adjustUs : ℤ}
    (h : q.onACK ack sentTime adjustUs = .ok u) :
    u.rttWindow = q.rttWindow.newRttSample (q.currRtt sentTime adjustUs) q.curTick :=
  congrArg Prod.fst (ackFixed_onACK h)

theorem curTick_onACK {q u : MarkovianCC} {ack : ℤ} {sentTime : ℚ} {adjustUs : ℤ}
    (h : q.onACK ack sentTime adjustUs = .ok u) : u.curTick = q.curTick :=
  congrArg (fun x => x.2.1) (ackFixed_onACK h)

theorem externalMinRtt_onACK {q u : MarkovianCC} {ack : ℤ} {sentTime : ℚ} {adjustUs : ℤ}
    (h : q.onACK ack sentTime adjustUs = .ok u) : u.externalMinRtt = q.externalMinRtt :=
  congrArg (fun x => x.2.2) (ackFixed_onACK h)

/-- The head of `onACK` by itself does to the RTT window what `onACK` does. -/
theorem onAckSample_of_onACK {q u : MarkovianCC} {ack : ℤ} {sentTime : ℚ} {adjustUs : ℤ}
    (h : q.onACK ack sentTime adjustUs = .ok u) :
    onAckSample q.rttWindow q.curTick sentTime adjustUs = some u.rttWindow := by
  obtain ⟨e, r, ⟨a, ha, _⟩, _⟩ := onACK_eq_ok h
  rw [onAckSample, if_pos (ackSample_eq_ok ha).1, rttWindow_onACK h, currRtt]

/-! ### The configuration -/

/-- Nothing that was configured differs, nor what the trackers of the RTT window look for. -/
structure SameConfig (q u : MarkovianCC) : Prop where
  utilityMode : u.utilityMode = q.utilityMode
  doSlowStart : u.doSlowStart = q.doSlowStart
  keepExtMinRtt : u.keepExtMinRtt = q.keepExtMinRtt
  defaultDelta : u.defaultDelta = q.defaultDelta
  kinds : q.rttWindow.Kinds → u.rttWindow.Kinds

theorem SameConfig.refl (q : MarkovianCC) : q.SameConfig q := ⟨rfl, rfl, rfl, rfl, id⟩

theorem SameConfig.trans {q r u : MarkovianCC} (h : q.SameConfig r) (h' : r.SameConfig u) :
    q.SameConfig u where
  utilityMode := h'.utilityMode.trans h.utilityMode
  doSlowStart := h'.doSlowStart.trans h.doSlowStart
  keepExtMinRtt := h'.keepExtMinRtt.trans h.keepExtMinRtt
  defaultDelta := h'.defaultDelta.trans h.defaultDelta
  kinds := h'.kinds ∘ h.kinds

theorem sameConfig_updateDelta (q : MarkovianCC) (pktLost : Bool) (curRtt : ℚ) :
    q.SameConfig (q.updateDelta pktLost curRtt) := by
  obtain ⟨i, o, d, t, t', h⟩ := updateDelta_frame q pktLost curRtt
  rw [h]
  exact ⟨rfl, rfl, rfl, rfl, id⟩

theorem sameConfig_ackEntry {q e : MarkovianCC} {sentTime : ℚ} {adjustUs : ℤ}
    (h : q.AckEntry sentTime adjustUs e) : q.SameConfig e := by
  obtain ⟨f, i, t, rfl⟩ := ackEntry_frame h
  refine SameConfig.trans ?_ (sameConfig_updateDelta _ _ _)
  exact ⟨rfl, rfl, rfl, rfl, fun hk => hk⟩

theorem sameConfig_onACK {q u : MarkovianCC} {ack : ℤ} {sentTime : ℚ} {adjustUs : ℤ}
    (h : q.onACK ack sentTime adjustUs = .ok u) : q.SameConfig u := by
  refine onACK_rule (Q := q.SameConfig) ?_ ?_ ?_ ?_ ?_ ?_ (fun e he => sameConfig_ackEntry he) h
  · intro e r he hr
    obtain ⟨w, s, a, p, l, c, d, i, j, rfl⟩ := updateIntersendTime_frame hr
    exact { he with }
  · exact fun r a b c d e n l hr => { hr with }
  · exact fun r m hr => { hr with }
  · exact fun r hr => hr.trans (sameConfig_updateDelta r true 0)
  · intro r reduce hr
    obtain ⟨l, w, i, j, hframe⟩ := reduceWindow_frame r reduce
    rw [hframe]
    exact { hr with }
  · exact fun r hr => { hr with }

theorem sameConfig_step {q u : MarkovianCC} {c : Callback} (h : q.step c = some u) :
    q.SameConfig u := by
  cases c with
  | init => cases h; exact ⟨rfl, rfl, rfl, rfl, id⟩
  | setMinRtt x => cases h; exact ⟨rfl, rfl, rfl, rfl, id⟩
  | setTimestamp now => cases h; exact ⟨rfl, rfl, rfl, rfl, id⟩
  | onTimeout => cases h; exact SameConfig.refl q
  | onPktSent seqNum =>
    cases h
    obtain ⟨e, i, v, hframe⟩ := onPktSent_frame q seqNum
    rw [hframe]
    exact ⟨rfl, rfl, rfl, rfl, id⟩
  | onACK ack sentTime adjustUs => exact sameConfig_onACK (toOption_eq_some h)

theorem sameConfig_run {q u : MarkovianCC} {cs : List Callback} (h : run step q cs = some u) :
    q.SameConfig u :=
  run_invariant step q.SameConfig (fun _ _ _ hs hstep => hs.trans (sameConfig_step hstep))
    (SameConfig.refl q) h

end MarkovianCC

end CopaNgscope
