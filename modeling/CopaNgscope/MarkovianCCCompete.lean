import CopaNgscope.MarkovianCCSafe

/-! How fast Copa becomes aggressive when it competes. The inverse of delta is the number of packets
that a flow aims to keep in the queue, and it grows by one for each RTT at most. -/
namespace CopaNgscope
open RunInvariant

/-- The last update was at `t`. Delta is at most its default `d`, and its inverse has grown by one
for each `r` from `t₀` to then. -/
structure QueueTarget (d r t₀ delta t : ℚ) : Prop where
  delta_pos : 0 < delta
  delta_le : delta ≤ d
  inverse : (t = 0 ∧ delta = d) ∨ (t₀ ≤ t ∧ 1/delta ≤ 1/d+1+(t-t₀)/r)

section
variable {d r t₀ delta t : ℚ}

theorem one_div_min_le {a b : ℚ} (ha : 1/a ≤ b) (hd : 1/d ≤ b) : 1/min a d ≤ b := by
  rcases min_choice a d with h | h
  · rw [h]
    exact ha
  · rw [h]
    exact hd

/-- The default is within every bound. -/
theorem one_div_default_le (hr : 0 < r) (ht : t₀ ≤ t) : 1/d ≤ 1/d+1+(t-t₀)/r := by
  have hgrown : 0 ≤ (t-t₀)/r := div_nonneg (sub_nonneg.mpr ht) hr.le
  linarith only [hgrown]

theorem QueueTarget.default (hd : 0 < d) (hr : 0 < r) (ht : t₀ ≤ t) : QueueTarget d r t₀ d t :=
  ⟨hd, le_rfl, Or.inr ⟨ht, one_div_default_le hr ht⟩⟩

/-- A loss doubles delta up to the default, and the bound stays. -/
theorem QueueTarget.double (hd : 0 < d) (hr : 0 < r) (h : QueueTarget d r t₀ delta t) :
    QueueTarget d r t₀ (min (delta*2) d) t := by
  refine ⟨lt_min (mul_pos h.delta_pos two_pos) hd, min_le_right _ _, ?_⟩
  cases h.inverse with
  | inl hfirst =>
    refine Or.inl ⟨hfirst.1, ?_⟩
    rw [hfirst.2]
    exact min_eq_right (le_mul_of_one_le_right hd.le one_le_two)
  | inr hlater =>
    refine Or.inr ⟨hlater.1, one_div_min_le ?_ (one_div_default_le hr hlater.1)⟩
    calc 1/(delta*2)
      _ ≤ 1/delta := one_div_le_one_div_of_le h.delta_pos
          (le_mul_of_one_le_right h.delta_pos.le one_le_two)
      _ ≤ _ := hlater.2

/-- One packet more in the queue, when an RTT of `r` or more has gone by. -/
theorem QueueTarget.grow (hd : 0 < d) (hr : 0 < r) (h : QueueTarget d r t₀ delta t)
    {curRtt now : ℚ} (hrtt : r ≤ curRtt) (hnow : t₀ ≤ now) (htime : t+curRtt < now) :
    QueueTarget d r t₀ (min (1/(1/delta+1)) d) now := by
  have hinv : 0 < 1/delta+1 := add_pos (one_div_pos.mpr h.delta_pos) one_pos
  refine ⟨lt_min (one_div_pos.mpr hinv) hd, min_le_right _ _, Or.inr ⟨hnow, ?_⟩⟩
  apply one_div_min_le _ (one_div_default_le hr hnow)
  rw [one_div_one_div]
  cases h.inverse with
  | inl hfirst =>
    rw [hfirst.2, le_add_iff_nonneg_right]
    exact div_nonneg (sub_nonneg.mpr hnow) hr.le
  | inr hlater =>
    -- the time since the last update pays for the step
    have hgap : 1 ≤ (now-t)/r := by
      rw [one_le_div hr]
      linarith only [hrtt, htime]
    calc 1/delta+1
      _ ≤ 1/d+1+(t-t₀)/r+(now-t)/r := add_le_add hlater.2 hgap
      _ = 1/d+1+(now-t₀)/r := by ring

end

namespace MarkovianCC

/-- An ACK is later than the one before it, and its adjusted RTT is at least `r`. -/
def AcksApart (r : ℚ) (q : MarkovianCC) : Callback → Prop
  | .onACK _ sentTime adjustUs => q.prevAckTime < q.curTick ∧ r ≤ q.currRtt sentTime adjustUs
  | _ => True

instance decidableAcksApart (r : ℚ) (q : MarkovianCC) : ∀ c, Decidable (q.AcksApart r c)
  | .onACK _ sentTime adjustUs => inferInstanceAs
    (Decidable (q.prevAckTime < q.curTick ∧ r ≤ q.currRtt sentTime adjustUs))
  | .init | .setMinRtt _ | .setTimestamp _ | .onPktSent _ | .onTimeout => isTrue trivial

/-- The modes in which delta is updated. -/
def Competes (q : MarkovianCC) : Prop := q.utilityMode = .autoMode ∨ q.utilityMode = .tcpCoop

variable {d r t₀ : ℚ}

/-! ### Updates -/

theorem queueTarget_updateDeltaDefault (hd : 0 < d) (hr : 0 < r) {q : MarkovianCC}
    (hdefault : q.defaultDelta = d) (htick : t₀ ≤ q.curTick)
    (hq : q.prevDeltaUpdateTime = 0 ∨ QueueTarget d r t₀ q.delta q.prevDeltaUpdateTime)
    (curRtt : ℚ) : QueueTarget d r t₀ (q.updateDeltaDefault curRtt).delta
      (q.updateDeltaDefault curRtt).prevDeltaUpdateTime := by
  unfold updateDeltaDefault
  by_cases hcond : q.prevDeltaUpdateTime = 0 ∨ q.prevDeltaUpdateTimeLoss+curRtt < q.curTick
  · rw [if_pos hcond, min_toward_default, hdefault]
    exact QueueTarget.default hd hr htick
  · rw [if_neg hcond]
    exact hq.resolve_left (fun h => hcond (Or.inl h))

theorem queueTarget_updateDeltaCompetitive (hd : 0 < d) (hr : 0 < r) {q : MarkovianCC}
    (hdefault : q.defaultDelta = d) (htick : t₀ ≤ q.curTick)
    (hq : q.prevDeltaUpdateTime = 0 ∨ QueueTarget d r t₀ q.delta q.prevDeltaUpdateTime)
    {pktLost : Bool} {curRtt : ℚ}
    (hlost : pktLost = true → q.prevDeltaUpdateTimeLoss+curRtt < q.curTick)
    (hkept : pktLost = false → r ≤ curRtt) :
    QueueTarget d r t₀ (q.updateDeltaCompetitive pktLost curRtt).delta
      (q.updateDeltaCompetitive pktLost curRtt).prevDeltaUpdateTime := by
  unfold updateDeltaCompetitive
  rw [hdefault]
  extract_lets delta
  have hstart : QueueTarget d r t₀ delta q.prevDeltaUpdateTime := by
    dsimp only [delta]
    split_ifs with hfirst
    · exact ⟨hd, le_rfl, Or.inl ⟨hfirst, rfl⟩⟩
    · exact hq.resolve_left hfirst
  cases pktLost with
  | true =>
    rw [if_pos ⟨rfl, hlost rfl⟩]
    exact hstart.double hd hr
  | false =>
    rw [if_neg (fun h => Bool.false_ne_true h.1)]
    by_cases htime : q.prevDeltaUpdateTime+curRtt < q.curTick
    · rw [if_pos htime]
      exact hstart.grow hd hr (hkept rfl) htick htime
    · rw [if_neg htime, min_eq_left hstart.delta_le]
      exact hstart

theorem updateDelta_competes {q : MarkovianCC} (h : q.Competes) (pktLost : Bool) (curRtt : ℚ) :
    ∃ i o, q.updateDelta pktLost curRtt =
        updateDeltaDefault { q with isUniform := i, operationMode := o } curRtt ∨
      q.updateDelta pktLost curRtt =
        updateDeltaCompetitive { q with isUniform := i, operationMode := o } pktLost curRtt := by
  cases h with
  | inl hauto => exact updateDelta_autoMode hauto pktLost curRtt
  | inr hcoop =>
    have hsame : q.updateOperationMode pktLost = q := by
      have hauto : q.utilityMode ≠ .autoMode := by
        rw [hcoop]
        exact UtilityMode.noConfusion
      exact if_neg hauto
    refine ⟨q.isUniform, q.operationMode, Or.inr ?_⟩
    rw [updateDelta, hsame]
    exact (if_neg (fun h => h.2 hcoop)).trans (if_pos (Or.inl hcoop))

theorem queueTarget_updateDelta (hd : 0 < d) (hr : 0 < r) {q : MarkovianCC} (hmode : q.Competes)
    (hdefault : q.defaultDelta = d) (htick : t₀ ≤ q.curTick)
    (hq : q.prevDeltaUpdateTime = 0 ∨ QueueTarget d r t₀ q.delta q.prevDeltaUpdateTime)
    {pktLost : Bool} {curRtt : ℚ}
    (hlost : pktLost = true → q.prevDeltaUpdateTimeLoss+curRtt < q.curTick)
    (hkept : pktLost = false → r ≤ curRtt) :
    QueueTarget d r t₀ (q.updateDelta pktLost curRtt).delta
      (q.updateDelta pktLost curRtt).prevDeltaUpdateTime := by
  obtain ⟨i, o, h | h⟩ := updateDelta_competes hmode pktLost curRtt
  · rw [h]
    apply queueTarget_updateDeltaDefault hd hr
    · exact hdefault
    · exact htick
    · exact hq
  · rw [h]
    apply queueTarget_updateDeltaCompetitive hd hr
    · exact hdefault
    · exact htick
    · exact hq
    · exact hlost
    · exact hkept

theorem updateDeltaDefault_times (q : MarkovianCC) (curRtt : ℚ) :
    ((q.updateDeltaDefault curRtt).prevDeltaUpdateTime = q.prevDeltaUpdateTime ∨
      (q.updateDeltaDefault curRtt).prevDeltaUpdateTime = q.curTick) ∧
    (q.updateDeltaDefault curRtt).prevDeltaUpdateTimeLoss = q.prevDeltaUpdateTimeLoss := by
  rw [updateDeltaDefault]
  by_cases hcond : q.prevDeltaUpdateTime = 0 ∨ q.prevDeltaUpdateTimeLoss+curRtt < q.curTick
  · rw [if_pos hcond]
    exact ⟨Or.inr rfl, rfl⟩
  · rw [if_neg hcond]
    exact ⟨Or.inl rfl, rfl⟩

theorem updateDeltaCompetitive_times (q : MarkovianCC) (pktLost : Bool) (curRtt : ℚ) :
    ((q.updateDeltaCompetitive pktLost curRtt).prevDeltaUpdateTime = q.prevDeltaUpdateTime ∨
      (q.updateDeltaCompetitive pktLost curRtt).prevDeltaUpdateTime = q.curTick) ∧
    ((q.updateDeltaCompetitive pktLost curRtt).prevDeltaUpdateTimeLoss =
        q.prevDeltaUpdateTimeLoss ∨
      (pktLost = true ∧
        (q.updateDeltaCompetitive pktLost curRtt).prevDeltaUpdateTimeLoss = q.curTick)) := by
  unfold updateDeltaCompetitive
  extract_lets delta
  by_cases hlost : pktLost = true ∧ q.prevDeltaUpdateTimeLoss+curRtt < q.curTick
  · rw [if_pos hlost]
    exact ⟨Or.inl rfl, Or.inr ⟨hlost.1, rfl⟩⟩
  · rw [if_neg hlost]
    by_cases htime : q.prevDeltaUpdateTime+curRtt < q.curTick
    · rw [if_pos htime]
      exact ⟨Or.inr rfl, Or.inl rfl⟩
    · rw [if_neg htime]
      exact ⟨Or.inl rfl, Or.inl rfl⟩

/-- An update is at the present time, and only a loss is noted as one. -/
theorem updateDelta_times {q : MarkovianCC} (h : q.Competes) (pktLost : Bool) (curRtt : ℚ) :
    ((q.updateDelta pktLost curRtt).prevDeltaUpdateTime = q.prevDeltaUpdateTime ∨
      (q.updateDelta pktLost curRtt).prevDeltaUpdateTime = q.curTick) ∧
    ((q.updateDelta pktLost curRtt).prevDeltaUpdateTimeLoss = q.prevDeltaUpdateTimeLoss ∨
      (pktLost = true ∧ (q.updateDelta pktLost curRtt).prevDeltaUpdateTimeLoss = q.curTick)) := by
  obtain ⟨i, o, hcase | hcase⟩ := updateDelta_competes h pktLost curRtt
  · rw [hcase]
    exact (updateDeltaDefault_times { q with isUniform := i, operationMode := o } curRtt).imp_right
      Or.inl
  · rw [hcase]
    exact updateDeltaCompetitive_times { q with isUniform := i, operationMode := o } pktLost curRtt

/-! ### Acknowledgements -/

/-- Delta is updated, with default `d`, and its updates are before the last ACK. -/
structure UpdatesPast (d t₀ : ℚ) (q : MarkovianCC) : Prop where
  competes : q.Competes
  defaultDelta : q.defaultDelta = d
  start : t₀ ≤ q.curTick
  prevDelta_nonneg : 0 ≤ q.prevDeltaUpdateTime
  prevDelta_le : q.prevDeltaUpdateTime ≤ q.prevAckTime
  prevLoss_le : q.prevDeltaUpdateTimeLoss ≤ q.prevAckTime
  prevAck_le : q.prevAckTime ≤ q.curTick

/-- Between callbacks; from the first ACK on delta has its bound. -/
structure Competing (d r t₀ : ℚ) (q : MarkovianCC) : Prop extends q.UpdatesPast d t₀ where
  target : (q.numPktsAcked = 0 ∧ q.prevDeltaUpdateTime = 0) ∨
    QueueTarget d r t₀ q.delta q.prevDeltaUpdateTime

/-- From the RTT sample of an ACK to its end. -/
structure Acking (d r t₀ : ℚ) (q : MarkovianCC) : Prop extends q.UpdatesPast d t₀ where
  prevAck : q.prevAckTime = q.curTick
  target : QueueTarget d r t₀ q.delta q.prevDeltaUpdateTime

theorem UpdatesPast.tick_nonneg {q : MarkovianCC} (h : q.UpdatesPast d t₀) : 0 ≤ q.curTick :=
  (h.prevDelta_nonneg.trans h.prevDelta_le).trans h.prevAck_le

theorem competing_init {q : MarkovianCC} (hmode : q.Competes) (hdefault : q.defaultDelta = d)
    (hstart : t₀ ≤ q.curTick) (htick : 0 ≤ q.curTick) : q.init.Competing d r t₀ where
  competes := hmode
  defaultDelta := hdefault
  start := hstart
  prevDelta_nonneg := le_rfl
  prevDelta_le := le_rfl
  prevLoss_le := le_rfl
  prevAck_le := htick
  target := Or.inl ⟨rfl, rfl⟩

/-- Every update keeps the times in the past of an ACK that arrives now. -/
theorem acking_updateDelta (hd : 0 < d) (hr : 0 < r) {q : MarkovianCC} (h : q.UpdatesPast d t₀)
    (hnow : q.prevAckTime = q.curTick)
    (hq : q.prevDeltaUpdateTime = 0 ∨ QueueTarget d r t₀ q.delta q.prevDeltaUpdateTime)
    {pktLost : Bool} {curRtt : ℚ}
    (hlost : pktLost = true → q.prevDeltaUpdateTimeLoss+curRtt < q.curTick)
    (hkept : pktLost = false → r ≤ curRtt) : (q.updateDelta pktLost curRtt).Acking d r t₀ := by
  have htarget := queueTarget_updateDelta hd hr h.competes h.defaultDelta h.start hq hlost hkept
  obtain ⟨hprev, hloss⟩ := updateDelta_times h.competes pktLost curRtt
  obtain ⟨i, o, x, t, t', hframe⟩ := updateDelta_frame q pktLost curRtt
  rw [hframe] at htarget hprev hloss ⊢
  refine ⟨⟨h.competes, h.defaultDelta, h.start, ?_, ?_, ?_, hnow.le⟩, hnow, htarget⟩
  · cases hprev with
    | inl hsame => exact h.prevDelta_nonneg.trans_eq hsame.symm
    | inr hupdated => exact h.tick_nonneg.trans_eq hupdated.symm
  · cases hprev with
    | inl hsame => exact hsame.trans_le h.prevDelta_le
    | inr hupdated => exact hupdated.trans_le hnow.ge
  · cases hloss with
    | inl hsame => exact hsame.trans_le h.prevLoss_le
    | inr hupdated => exact hupdated.2.trans_le hnow.ge

/-- Without a loss the time of the last one stays. -/
theorem prevLoss_updateDelta_false {q : MarkovianCC} (h : q.Competes) (curRtt : ℚ) :
    (q.updateDelta false curRtt).prevDeltaUpdateTimeLoss = q.prevDeltaUpdateTimeLoss :=
  (updateDelta_times h false curRtt).2.resolve_right (fun hlost => Bool.false_ne_true hlost.1)

theorem updateInterarrival_now (q : MarkovianCC) : ∃ e i, q.updateInterarrival =
    { q with interarrivalEwma := e, interarrival := i, prevAckTime := q.curTick } := by
  unfold updateInterarrival
  split_ifs
  · exact ⟨_, _, rfl⟩
  · exact ⟨_, _, rfl⟩

/-- The head of an ACK grows the inverse of delta when it may, and a loss was noted before. -/
theorem acking_ackEntry (hd : 0 < d) (hr : 0 < r) {q e : MarkovianCC} (h : q.Competing d r t₀)
    {sentTime : ℚ} {adjustUs : ℤ} (hlater : q.prevAckTime < q.curTick)
    (hrtt : r ≤ q.currRtt sentTime adjustUs) (he : q.AckEntry sentTime adjustUs e) :
    e.Acking d r t₀ ∧ e.prevDeltaUpdateTimeLoss < e.curTick := by
  obtain ⟨a, ha, rfl⟩ := he
  obtain ⟨_, rfl⟩ := ackSample_eq_ok ha
  let w := q.rttWindow.newRttSample (q.currRtt sentTime adjustUs) q.curTick
  obtain ⟨f, i, hframe⟩ :=
    updateInterarrival_now { q with rttWindow := w, minRtt := w.getMinRtt }
  let s : MarkovianCC := { q with
    rttWindow := w, minRtt := w.getMinRtt, interarrivalEwma := f, interarrival := i
    prevAckTime := q.curTick }
  have hpast : s.UpdatesPast d t₀ :=
    { h.toUpdatesPast with
      prevDelta_le := h.prevDelta_le.trans h.prevAck_le
      prevLoss_le := h.prevLoss_le.trans h.prevAck_le
      prevAck_le := le_rfl }
  have hacking : (s.updateDelta false (q.currRtt sentTime adjustUs)).Acking d r t₀ :=
    acking_updateDelta hd hr hpast rfl (h.target.imp_left And.right)
      (fun hlost => absurd hlost Bool.false_ne_true) (fun _ => hrtt)
  have hloss : (s.updateDelta false (q.currRtt sentTime adjustUs)).prevDeltaUpdateTimeLoss <
      (s.updateDelta false (q.currRtt sentTime adjustUs)).curTick := by
    rw [prevLoss_updateDelta_false hpast.competes]
    obtain ⟨_, _, _, _, _, hdelta⟩ := updateDelta_frame s false (q.currRtt sentTime adjustUs)
    rw [hdelta]
    exact h.prevLoss_le.trans_lt hlater
  rw [hframe]
  exact ⟨hacking, hloss⟩

theorem competing_onACK (hd : 0 < d) (hr : 0 < r) {q u : MarkovianCC} {ack : ℤ} {sentTime : ℚ}
    {adjustUs : ℤ} (hq : q.Competing d r t₀) (hlater : q.prevAckTime < q.curTick)
    (hrtt : r ≤ q.currRtt sentTime adjustUs) (h : q.onACK ack sentTime adjustUs = .ok u) :
    u.Competing d r t₀ := by
  obtain ⟨e, v, he, hv, htail⟩ := onACK_eq_ok h
  obtain ⟨w, hw, rfl⟩ := ackTail_eq_ok htail
  have herased : w.1.Acking d r t₀ ∧ w.1.prevDeltaUpdateTimeLoss < w.1.curTick := by
    obtain ⟨hacking, hloss⟩ := acking_ackEntry hd hr hq hlater hrtt he
    obtain ⟨x, s, a, p, l, c, k, i, j, rfl⟩ := updateIntersendTime_frame hv
    rcases eraseAcked_eq_ok hw with ⟨_, rfl⟩ | ⟨z, _, hz, rfl⟩
    · exact ⟨{ hacking with }, hloss⟩
    · obtain ⟨_, _, _, _, _, _, _, hframe⟩ := ackLoop_frame hz
      rw [hframe]
      exact ⟨{ hacking with }, hloss⟩
  have hnoted : (if w.2.1 then w.1.updateDelta true 0 else w.1).Acking d r t₀ := by
    split_ifs
    · -- the first loss at this time: delta is doubled, however short ago it was updated
      apply acking_updateDelta hd hr herased.1.toUpdatesPast herased.1.prevAck
      · exact Or.inr herased.1.target
      · exact fun _ => (add_zero _).trans_lt herased.2
      · exact fun hkept => absurd hkept.symm Bool.false_ne_true
    · exact herased.1
  obtain ⟨l, x, i, j, hframe⟩ :=
    reduceWindow_frame (if w.2.1 then w.1.updateDelta true 0 else w.1) w.2.2
  rw [hframe]
  exact { hnoted with target := Or.inr hnoted.target }

/-! ### Runs -/

theorem competing_step (hd : 0 < d) (hr : 0 < r) {q u : MarkovianCC} {c : Callback}
    (hq : q.Competing d r t₀) (hmeets : q.ClockForward c ∧ q.AcksApart r c)
    (h : q.step c = some u) : u.Competing d r t₀ := by
  cases c with
  | init =>
    cases h
    exact competing_init hq.competes hq.defaultDelta hq.start hq.tick_nonneg
  | setMinRtt x =>
    cases h
    apply competing_init
    · exact hq.competes
    · exact hq.defaultDelta
    · exact hq.start
    · exact hq.tick_nonneg
  | setTimestamp now =>
    cases h
    exact { hq with start := hq.start.trans hmeets.1, prevAck_le := hq.prevAck_le.trans hmeets.1 }
  | onTimeout =>
    cases h
    exact hq
  | onPktSent seqNum =>
    cases h
    obtain ⟨e, i, v, hframe⟩ := onPktSent_frame q seqNum
    rw [hframe]
    exact { hq with }
  | onACK ack sentTime adjustUs =>
    exact competing_onACK hd hr hq hmeets.2.1 hmeets.2.2 (toOption_eq_some h)

/-- Until the first ACK delta is not updated. -/
theorem unacked_run {q s : MarkovianCC} {cs : List Callback}
    (hnone : ∀ ack sentTime adjustUs, Callback.onACK ack sentTime adjustUs ∉ cs)
    (hrun : run step q.init cs = some s) : s.numPktsAcked = 0 ∧ s.prevDeltaUpdateTime = 0 := by
  have hmeets : RunMeets step (fun _ c => ∀ ack sentTime adjustUs, c ≠ .onACK ack sentTime adjustUs)
      q.init cs := by
    rw [runMeets_actions_iff step _ hrun]
    intro c hc ack sentTime adjustUs heq
    exact hnone ack sentTime adjustUs (heq ▸ hc)
  refine run_invariant_of_meets step (fun s => s.numPktsAcked = 0 ∧ s.prevDeltaUpdateTime = 0) _
    (fun s c t hs hother h => ?_) ⟨rfl, rfl⟩ hmeets hrun
  cases c with
  | init | setMinRtt x =>
    cases h
    exact ⟨rfl, rfl⟩
  | setTimestamp now | onTimeout =>
    cases h
    exact hs
  | onPktSent seqNum =>
    cases h
    obtain ⟨e, i, v, hframe⟩ := onPktSent_frame s seqNum
    rw [hframe]
    exact hs
  | onACK ack sentTime adjustUs => exact absurd rfl (hother ack sentTime adjustUs)

/-- In a mode that updates delta, whatever was before `init`, a flow whose RTTs are at least `r`
aims to keep at most one packet in the queue for each `r` since its first ACK, besides the inverse
of the default and one. -/
theorem queue_target_bounded (hd : 0 < d) (hr : 0 < r) {q s u : MarkovianCC}
    {before after : List Callback} {ack : ℤ} {sentTime : ℚ} {adjustUs : ℤ}
    (hmode : q.Competes) (hdefault : q.defaultDelta = d) (htick : 0 ≤ q.curTick)
    (hfirst : ∀ ack sentTime adjustUs, Callback.onACK ack sentTime adjustUs ∉ before)
    (hbefore : run step q.init before = some s)
    (hclock : RunMeets step ClockForward q.init
      (before ++ .onACK ack sentTime adjustUs :: after))
    (hacks : RunMeets step (AcksApart r) q.init
      (before ++ .onACK ack sentTime adjustUs :: after))
    (hrun : run step q.init (before ++ .onACK ack sentTime adjustUs :: after) = some u)
    (hacked : 0 < u.numPktsAcked) :
    0 < u.delta ∧ u.delta ≤ d ∧ 1/u.delta ≤ 1/d+1+(u.curTick-s.curTick)/r := by
  obtain ⟨hmeets, hmeets'⟩ := (runMeets_append step _ hbefore).mp (hclock.and hacks)
  obtain ⟨s', hs', hafter⟩ := (run_append_eq_some step).mp hrun
  obtain rfl := Option.some.inj (hbefore.symm.trans hs')
  -- the bound counts from the first ACK, since nothing was updated before it
  have hstart : s.Competing d r q.curTick :=
    run_invariant_of_meets step (Competing d r q.curTick)
      (fun q c => q.ClockForward c ∧ q.AcksApart r c) (fun _ _ _ => competing_step hd hr)
      (competing_init hmode hdefault le_rfl htick) hmeets hbefore
  have hnow : s.Competing d r s.curTick :=
    { hstart with start := le_rfl, target := Or.inl (unacked_run hfirst hbefore) }
  have hfinal : u.Competing d r s.curTick :=
    run_invariant_of_meets step (Competing d r s.curTick)
      (fun q c => q.ClockForward c ∧ q.AcksApart r c) (fun _ _ _ => competing_step hd hr)
      hnow hmeets' hafter
  have htarget := hfinal.target.resolve_left (fun h => hacked.ne' h.1)
  refine ⟨htarget.delta_pos, htarget.delta_le, ?_⟩
  cases htarget.inverse with
  | inl hdefaulted =>
    rw [hdefaulted.2]
    exact one_div_default_le hr hfinal.start
  | inr hlater =>
    have hpast : u.prevDeltaUpdateTime ≤ u.curTick := hfinal.prevDelta_le.trans hfinal.prevAck_le
    apply hlater.2.trans
    gcongr

/-- Three packets with an RTT of 100 ms over an empty queue, where Copa competes. The first ACK
comes at 110. -/
def emptyQueueAcks : List Callback :=
  [.setTimestamp 10, .onPktSent 0, .setTimestamp 110] ++ .onACK 1 10 0 ::
    [.setTimestamp 120, .onPktSent 1, .setTimestamp 220, .onACK 2 120 0, .setTimestamp 230,
      .onPktSent 2, .setTimestamp 330, .onACK 3 230 0]

theorem queue_target_bounded_emptyQueueAcks :
    ∃ u, run step autoHalf.init emptyQueueAcks = some u ∧ 0 < u.delta ∧ u.delta ≤ 1/2 ∧
      1/u.delta ≤ 1/(1/2)+1+(u.curTick-110)/100 := by
  have hrun := (Option.some_get (x := run step autoHalf.init emptyQueueAcks)
    (by decide +kernel)).symm
  have hbefore := (Option.some_get (x := run step autoHalf.init
    [.setTimestamp 10, .onPktSent 0, .setTimestamp 110]) (by decide +kernel)).symm
  obtain ⟨hpos, hle, hinverse⟩ := queue_target_bounded (d := 1/2) (r := 100) (by norm_num)
    (by norm_num) (Or.inl rfl) rfl le_rfl (by simp) hbefore (by decide +kernel)
    (by decide +kernel) hrun (by decide +kernel)
  have htick : ((run step autoHalf.init [.setTimestamp 10, .onPktSent 0, .setTimestamp 110]).get
      (by decide +kernel)).curTick = 110 := by decide +kernel
  rw [htick] at hinverse
  exact ⟨_, hrun, hpos, hle, hinverse⟩

end MarkovianCC

end CopaNgscope
