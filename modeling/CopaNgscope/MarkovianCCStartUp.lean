import Mathlib.Tactic.FieldSimp
import CopaNgscope.MarkovianCCSafe

/-! The assertion in the start-up of Copa. Without the slow start of the configuration it fails as
soon as the RTT moves: a flow that sends twenty packets is enough, whatever else is configured. -/
namespace CopaNgscope
open RunInvariant

namespace MarkovianCC

/-- What a sender may do between two configurations: the clock does not go back, an ACK comes after
its packet, and its RTT sample is positive. -/
def Admissible (q : MarkovianCC) : Callback → Prop
  | .init | .onPktSent _ => True
  | .setTimestamp now => q.curTick ≤ now
  | .onACK _ sentTime adjustUs => sentTime < q.curTick ∧ 0 < q.currRtt sentTime adjustUs
  | .setMinRtt _ | .onTimeout => False

instance decidableAdmissible (q : MarkovianCC) : ∀ c, Decidable (q.Admissible c)
  | .init | .onPktSent _ => isTrue trivial
  | .setTimestamp now => inferInstanceAs (Decidable (q.curTick ≤ now))
  | .onACK _ sentTime adjustUs =>
    inferInstanceAs (Decidable (sentTime < q.curTick ∧ 0 < q.currRtt sentTime adjustUs))
  | .setMinRtt _ | .onTimeout => isFalse id

/-- With slow start configured no callback fails in start-up. -/
theorem startUp_unreachable {q t : MarkovianCC} (hq : q.doSlowStart = true) {cs : List Callback}
    (hrun : run step q cs = some t) (c : Callback) : t.callback c ≠ .error .startUp := by
  intro h
  cases c with
  | onACK ack sentTime adjustUs =>
    obtain ⟨e, he, hslow⟩ := onACK_eq_error_startUp h
    have hkept := ((sameConfig_run hrun).trans (sameConfig_ackEntry he)).doSlowStart
    rw [hslow, hq] at hkept
    exact Bool.false_ne_true hkept
  | init => cases h
  | setMinRtt x => cases h
  | setTimestamp now => cases h
  | onPktSent seqNum => cases h
  | onTimeout => cases h

/-! ### Where an ACK gets through -/

/-- The RTT window never fails the assertion on its minima. -/
theorem ackSample_of_coherent {q : MarkovianCC} (h : q.rttWindow.Coherent q.curTick) {sentTime : ℚ}
    (hsent : sentTime < q.curTick) (adjustUs : ℤ) :
    q.ackSample sentTime adjustUs = .ok { q with
      rttWindow := q.rttWindow.newRttSample (q.currRtt sentTime adjustUs) q.curTick
      minRtt := (q.rttWindow.newRttSample (q.currRtt sentTime adjustUs) q.curTick).getMinRtt } := by
  have hordered := ordered_newRttSample h le_rfl (q.currRtt sentTime adjustUs)
  unfold ackSample
  rw [if_neg (not_le.mpr hsent), if_neg (not_lt.mpr hordered.min_le_unjittered)]

/-- The entries come in order, so the loop over them ends. -/
theorem ackLoop_of_sorted (seqNum : ℤ) {xs : List (ℤ × PacketData)}
    (hsorted : xs.Pairwise (fun x y => x.1 < y.1)) {tmp : ℤ} (htmp : ∀ x ∈ xs, tmp ≤ x.1)
    (r : MarkovianCC × Bool × Bool) : ∃ s, ackLoop seqNum xs tmp r = .ok s := by
  induction xs generalizing tmp r with
  | nil => exact ⟨r, rfl⟩
  | cons x xs ih =>
    obtain ⟨hx, hxs⟩ := List.pairwise_cons.mp hsorted
    rw [ackLoop, if_neg (not_lt.mpr (htmp x List.mem_cons_self))]
    split_ifs
    · exact ⟨r, rfl⟩
    · exact ih hxs (fun y hy => (hx y hy).le) _

theorem ackTail_of_keys {q : MarkovianCC} (h : ∀ i ∈ q.unacknowledgedPackets.keys, 0 ≤ i)
    (ack : ℤ) : ∃ u, q.ackTail ack = .ok u := by
  have hkeys : ∀ x ∈ q.unacknowledgedPackets.entries, (-1:ℤ) ≤ x.1 := fun x hx =>
    (by norm_num : (-1:ℤ) ≤ 0).trans (h x.1 (List.mem_map_of_mem hx))
  obtain ⟨s, hs⟩ := ackLoop_of_sorted (ack-1) q.unacknowledgedPackets.sorted hkeys
    (q, false, false)
  unfold ackTail eraseAcked
  rw [hs]
  split_ifs
  · exact ⟨_, rfl⟩
  · exact ⟨_, rfl⟩

/-! ### The probing phase -/

/-- The window after `k` RTT samples of 1 at time 2. -/
def probeWindow : ℕ → RTTWindow
  | 0 => CopaNgscope.rttWindow
  | k+1 => (probeWindow k).newRttSample 1 2

/-- A flow in its probing phase at time `t`, with `acked` ACKs done and `samples` RTT samples
taken. -/
structure Probing (t : ℚ) (acked samples : ℕ) (q : MarkovianCC) : Prop where
  noSlowStart : q.doSlowStart = false
  slowStart : q.slowStart = true
  numPktsAcked : q.numPktsAcked = acked
  rttWindow : q.rttWindow = probeWindow samples
  coherent : q.rttWindow.Coherent q.curTick
  keys : ∀ i ∈ q.unacknowledgedPackets.keys, 0 ≤ i
  curTick : q.curTick = t
  deltaTime : q.prevDeltaUpdateTime ≤ 2
  deltaTimeLoss : q.prevDeltaUpdateTimeLoss ≤ 2

theorem probing_init {q : MarkovianCC} (hss : q.doSlowStart = false)
    (hwindow : q.rttWindow = CopaNgscope.rttWindow) :
    q.init.Probing q.curTick 0 0 where
  noSlowStart := hss
  slowStart := rfl
  numPktsAcked := rfl
  rttWindow := congrArg RTTWindow.clear hwindow
  coherent := coherent_clear (by rw [hwindow]; exact ⟨rfl, rfl, rfl, rfl⟩) _
  keys := fun i hi => absurd hi List.not_mem_nil
  curTick := rfl
  deltaTime := by change (0:ℚ) ≤ 2; norm_num
  deltaTimeLoss := by change (0:ℚ) ≤ 2; norm_num

theorem probing_setTimestamp {t now : ℚ} {k : ℕ} {q : MarkovianCC} (h : q.Probing t k k)
    (hnow : t ≤ now) : Probing now k k { q with curTick := now } :=
  { h with
    coherent := h.coherent.mono (h.curTick.trans_le hnow)
    curTick := rfl }

theorem probing_onPktSent {t : ℚ} {k : ℕ} {q : MarkovianCC} (h : q.Probing t k k) {seqNum : ℤ}
    (hseq : 0 ≤ seqNum) : (q.onPktSent seqNum).Probing t k k := by
  obtain ⟨e, i, v, hframe⟩ := onPktSent_frame q seqNum
  rw [hframe]
  refine { h with keys := fun j hj => ?_ }
  rcases (OrderedMap.mem_keys_insert _ _ _ j).mp hj with rfl | hj
  · exact hseq
  · exact h.keys j hj

/-- Delta is updated at the time of the clock. -/
theorem updateDelta_time_le (q : MarkovianCC) (pktLost : Bool) (curRtt : ℚ) {t : ℚ}
    (htick : q.curTick ≤ t) (htime : q.prevDeltaUpdateTime ≤ t)
    (hloss : q.prevDeltaUpdateTimeLoss ≤ t) :
    (q.updateDelta pktLost curRtt).prevDeltaUpdateTime ≤ t ∧
      (q.updateDelta pktLost curRtt).prevDeltaUpdateTimeLoss ≤ t := by
  obtain ⟨i, o, hq⟩ := updateOperationMode_frame q pktLost
  unfold updateDelta updateDeltaDefault updateDeltaCompetitive
  rw [hq]
  extract_lets q' d
  split_ifs
  all_goals first
    | exact ⟨htick, hloss⟩
    | exact ⟨htime, htick⟩
    | exact ⟨htime, hloss⟩

theorem probing_updateDelta {t : ℚ} {acked samples : ℕ} {q : MarkovianCC}
    (h : q.Probing t acked samples) (ht : t ≤ 2) (pktLost : Bool) (curRtt : ℚ) :
    (q.updateDelta pktLost curRtt).Probing t acked samples := by
  obtain ⟨htime, hloss⟩ :=
    updateDelta_time_le q pktLost curRtt (h.curTick.trans_le ht) h.deltaTime h.deltaTimeLoss
  obtain ⟨i, o, d, s, s', hframe⟩ := updateDelta_frame q pktLost curRtt
  rw [hframe] at htime hloss ⊢
  exact { h with deltaTime := htime, deltaTimeLoss := hloss }

/-- The state in which an ACK of the probing phase reaches `update_intersend_time`. -/
theorem probing_ackEntry {k : ℕ} {q : MarkovianCC} (h : q.Probing 2 k k) :
    ∃ a, q.ackSample 1 0 = .ok a ∧
      (a.updateInterarrival.updateDelta false (q.currRtt 1 0)).Probing 2 k (k+1) := by
  have htick := h.curTick
  have hrtt : q.currRtt 1 0 = 1 := by rw [currRtt, htick]; norm_num
  refine ⟨_, ackSample_of_coherent h.coherent (by rw [htick]; norm_num) 0,
    probing_updateDelta ?_ le_rfl _ _⟩
  obtain ⟨f, i, t, hframe⟩ := updateInterarrival_frame { q with
    rttWindow := q.rttWindow.newRttSample (q.currRtt 1 0) q.curTick
    minRtt := (q.rttWindow.newRttSample (q.currRtt 1 0) q.curTick).getMinRtt }
  rw [hframe]
  refine { h with
    rttWindow := ?_
    coherent := coherent_newRttSample h.coherent le_rfl _ }
  rw [hrtt, htick, h.rttWindow]
  rfl

theorem probing_onACK {k : ℕ} (hk : k < 19) {q : MarkovianCC} (h : q.Probing 2 k k) (ack : ℤ) :
    ∃ u, q.onACK ack 1 0 = .ok u ∧ u.Probing 2 (k+1) (k+1) := by
  obtain ⟨a, ha, hentry⟩ := probing_ackEntry h
  have hwait {e : MarkovianCC} (he : e.Probing 2 k (k+1)) : e.updateIntersendTime = .ok e :=
    if_pos (by rw [he.numPktsAcked]; exact hk)
  obtain ⟨u, hu⟩ := ackTail_of_keys hentry.keys ack
  have hok : q.onACK ack 1 0 = .ok u := by
    rw [onACK_of_ackSample ha, hwait hentry]
    exact hu
  refine ⟨u, hok, onACK_rule (Q := Probing 2 k (k+1)) (R := Probing 2 (k+1) (k+1))
    ?_ ?_ ?_ ?_ ?_ ?_ ?_ hok⟩
  · intro e r he hr
    rw [hwait he] at hr
    cases hr
    exact he
  · exact fun r a b c d e n l hr => { hr with }
  · exact fun r seqNum hr =>
      { hr with keys := fun i hi => hr.keys i ((OrderedMap.mem_keys_eraseLE _ _ _).mp hi).1 }
  · exact fun r hr => probing_updateDelta hr le_rfl true 0
  · intro r reduce hr
    obtain ⟨l, w, i, j, hframe⟩ := reduceWindow_frame r reduce
    rw [hframe]
    exact { hr with }
  · exact fun r hr => { hr with numPktsAcked := by rw [hr.numPktsAcked] }
  · rintro e ⟨a', ha', rfl⟩
    cases ha.symm.trans ha'
    exact hentry

/-! ### The first ACK after the probing phase -/

/-- A sample of 2 or 3 at time 100, when the ones of 1 are too old for the short windows. -/
theorem probeWindow_late {r : ℚ} (hr : r = 2 ∨ r = 3) :
    ((probeWindow 19).newRttSample r 100).getMinRtt = 1 ∧
      ((probeWindow 19).newRttSample r 100).getUnjitteredRtt = r ∧
      ((probeWindow 19).newRttSample r 100).isCopa = false := by
  rcases hr with rfl | rfl
  · decide +kernel
  · decide +kernel

theorem delta_updateDeltaDefault_late {q : MarkovianCC} {r : ℚ}
    (h : q.prevDeltaUpdateTimeLoss+r < q.curTick) :
    (q.updateDeltaDefault r).delta =
      min (if q.delta < q.defaultDelta then q.defaultDelta else q.delta) q.defaultDelta := by
  rw [updateDeltaDefault, if_pos (Or.inr h)]

theorem delta_updateDeltaCompetitive_late {q : MarkovianCC} {r : ℚ}
    (h : q.prevDeltaUpdateTime+r < q.curTick) :
    (q.updateDeltaCompetitive false r).delta =
      min (1/(1/(if q.prevDeltaUpdateTime = 0 then q.defaultDelta else q.delta)+1))
        q.defaultDelta := by
  unfold updateDeltaCompetitive
  extract_lets delta
  rw [if_neg (by simp), if_pos h]

/-- Long after the last update, the delta that an update gives does not depend on the RTT. -/
theorem delta_updateDelta_congr {q q' : MarkovianCC} (hmode : q'.utilityMode = q.utilityMode)
    (hoperation : q'.operationMode = q.operationMode) (hdelta : q'.delta = q.delta)
    (hdefault : q'.defaultDelta = q.defaultDelta)
    (htime : q'.prevDeltaUpdateTime = q.prevDeltaUpdateTime)
    (hcopa : q'.rttWindow.isCopa = q.rttWindow.isCopa) {r r' : ℚ}
    (hlate : q.prevDeltaUpdateTime+r < q.curTick ∧ q.prevDeltaUpdateTimeLoss+r < q.curTick)
    (hlate' : q'.prevDeltaUpdateTime+r' < q'.curTick ∧ q'.prevDeltaUpdateTimeLoss+r' < q'.curTick) :
    (q'.updateDelta false r').delta = (q.updateDelta false r).delta := by
  unfold updateDelta
  rw [updateOperationMode_false, updateOperationMode_false, hmode, hoperation, hcopa]
  extract_lets s' s
  by_cases hdef : s.operationMode = .defaultMode ∧ s.utilityMode ≠ .tcpCoop
  · have hdef' : s'.operationMode = .defaultMode ∧ s'.utilityMode ≠ .tcpCoop := hdef
    rw [if_pos hdef, if_pos hdef', delta_updateDeltaDefault_late (q := s) hlate.2,
      delta_updateDeltaDefault_late (q := s') hlate'.2]
    simp only [s, s', hdelta, hdefault]
  · have hdef' : ¬ (s'.operationMode = .defaultMode ∧ s'.utilityMode ≠ .tcpCoop) := hdef
    rw [if_neg hdef, if_neg hdef']
    by_cases hcomp : s.utilityMode = .tcpCoop ∨ s.operationMode = .lossSensitiveMode
    · have hcomp' : s'.utilityMode = .tcpCoop ∨ s'.operationMode = .lossSensitiveMode := hcomp
      rw [if_pos hcomp, if_pos hcomp', delta_updateDeltaCompetitive_late (q := s) hlate.1,
        delta_updateDeltaCompetitive_late (q := s') hlate'.1]
      simp only [s, s', hdelta, hdefault, htime]
    · have hcomp' : ¬ (s'.utilityMode = .tcpCoop ∨ s'.operationMode = .lossSensitiveMode) := hcomp
      rw [if_neg hcomp, if_neg hcomp']
      exact hdelta

/-- The delta of the first ACK after the probing phase, for an RTT of 2 and so for one of 3. -/
def lateDelta (q : MarkovianCC) : ℚ :=
  (updateDelta { q with rttWindow := (probeWindow 19).newRttSample 2 100 } false 2).delta

theorem delta_lateAck {q b : MarkovianCC} (h : q.Probing 100 19 19) {r : ℚ} (hr : r = 2 ∨ r = 3)
    {w i : ℚ} {f : PlainEwma} {p : Percentile}
    (hb : b = { q with
      rttWindow := (probeWindow 19).newRttSample r 100, minRtt := w
      interarrivalEwma := f, interarrival := p, prevAckTime := i }) :
    (b.updateDelta false r).delta = q.lateDelta := by
  obtain ⟨_, _, hcopa⟩ := probeWindow_late hr
  obtain ⟨_, _, hcopa2⟩ := probeWindow_late (r := 2) (Or.inl rfl)
  have hr3 : r ≤ 3 := by rcases hr with rfl | rfl <;> norm_num
  have htime := h.deltaTime
  have hloss := h.deltaTimeLoss
  have htick := h.curTick
  rw [lateDelta]
  subst hb
  apply delta_updateDelta_congr
  · rfl
  · rfl
  · rfl
  · rfl
  · rfl
  · exact hcopa.trans hcopa2.symm
  -- both samples are shorter than the time since the last updates
  · constructor
    · change q.prevDeltaUpdateTime+2 < q.curTick
      linarith
    · change q.prevDeltaUpdateTimeLoss+2 < q.curTick
      linarith
  · constructor
    · change q.prevDeltaUpdateTime+r < q.curTick
      linarith
    · change q.prevDeltaUpdateTimeLoss+r < q.curTick
      linarith

theorem lateAck_entry {q : MarkovianCC} (h : q.Probing 100 19 19) {r : ℚ} (hr : r = 2 ∨ r = 3)
    (ack : ℤ) : ∃ e : MarkovianCC,
      q.onACK ack (100-r) 0 = e.updateIntersendTime.bind (fun u => u.ackTail ack) ∧
      e.doSlowStart = false ∧ e.slowStart = true ∧ e.numPktsAcked = 19 ∧
      e.targetWindow = r/((r-1)*q.lateDelta) := by
  have hr3 : 0 < r ∧ r ≠ 1 := by rcases hr with rfl | rfl <;> norm_num
  obtain ⟨hmin, hunj, _⟩ := probeWindow_late hr
  have htick := h.curTick
  have hrtt : q.currRtt (100-r) 0 = r := by rw [currRtt, htick]; norm_num
  have hsample := ackSample_of_coherent h.coherent (show 100-r < q.curTick by linarith) 0
  rw [hrtt, h.rttWindow, show (probeWindow 19).newRttSample r q.curTick =
    (probeWindow 19).newRttSample r 100 by rw [htick], hmin] at hsample
  refine ⟨_, onACK_of_ackSample hsample, ?_⟩
  rw [hrtt]
  obtain ⟨f, i, t, hframe⟩ := updateInterarrival_frame { q with
    rttWindow := (probeWindow 19).newRttSample r 100, minRtt := 1 }
  have hdelta := delta_lateAck h hr hframe
  obtain ⟨j, o, d, t', t'', hupdate⟩ := updateDelta_frame (updateInterarrival { q with
    rttWindow := (probeWindow 19).newRttSample r 100, minRtt := 1 }) false r
  rw [hupdate] at hdelta ⊢
  rw [hframe]
  refine ⟨h.noSlowStart, h.slowStart, h.numPktsAcked, ?_⟩
  simp only at hdelta
  simp only [targetWindow, queuingDelay, hunj, hdelta]
  exact if_neg (sub_ne_zero.mpr hr3.2)

/-- One of the two RTTs makes the target window another number than the largest `double`. -/
theorem lateAck_fails {q : MarkovianCC} (h : q.Probing 100 19 19) :
    ∃ r, (r = 2 ∨ r = 3) ∧ ∀ ack, q.onACK ack (100-r) 0 = .error .startUp := by
  have hfails {r : ℚ} (hr : r = 2 ∨ r = 3) (htarget : r/((r-1)*q.lateDelta) ≠ dblMax) (ack : ℤ) :
      q.onACK ack (100-r) 0 = .error .startUp := by
    obtain ⟨e, hack, hss, hslow, hacked, hwindow⟩ := lateAck_entry h hr ack
    rw [hack, updateIntersendTime, if_neg (by rw [hacked]; decide), if_pos hslow, startUp, hwindow,
      if_neg (by rw [hss]; simpa using htarget)]
    rfl
  by_cases htwo : (2:ℚ)/((2-1)*q.lateDelta) = dblMax
  · refine ⟨3, Or.inr rfl, hfails (Or.inr rfl) (fun hthree => ?_)⟩
    have hmax : dblMax ≠ 0 := by decide +kernel
    have hdelta : q.lateDelta ≠ 0 := by
      rintro h0
      rw [h0] at htwo
      exact hmax (by simpa using htwo.symm)
    have heq := htwo.trans hthree.symm
    field_simp at heq
    norm_num at heq
  · exact ⟨2, Or.inl rfl, hfails (Or.inl rfl) htwo⟩

/-! ### The flow that fails -/

/-- The first nineteen packets are acknowledged with an RTT of 1. -/
def probePackets : List Callback :=
  (List.range 19).map (fun k : ℕ => .onPktSent k) ++
    (.setTimestamp 2 :: (List.range 19).map (fun k : ℕ => .onACK (k+1) 1 0))

/-- Two more are sent at the times 97 and 98. -/
def latePackets : List Callback :=
  [.setTimestamp 97, .onPktSent 19, .setTimestamp 98, .onPktSent 20, .setTimestamp 100]

theorem probePackets_run {q : MarkovianCC} (h : q.Probing 1 0 0) :
    ∃ t, RunsTo step Admissible q probePackets t ∧ t.Probing 2 19 19 := by
  obtain ⟨s, hsent, hs⟩ := runsTo_map_range step Admissible (fun _ s => s.Probing 1 0 0)
    (fun k : ℕ => .onPktSent k) (n := 19)
    (fun k _ s hs => ⟨trivial, _, rfl, probing_onPktSent hs (Int.natCast_nonneg k)⟩) h
  obtain ⟨t, hacked, ht⟩ := runsTo_map_range step Admissible (fun k s => s.Probing 2 k k)
    (fun k : ℕ => .onACK (k+1) 1 0) (n := 19) (fun k hk s hs => by
      obtain ⟨u, hu, hprobing⟩ := probing_onACK hk hs (k+1)
      refine ⟨?_, u, by rw [step, callback, hu]; rfl, hprobing⟩
      simp only [Admissible, currRtt, hs.curTick]
      norm_num)
    (probing_setTimestamp hs (by norm_num))
  refine ⟨t, hsent.append (RunsTo.cons ?_ rfl hacked), ht⟩
  simp only [Admissible, hs.curTick]
  norm_num

theorem latePackets_run {q : MarkovianCC} (h : q.Probing 2 19 19) :
    ∃ t, RunsTo step Admissible q latePackets t ∧ t.Probing 100 19 19 := by
  have h97 := probing_onPktSent (probing_setTimestamp h (show (2:ℚ) ≤ 97 by norm_num))
    (show (0:ℤ) ≤ 19 by norm_num)
  have h98 := probing_onPktSent (probing_setTimestamp h97 (show (97:ℚ) ≤ 98 by norm_num))
    (show (0:ℤ) ≤ 20 by norm_num)
  refine ⟨_, RunsTo.cons ?_ rfl (RunsTo.cons trivial rfl (RunsTo.cons ?_ rfl
    (RunsTo.cons trivial rfl (RunsTo.cons ?_ rfl (runsTo_nil step _ _))))),
    probing_setTimestamp h98 (by norm_num)⟩
  · simp only [Admissible, h.curTick]
    norm_num
  · simp only [Admissible, h97.curTick]
    norm_num
  · simp only [Admissible, h98.curTick]
    norm_num

/-- Without slow start in the configuration, the assertion fails in a flow of 21 packets. -/
theorem startUp_reachable {q : MarkovianCC} (hss : q.doSlowStart = false)
    (hwindow : q.rttWindow = CopaNgscope.rttWindow) (htick : q.curTick ≤ 1) :
    ∃ cs c t, RunMeets step Admissible q (cs ++ [c]) ∧ run step q cs = some t ∧
      t.callback c = .error .startUp := by
  obtain ⟨s, hprobe, hs⟩ := probePackets_run
    (probing_setTimestamp (probing_init hss hwindow) htick)
  obtain ⟨t, hlate, ht⟩ := latePackets_run hs
  have hrun : RunsTo step Admissible q
      (.init :: .setTimestamp 1 :: (probePackets ++ latePackets)) t :=
    RunsTo.cons trivial rfl (RunsTo.cons htick rfl (hprobe.append hlate))
  obtain ⟨r, hr, hfails⟩ := lateAck_fails ht
  refine ⟨_, .onACK (if r = 2 then 21 else 20) (100-r) 0, t,
    (runMeets_append step Admissible hrun.1).mpr ⟨hrun.2, ?_, fun _ _ => trivial⟩, hrun.1,
    hfails _⟩
  simp only [Admissible, currRtt, ht.curTick]
  rcases hr with rfl | rfl <;> norm_num

/-- Whatever string configures Copa, no flow fails the assertion in start-up exactly when the
string begins with the slow start prefix. -/
theorem startUp_never_fails_iff {delta : ℚ} {flowId : ℤ} {config : List Char} {q : MarkovianCC}
    (hq : (markovianCC delta flowId).interpretConfigStr config = .ok q) :
    (∀ cs c t, RunMeets step Admissible q (cs ++ [c]) → run step q cs = some t →
      t.callback c ≠ .error .startUp) ↔ config.take 6 = "do_ss:".toList := by
  obtain ⟨k, m, d, v, b, c, hframe⟩ := interpretConfigStr_frame hq
  have hconf : q.doSlowStart = decide (config.take 6 = "do_ss:".toList) := by
    rw [hframe]
    exact Bool.or_false _
  constructor
  · intro hsafe
    by_contra hss
    obtain ⟨cs, c, t, hmeets, hrun, hfail⟩ := startUp_reachable
      (hconf.trans (decide_eq_false hss)) (by rw [hframe]; rfl)
      (by rw [hframe]; exact zero_le_one)
    exact hsafe cs c t hmeets hrun hfail
  · intro hss cs c t _ hrun
    exact startUp_unreachable (hconf.trans (decide_eq_true hss)) hrun c

/-- It never fails for `do_ss:auto:0.5`, and it can fail for `constant_delta:1`. -/
theorem startUp_never_fails_auto :
    (∀ cs c t, RunMeets step Admissible autoHalf (cs ++ [c]) → run step autoHalf cs = some t →
      t.callback c ≠ .error .startUp) ∧
    ¬ ∀ cs c t, RunMeets step Admissible constantDeltaOne (cs ++ [c]) →
      run step constantDeltaOne cs = some t → t.callback c ≠ .error .startUp :=
  ⟨(startUp_never_fails_iff autoHalf_configured).mpr (by decide),
    (startUp_never_fails_iff constantDeltaOne_configured).not.mpr (by decide)⟩

/-- The documented configuration `constant_delta:1` fails at the 21st packet. -/
theorem startUp_fails_constant_delta :
    (markovianCC 1 0).interpretConfigStr "constant_delta:1".toList = .ok constantDeltaOne ∧
    RunMeets step Admissible constantDeltaOne
      (.init :: .setTimestamp 1 :: (probePackets ++ latePackets) ++ [.onACK 21 98 0]) ∧
    (run step constantDeltaOne (.init :: .setTimestamp 1 :: (probePackets ++ latePackets))).map
      (fun t => (t.callback (.onACK 21 98 0)).map (fun _ => ())) = some (.error .startUp) :=
  ⟨constantDeltaOne_configured, by decide +kernel, by decide +kernel⟩

end MarkovianCC

end CopaNgscope
