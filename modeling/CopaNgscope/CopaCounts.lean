import CopaNgscope.CopaFlow

/-! The packet counters of Copa in a flow of single packets: what they count is what the sender put
on the network and took for ACKs since Copa was started. -/
namespace CopaNgscope
open RunInvariant MarkovianCC

section
variable (c : FlowConfig)

/-- The step does not start Copa anew. -/
def NoRestart (s : Sender MarkovianCC) : SendAction → Prop
  | .enter now => ¬ (2000 < now-s.lastAckTime ∧ FlowOpen c s now)
  | _ => True

instance (s : Sender MarkovianCC) : DecidablePred (NoRestart c s)
  | .enter now => inferInstanceAs (Decidable (¬ (2000 < now-s.lastAckTime ∧ FlowOpen c s now)))
  | .transmit _ | .stopTransmitting _ _ | .timedOut _ | .receive _ _ | .receiveError _
  | .finish _ => isTrue trivial

/-- The packet of what is taken for an ACK is no longer, or never was, in flight. -/
def LateAck (s : Sender MarkovianCC) (a : SendAction) : Prop :=
  ∃ h ∈ s.heard a, c.Own h ∧ h.seqNum ∉ s.congctrl.unacknowledgedPackets.keys

instance (s : Sender MarkovianCC) (a : SendAction) : Decidable (LateAck c s a) :=
  inferInstanceAs (Decidable (∃ h ∈ s.heard a, _))

def lateAckCount (f : Flow MarkovianCC) : FlowAction → ℕ
  | .sender a => if LateAck c f.sender a then 1 else 0
  | .client _ | .batch _ => 0

/-- How often that happens in a run. -/
def lateAcks : Flow MarkovianCC → List FlowAction → ℕ
  | _, [] => 0
  | f, a :: actions =>
    lateAckCount c f a +
      match flowStep copa c f a with
      | some g => lateAcks g actions
      | none => 0

/-- What changes in the counters when `sent` packets are sent and `acked` ACKs accepted, of which
`late` are late. -/
structure CountsMove (q u : MarkovianCC) (sent acked late : ℕ) : Prop where
  numPktsSent : u.numPktsSent = q.numPktsSent+sent
  numPktsAcked : u.numPktsAcked = q.numPktsAcked+acked
  counted : u.counted = q.counted+sent+late

variable {c}

theorem CountsMove.refl (q : MarkovianCC) : CountsMove q q 0 0 0 := ⟨rfl, rfl, rfl⟩

theorem CountsMove.trans {q r u : MarkovianCC} {sent acked late sent' acked' late' : ℕ}
    (h : CountsMove q r sent acked late) (h' : CountsMove r u sent' acked' late') :
    CountsMove q u (sent+sent') (acked+acked') (late+late') where
  numPktsSent := by rw [h'.numPktsSent, h.numPktsSent, add_assoc]
  numPktsAcked := by rw [h'.numPktsAcked, h.numPktsAcked, add_assoc]
  counted := by
    rw [h'.counted, h.counted]
    ring

/-- An ACK is counted once. -/
theorem numPktsAcked_onACK {q u : MarkovianCC} {ack : ℤ} {sentTime : ℚ} {adjustUs : ℤ}
    (h : q.onACK ack sentTime adjustUs = .ok u) : u.numPktsAcked = q.numPktsAcked+1 := by
  refine onACK_rule (Q := fun r => r.numPktsAcked = q.numPktsAcked)
    (R := fun r => r.numPktsAcked = q.numPktsAcked+1) ?_ ?_ ?_ ?_ ?_ ?_ ?_ h
  · intro e r he hr
    obtain ⟨w, s, a, p, l, c, d, i, j, rfl⟩ := updateIntersendTime_frame hr
    exact he
  · exact fun r a b c d e n l hr => hr
  · exact fun r m hr => hr
  · intro r hr
    obtain ⟨i, o, d, t, t', hframe⟩ := updateDelta_frame r true 0
    rw [hframe]
    exact hr
  · intro r reduce hr
    obtain ⟨l, w, i, j, hframe⟩ := reduceWindow_frame r reduce
    rw [hframe]
    exact hr
  · intro r hr
    exact congrArg (· + 1) hr
  · intro e he
    obtain ⟨f, i, t, rfl⟩ := ackEntry_frame he
    obtain ⟨i, o, d, t, t', hframe⟩ := updateDelta_frame _ false (q.currRtt sentTime adjustUs)
    rw [hframe]

theorem countsMove_onACK {q u : MarkovianCC} {ack : ℤ} {sentTime : ℚ} {adjustUs : ℤ}
    (h : q.onACK ack sentTime adjustUs = .ok u) :
    CountsMove q u 0 1 (if ack-1 ∈ q.unacknowledgedPackets.keys then 0 else 1) := by
  obtain ⟨hcount, hsent⟩ := onACK_counted h
  exact ⟨hsent, numPktsAcked_onACK h, hcount⟩

theorem countsMove_onPktSent {q : MarkovianCC} {seqNum : ℤ}
    (hnew : seqNum ∉ q.unacknowledgedPackets.keys) :
    CountsMove q (q.onPktSent seqNum) 1 0 0 := by
  obtain ⟨hcount, hsent⟩ := onPktSent_counted hnew
  obtain ⟨e, i, v, hframe⟩ := onPktSent_frame q seqNum
  refine ⟨hsent, ?_, hcount⟩
  rw [hframe]
  rfl

/-! ### Steps -/

/-- All packets in flight were sent. -/
def KeysBelow (s : Sender MarkovianCC) : Prop :=
  ∀ k ∈ s.congctrl.unacknowledgedPackets.keys, k < s.seqNum

/-- A single packet is a train of its own. -/
theorem sentTrain_one {c : FlowConfig} (hone : c.trainLength = 1) (seqNum : ℤ) :
    sentTrain c.trainLength seqNum = some seqNum := by
  rw [sentTrain, hone, if_pos (Int.tmod_one seqNum), Int.tdiv_one]

theorem ackCall_one {c : FlowConfig} (hone : c.trainLength = 1) {h : TCPHeader}
    (hown : c.Own h) : ackCall c.srcId c.flowId c.trainLength h =
      some ⟨h.seqNum+1, h.receiverTimestamp, h.senderTimestamp, h.adjustUs⟩ := by
  have hids : ¬ (h.srcId ≠ c.srcId ∨ h.flowId ≠ c.flowId) := by
    rw [not_or, not_not, not_not]
    exact hown
  unfold ackCall
  simp only [if_neg hids, hone, Int.tmod_one, Int.tdiv_one, if_true]

/-- What the sender takes for an ACK moves the counters if it has the ids of the flow. -/
theorem countsMove_ackCallbacks (hone : c.trainLength = 1) {q u : MarkovianCC} {h : TCPHeader}
    {now : ℚ} (hu : run step q (ackCallbacks c h now) = some u) :
    CountsMove q u 0 (if c.Own h then 1 else 0)
        (if c.Own h ∧ h.seqNum ∉ q.unacknowledgedPackets.keys then 1 else 0) ∧
      ∀ k ∈ u.unacknowledgedPackets.keys, k ∈ q.unacknowledgedPackets.keys := by
  unfold ackCallbacks at hu
  by_cases hown : c.Own h
  · rw [ackCall_one hone hown] at hu
    have hstep := toOption_eq_some ((run_singleton step _ _).symm.trans hu)
    have hmove := countsMove_onACK (q := { q with curTick := now }) hstep
    rw [add_sub_cancel_right] at hmove
    refine ⟨?_, fun k hk => mem_keys_onACK (q := { q with curTick := now }) hstep hk⟩
    rw [if_pos hown]
    by_cases hmem : h.seqNum ∈ q.unacknowledgedPackets.keys
    · rw [if_neg (fun hlate => hlate.2 hmem)]
      rw [if_pos hmem] at hmove
      exact ⟨hmove.numPktsSent, hmove.numPktsAcked, hmove.counted⟩
    · rw [if_pos ⟨hown, hmem⟩]
      rw [if_neg hmem] at hmove
      exact ⟨hmove.numPktsSent, hmove.numPktsAcked, hmove.counted⟩
  · rw [ackCall_of_not_own hown] at hu
    cases hu
    rw [if_neg hown, if_neg (fun hlate => hown hlate.1)]
    exact ⟨CountsMove.refl q, fun k hk => hk⟩

/-- A step of the sender moves the counters by what it sends and accepts. -/
theorem countsMove_sendStep (hone : c.trainLength = 1) {s : Sender MarkovianCC} {a : SendAction}
    {r : SendOutcome MarkovianCC} (hkeys : KeysBelow s) (hkeeps : NoRestart c s a)
    (hr : sendStep copa c s a = some r) :
    CountsMove s.congctrl r.sender.congctrl r.dataSent.length r.ack.toList.length
        (if LateAck c s a then 1 else 0) ∧ KeysBelow r.sender := by
  have hcallbacks := sendStep_callbacks hr
  have hpackets := (sendStep_packets hr).1
  -- a step that leaves the controller's counters alone
  have hquiet (hheard : s.heard a = none) (hsent : r.dataSent = [])
      (hmove : CountsMove s.congctrl r.sender.congctrl 0 0 0)
      (hsame : ∀ k ∈ r.sender.congctrl.unacknowledgedPackets.keys,
        k ∈ s.congctrl.unacknowledgedPackets.keys) :
      CountsMove s.congctrl r.sender.congctrl r.dataSent.length r.ack.toList.length
        (if LateAck c s a then 1 else 0) ∧ KeysBelow r.sender := by
    have hlate : ¬ LateAck c s a := by
      intro hlate
      obtain ⟨h, hh, _⟩ := hlate
      rw [hheard] at hh
      cases hh
    rw [sendStep_of_heard_none hheard hr, hsent, if_neg hlate]
    refine ⟨hmove, fun k hk => ?_⟩
    rcases hpackets with ⟨_, hseq⟩ | ⟨_, _, hseq⟩
    · exact (hkeys k (hsame k hk)).trans_eq hseq.symm
    · exact (hkeys k (hsame k hk)).trans (by omega)
  -- a step that takes a header for an ACK
  have hack {h : TCPHeader} {now : ℚ} (hheard : s.heard a = some h)
      (hsent : r.dataSent = []) (hseq : r.sender.seqNum = s.seqNum)
      (hrun : run step s.congctrl (ackCallbacks c h now) = some r.sender.congctrl) :
      CountsMove s.congctrl r.sender.congctrl r.dataSent.length r.ack.toList.length
        (if LateAck c s a then 1 else 0) ∧ KeysBelow r.sender := by
    obtain ⟨hmove, hsame⟩ := countsMove_ackCallbacks hone hrun
    have hlate : LateAck c s a ↔
        c.Own h ∧ h.seqNum ∉ s.congctrl.unacknowledgedPackets.keys := by
      constructor
      · rintro ⟨x, hx, hown⟩
        rw [hheard] at hx
        cases hx
        exact hown
      · exact fun hown => ⟨h, hheard, hown⟩
    have hlength : r.ack.toList.length = if c.Own h then 1 else 0 := by
      have hcases := sendStep_heard hheard hr
      split_ifs at hcases ⊢
      · rw [hcases]
        rfl
      · rw [hcases.1]
        rfl
    rw [hsent, hlength, if_congr hlate rfl rfl]
    exact ⟨hmove, fun k hk => (hkeys k (hsame k hk)).trans_eq hseq.symm⟩
  cases a with
  | enter now =>
    rw [senderCallbacks, if_neg hkeeps] at hcallbacks
    rw [sendStep] at hr
    split_ifs at hr
    obtain ⟨t, ht, rfl⟩ := Option.map_eq_some_iff.mp hr
    have hsame : s.congctrl = t.congctrl := Option.some.inj hcallbacks
    refine hquiet rfl rfl ?_ ?_
    · rw [← hsame]
      exact CountsMove.refl _
    · rw [← hsame]
      exact fun k hk => hk
  | transmit txTimestamp =>
    rw [senderCallbacks, sentTrain_one hone] at hcallbacks
    rw [sendStep] at hr
    split_ifs at hr
    cases hr
    have hnew : s.seqNum ∉ s.congctrl.unacknowledgedPackets.keys :=
      fun hmem => (hkeys s.seqNum hmem).false
    have hsent := Option.some.inj hcallbacks
    have hmove := countsMove_onPktSent (q := { s.congctrl with curTick := s.curTime }) hnew
    have hlate : ¬ LateAck c s (.transmit txTimestamp) := by
      rintro ⟨h, hh, _⟩
      cases hh
    rw [if_neg hlate, ← hsent]
    refine ⟨⟨hmove.numPktsSent, hmove.numPktsAcked, hmove.counted⟩, fun k hk => ?_⟩
    rw [← hsent] at hk
    obtain ⟨e, i, v, hframe⟩ :=
      onPktSent_frame { s.congctrl with curTick := s.curTime } s.seqNum
    change k ∈ (onPktSent { s.congctrl with curTick := s.curTime }
      s.seqNum).unacknowledgedPackets.keys at hk
    rw [hframe] at hk
    rcases (OrderedMap.mem_keys_insert _ _ _ k).mp hk with rfl | hk
    · exact Int.lt_succ _
    · exact (hkeys k hk).trans (Int.lt_succ _)
  | stopTransmitting txTimestamp now =>
    have hsame : s.congctrl = r.sender.congctrl := Option.some.inj hcallbacks
    refine hquiet rfl ?_ ?_ ?_
    · rw [sendStep] at hr
      split_ifs at hr
      · cases hr
        rfl
      · cases hr
        rfl
    · rw [← hsame]
      exact CountsMove.refl _
    · rw [← hsame]
      exact fun k hk => hk
  | timedOut now =>
    have hsame : s.congctrl = r.sender.congctrl := by
      rw [senderCallbacks] at hcallbacks
      split_ifs at hcallbacks
      · exact Option.some.inj hcallbacks
      · exact Option.some.inj hcallbacks
    rw [sendStep] at hr
    split_ifs at hr
    cases hr
    refine hquiet rfl rfl ?_ ?_
    · rw [← hsame]
      exact CountsMove.refl _
    · rw [← hsame]
      exact fun k hk => hk
  | receive header now =>
    rw [sendStep] at hr
    split_ifs at hr
    obtain ⟨hseq, hsent, _⟩ := takeAck_cases hr
    exact hack rfl (by rw [SendOutcome.dataSent, hsent]) hseq hcallbacks
  | receiveError now =>
    rw [sendStep] at hr
    split_ifs at hr
    obtain ⟨hseq, hsent, _⟩ := takeAck_cases hr
    exact hack rfl (by rw [SendOutcome.dataSent, hsent]) hseq hcallbacks
  | finish now =>
    rw [sendStep] at hr
    split_ifs at hr
    cases hr
    exact hquiet rfl rfl ⟨rfl, rfl, rfl⟩ (fun k hk => hk)

/-! ### Flows -/

theorem countsMove_flow (hone : c.trainLength = 1) {f f' : Flow MarkovianCC}
    {actions : List FlowAction} (hkeys : KeysBelow f.sender)
    (hkeeps : RunMeets (flowStep copa c) (OnSender (NoRestart c)) f actions)
    (hrun : run (flowStep copa c) f actions = some f') :
    ∃ sent acked, f'.sent.length = f.sent.length+sent ∧
      f'.accepted.length = f.accepted.length+acked ∧
      CountsMove f.sender.congctrl f'.sender.congctrl sent acked (lateAcks c f actions) := by
  induction actions generalizing f with
  | nil =>
    cases hrun
    exact ⟨0, 0, rfl, rfl, CountsMove.refl _⟩
  | cons a actions ih =>
    obtain ⟨g, hg, hrest⟩ := Option.bind_eq_some_iff.mp hrun
    obtain ⟨hok, hoks⟩ := (runMeets_cons_iff _ _ hg _).mp hkeeps
    rw [lateAcks, hg]
    rcases flowStep_cases hg with
      ⟨b, r, rfl, hr, rfl⟩ | ⟨b, s, t, rfl, _, _, _, rfl⟩ | ⟨b, s, r, rfl, _, _, _, rfl⟩
    · obtain ⟨hmove, hkeys'⟩ := countsMove_sendStep hone hkeys hok hr
      obtain ⟨sent, acked, hsent, hacked, hmoves⟩ := ih hkeys' hoks hrest
      refine ⟨r.dataSent.length+sent, r.ack.toList.length+acked, ?_, ?_, hmove.trans hmoves⟩
      · rw [hsent, Flow.afterSender, List.length_append, add_assoc]
      · rw [hacked, Flow.afterSender, List.length_append, add_assoc]
    · rw [lateAckCount, Nat.zero_add]
      exact ih (f := f.afterClient s t) hkeys hoks hrest
    · rw [lateAckCount, Nat.zero_add]
      exact ih (f := f.afterBatch s b r) hkeys hoks hrest

/-- Copa was just started. -/
def JustStarted (q : MarkovianCC) : Prop := q.ledger = (OrderedMap.empty, 0, 0, 0)

/-- In a flow of single packets, over any network and until Copa is started anew, it has counted as
sent the packets that were sent and as acknowledged the headers that were accepted, and the packets
acknowledged, lost and in flight are those sent, and one more for each ACK whose packet was not in
flight. -/
theorem copa_flow_counts {f f' : Flow MarkovianCC} {actions : List FlowAction}
    (hone : c.trainLength = 1) (hfresh : JustStarted f.sender.congctrl)
    (hkeeps : RunMeets (flowStep copa c) (OnSender (NoRestart c)) f actions)
    (hrun : run (flowStep copa c) f actions = some f') :
    f'.sent.length = f.sent.length+f'.sender.congctrl.numPktsSent ∧
      f'.accepted.length = f.accepted.length+f'.sender.congctrl.numPktsAcked ∧
      f'.sender.congctrl.numPktsAcked+f'.sender.congctrl.numPktsLost+
          f'.sender.congctrl.unacknowledgedPackets.size =
        f'.sender.congctrl.numPktsSent+lateAcks c f actions := by
  simp only [JustStarted, ledger, Prod.mk.injEq] at hfresh
  obtain ⟨hempty, hlost, hacked, hsent⟩ := hfresh
  have hkeys : KeysBelow f.sender := by
    intro k hk
    rw [hempty] at hk
    exact absurd hk List.not_mem_nil
  have hcounted : f.sender.congctrl.counted = 0 := by
    rw [counted, hempty, hlost, hacked]
    rfl
  obtain ⟨sent, acked, hlength, hlength', hmove⟩ := countsMove_flow hone hkeys hkeeps hrun
  have hsent' := hmove.numPktsSent
  have hacked' := hmove.numPktsAcked
  have htotal := hmove.counted
  rw [hsent, zero_add] at hsent'
  rw [hacked, zero_add] at hacked'
  rw [hcounted, zero_add] at htotal
  refine ⟨by rw [hlength, hsent'], by rw [hlength', hacked'], ?_⟩
  rw [hsent']
  exact htotal

end

/-- Five windows of packets, and the echo of the first one. -/
def windowsEchoed : List FlowAction :=
  .sender (.enter 1) :: List.replicate 50 (.sender (.transmit 100)) ++
    [.sender (.stopTransmitting 110 2), .batch (.receive firstPacket),
      .batch (.endBatch (fun _ => 3) 200), .sender (.receive firstEcho 4)]

theorem copa_flow_counts_echo : ∃ f',
    run (flowStep copa secondFlow) copaBatchFlow windowsEchoed = some f' ∧
    f'.sent.length = copaBatchFlow.sent.length+f'.sender.congctrl.numPktsSent ∧
      f'.accepted.length = copaBatchFlow.accepted.length+f'.sender.congctrl.numPktsAcked ∧
      f'.sender.congctrl.numPktsAcked+f'.sender.congctrl.numPktsLost+
          f'.sender.congctrl.unacknowledgedPackets.size =
        f'.sender.congctrl.numPktsSent+lateAcks secondFlow copaBatchFlow windowsEchoed := by
  have hrun := (Option.some_get (x := run (flowStep copa secondFlow) copaBatchFlow
    windowsEchoed) (by decide +kernel)).symm
  exact ⟨_, hrun, copa_flow_counts rfl rfl (by decide +kernel) hrun⟩

end CopaNgscope
