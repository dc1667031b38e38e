import Mathlib.Algebra.Order.Floor.Semiring
import CopaNgscope.SenderPacing

/-! When a flow is over. The outer loop looks at what was acknowledged, or at the clock, once in a
round, and the sending loop does not look at all inside a train. -/
namespace CopaNgscope
open RunInvariant

section
variable {κ : Type*} {cc : CongCtrl κ} {c : FlowConfig}

/-- The ACKs with which a flow that is given in bytes is over. -/
def packetsDue (c : FlowConfig) : ℕ := ⌈c.flowSize/dataSize⌉₊

theorem flowOpen_iff_lt_packetsDue (hbytes : c.byteSwitched = true) (s : Sender κ) (t : ℚ) :
    FlowOpen c s t ↔ s.numPacketsTransmitted < packetsDue c := by
  have hpos : (0:ℚ) < dataSize := by norm_num [dataSize]
  rw [FlowOpen, if_pos hbytes, packetsDue, Nat.lt_ceil, lt_div_iff₀ hpos, Nat.cast_mul]

theorem flowOpen_iff_lt_flowSize (htime : c.byteSwitched = false) (s : Sender κ) (t : ℚ) :
    FlowOpen c s t ↔ t < c.flowSize := by
  rw [FlowOpen, htime, if_neg Bool.false_ne_true]

/-- A round is entered, and a train begun, while the flow is open only. -/
structure DueInv (c : FlowConfig) (s : Sender κ) : Prop where
  whole : WholeTrains c s
  inTrain : s.phase = .sending → ¬ c.trainLength ∣ s.seqNum → FlowOpen c s s.curTime
  entered : c.byteSwitched = true → s.phase = .sending ∨ s.phase = .receiving →
    s.numPacketsTransmitted < packetsDue c
  counted : c.byteSwitched = true → s.numPacketsTransmitted ≤ packetsDue c
  broken : s.phase = .broken → ¬ FlowOpen c s s.curTime

/-- The place in the loop after a round, or after the loop. -/
theorem DueInv.outside {s t : Sender κ} (h : DueInv c s) (hsent : s.phase ≠ .sending)
    (hphase : t.phase = .head ∨ t.phase = .finished) (hseq : t.seqNum = s.seqNum)
    (hcount : t.numPacketsTransmitted = s.numPacketsTransmitted) : DueInv c t := by
  have hother : t.phase ≠ .sending ∧ t.phase ≠ .receiving ∧ t.phase ≠ .broken := by
    rcases hphase with hphase | hphase
    · rw [hphase]
      exact ⟨SendPhase.noConfusion, SendPhase.noConfusion, SendPhase.noConfusion⟩
    · rw [hphase]
      exact ⟨SendPhase.noConfusion, SendPhase.noConfusion, SendPhase.noConfusion⟩
  refine ⟨?_, fun hsending => absurd hsending hother.1, ?_, ?_,
    fun hbroken => absurd hbroken hother.2.2⟩
  · intro _
    rw [hseq]
    exact h.whole hsent
  · intro _ hin
    exact absurd hin (not_or.mpr ⟨hother.1, hother.2.1⟩)
  · rw [hcount]
    exact h.counted

theorem enterLoop_counts {s t : Sender κ} {now : ℚ} (h : enterLoop cc c s now = some t) :
    t.numPacketsTransmitted = s.numPacketsTransmitted := by
  rw [enterLoop] at h
  split_ifs at h
  · obtain ⟨congctrl, _, rfl⟩ := Option.map_eq_some_iff.mp h
    rfl
  · cases h
    rfl
  · cases h
    rfl

theorem DueInv.enterLoop {s t : Sender κ} {now : ℚ} (h : DueInv c s) (hhead : s.phase = .head)
    (hopen : FlowOpen c s s.curTime) (ht : enterLoop cc c s now = some t) : DueInv c t := by
  have hdvd : c.trainLength ∣ s.seqNum := by
    apply h.whole
    rw [hhead]
    exact SendPhase.noConfusion
  have hcount := enterLoop_counts ht
  have hseq := (enterLoop_fields ht).1
  refine ⟨?_, ?_, ?_, ?_, ?_⟩
  · intro _
    rw [hseq]
    exact hdvd
  · -- the trains before are complete
    intro _ hnot
    rw [hseq] at hnot
    exact absurd hdvd hnot
  · intro hbytes _
    rw [hcount]
    exact (flowOpen_iff_lt_packetsDue hbytes s _).mp hopen
  · rw [hcount]
    exact h.counted
  · intro hbroken
    rw [CopaNgscope.enterLoop] at ht
    split_ifs at ht with htimeout hstill
    · obtain ⟨congctrl, _, rfl⟩ := Option.map_eq_some_iff.mp ht
      cases hbroken
    · cases ht
      exact hstill
    · cases ht
      cases hbroken

/-- Every packet of a train is sent with the clock and the ACKs of the first one. -/
theorem DueInv.open_of_mayTransmit {s : Sender κ} (h : DueInv c s) (hphase : s.phase = .sending)
    (hmay : MayTransmit cc c s) : FlowOpen c s s.curTime := by
  rcases hmay with ⟨_, _, hopen⟩ | hinside
  · exact hopen
  · exact h.inTrain hphase (not_dvd_of_tmod_ne hinside)

theorem takeAck_counts {s : Sender κ} {r : SendOutcome κ} {now : ℚ}
    (hr : takeAck cc c s now = some r) :
    r.sender.numPacketsTransmitted = s.numPacketsTransmitted+r.ack.toList.length ∧
      r.ack.toList.length ≤ 1 := by
  by_cases hown : c.Own s.buf
  · have hids : ¬ (s.buf.srcId ≠ c.srcId ∨ s.buf.flowId ≠ c.flowId) := by
      rw [not_or, not_not, not_not]
      exact hown
    rw [takeAck, if_neg hids] at hr
    extract_lets call t at hr
    obtain ⟨congctrl, _, rfl⟩ := Option.map_eq_some_iff.mp hr
    obtain ⟨e, k, ht⟩ := estimateLinkRate_frame cc c
      { s with curTime := now, lastAckTime := now } now
    exact ⟨congrArg (fun u => u.numPacketsTransmitted+1) ht, le_rfl⟩
  · rw [takeAck_of_not_own hown] at hr
    cases hr
    exact ⟨rfl, Nat.zero_le 1⟩

/-- At most one ACK is counted in a round, so that the flow is not acknowledged too often. -/
theorem DueInv.takeAck {s u : Sender κ} {r : SendOutcome κ} {now : ℚ} (h : DueInv c s)
    (hphase : s.phase = .receiving) (hseq : u.seqNum = s.seqNum)
    (hcount : u.numPacketsTransmitted = s.numPacketsTransmitted)
    (hr : takeAck cc c u now = some r) : DueInv c r.sender := by
  obtain ⟨hseq', -, hhead, -⟩ := takeAck_fields hr
  obtain ⟨hcount', hone⟩ := takeAck_counts hr
  refine ⟨?_, ?_, ?_, ?_, ?_⟩
  · intro _
    rw [hseq', hseq]
    apply h.whole
    rw [hphase]
    exact SendPhase.noConfusion
  · intro hsending
    rw [hhead] at hsending
    cases hsending
  · intro _ hin
    rw [hhead] at hin
    rcases hin with hin | hin
    · cases hin
    · cases hin
  · intro hbytes
    have hlt := h.entered hbytes (.inr hphase)
    omega
  · intro hbroken
    rw [hhead] at hbroken
    cases hbroken

/-- What a step keeps, counts and sends. -/
theorem dueInv_step {s : Sender κ} {a : SendAction} {r : SendOutcome κ} (h : DueInv c s)
    (hr : sendStep cc c s a = some r) :
    DueInv c r.sender ∧
      r.sender.numPacketsTransmitted = s.numPacketsTransmitted+r.ack.toList.length ∧
      ∀ p ∈ r.dataSent, p.senderTimestamp = s.curTime ∧ FlowOpen c s s.curTime := by
  -- a step that sends no data
  have hquiet (hinv : DueInv c r.sender) (hcount : r.sender.numPacketsTransmitted =
      s.numPacketsTransmitted+r.ack.toList.length) (hsent : r.dataSent = []) :
      DueInv c r.sender ∧
        r.sender.numPacketsTransmitted = s.numPacketsTransmitted+r.ack.toList.length ∧
        ∀ p ∈ r.dataSent, p.senderTimestamp = s.curTime ∧ FlowOpen c s s.curTime := by
    rw [hsent]
    exact ⟨hinv, hcount, fun p hp => absurd hp List.not_mem_nil⟩
  have hheard {u : Sender κ} {now : ℚ} (hphase : s.phase = .receiving) (hseq : u.seqNum = s.seqNum)
      (hcount : u.numPacketsTransmitted = s.numPacketsTransmitted)
      (hu : takeAck cc c u now = some r) :
      DueInv c r.sender ∧
        r.sender.numPacketsTransmitted = s.numPacketsTransmitted+r.ack.toList.length ∧
        ∀ p ∈ r.dataSent, p.senderTimestamp = s.curTime ∧ FlowOpen c s s.curTime := by
    refine hquiet (h.takeAck hphase hseq hcount hu) ?_ ?_
    · rw [(takeAck_counts hu).1, hcount]
    · rw [SendOutcome.dataSent, (takeAck_cases hu).2.1]
  cases a with
  | enter now =>
    rw [sendStep] at hr
    split_ifs at hr with hcond
    obtain ⟨t, ht, rfl⟩ := Option.map_eq_some_iff.mp hr
    exact hquiet (h.enterLoop hcond.1 hcond.2 ht) (enterLoop_counts ht) rfl
  | transmit txTimestamp =>
    rw [sendStep] at hr
    split_ifs at hr with hcond
    have hopen := h.open_of_mayTransmit hcond.1 hcond.2
    cases hr
    refine ⟨⟨fun hphase => absurd hcond.1 hphase, fun _ _ => hopen, ?_, h.counted, ?_⟩, rfl, ?_⟩
    · intro hbytes _
      exact h.entered hbytes (.inl hcond.1)
    · intro hbroken
      exact absurd (hcond.1.symm.trans hbroken) SendPhase.noConfusion
    · intro p hp
      rw [List.mem_singleton.mp hp]
      exact ⟨rfl, hopen⟩
  | stopTransmitting txTimestamp now =>
    rw [sendStep] at hr
    split_ifs at hr with hcond hhopeless
    · have hdvd := dvd_of_not_mayTransmit hcond.2
      cases hr
      refine hquiet ⟨fun _ => hdvd, fun _ hnot => absurd hdvd hnot, ?_, h.counted,
        SendPhase.noConfusion⟩ rfl rfl
      exact fun hbytes _ => h.entered hbytes (.inl hcond.1)
    · have hdvd := dvd_of_not_mayTransmit hcond.2
      cases hr
      refine hquiet ⟨fun _ => hdvd, fun _ hnot => absurd hdvd hnot, ?_, h.counted,
        SendPhase.noConfusion⟩ rfl rfl
      exact fun hbytes _ => h.entered hbytes (.inl hcond.1)
  | timedOut now =>
    rw [sendStep] at hr
    split_ifs at hr with hphase
    cases hr
    refine hquiet (h.outside ?_ (.inl rfl) rfl rfl) rfl rfl
    rw [hphase.1]
    exact SendPhase.noConfusion
  | receive header now =>
    rw [sendStep] at hr
    split_ifs at hr with hphase
    exact hheard (u := { s with buf := header }) hphase rfl rfl hr
  | receiveError now =>
    rw [sendStep] at hr
    split_ifs at hr with hphase
    exact hheard hphase rfl rfl hr
  | finish now =>
    rw [sendStep] at hr
    split_ifs at hr with hcond
    cases hr
    refine hquiet (h.outside ?_ (.inr rfl) rfl rfl) rfl rfl
    rcases hcond with hbroken | ⟨hhead, _⟩
    · rw [hbroken]
      exact SendPhase.noConfusion
    · rw [hhead]
      exact SendPhase.noConfusion

/-! ### Flows -/

/-- What holds of a flow that had accepted `n` headers when it started. -/
structure FlowDue (c : FlowConfig) (n : ℕ) (f : Flow κ) : Prop where
  sender : DueInv c f.sender
  accepted : f.accepted.length = n+f.sender.numPacketsTransmitted
  sent : c.byteSwitched = false → ∀ p ∈ f.sent, p.senderTimestamp < c.flowSize

theorem flowDue_start {f : Flow κ} (h : FlowStart cc c f) : FlowDue c f.accepted.length f := by
  obtain ⟨congctrl, buf, start, now, hinit⟩ := h.sender
  obtain ⟨k, _, hsender⟩ := Option.map_eq_some_iff.mp hinit
  have hphase := (flowStart_sender h).2.2
  have hcount : f.sender.numPacketsTransmitted = 0 := by rw [← hsender]
  refine ⟨⟨flowStart_wholeTrains h, ?_, ?_, ?_, ?_⟩, ?_, ?_⟩
  · intro hsending
    rw [hphase] at hsending
    cases hsending
  · intro _ hin
    rw [hphase] at hin
    rcases hin with hin | hin
    · cases hin
    · cases hin
  · intro _
    rw [hcount]
    exact Nat.zero_le _
  · intro hbroken
    rw [hphase] at hbroken
    cases hbroken
  · rw [hcount, Nat.add_zero]
  · rw [h.sent]
    exact fun _ p hp => absurd hp List.not_mem_nil

theorem FlowDue.step {n : ℕ} {f f' : Flow κ} {a : FlowAction} (h : FlowDue c n f)
    (hstep : flowStep cc c f a = some f') : FlowDue c n f' := by
  rcases flowStep_cases hstep with
    ⟨b, r, _, hr, rfl⟩ | ⟨b, s, t, _, _, _, _, rfl⟩ | ⟨b, s, r, _, _, _, _, rfl⟩
  · obtain ⟨hinv, hcount, hsent⟩ := dueInv_step h.sender hr
    refine ⟨hinv, ?_, ?_⟩
    · calc
        (f.accepted ++ r.ack.toList).length =
            n+f.sender.numPacketsTransmitted+r.ack.toList.length := by
          rw [List.length_append, h.accepted]
        _ = n+r.sender.numPacketsTransmitted := by rw [hcount, Nat.add_assoc]
    · intro htime p hp
      rcases List.mem_append.mp hp with hold | hnew
      · exact h.sent htime p hold
      · obtain ⟨hstamp, hopen⟩ := hsent p hnew
        rw [hstamp]
        exact (flowOpen_iff_lt_flowSize htime _ _).mp hopen
  · exact ⟨h.sender, h.accepted, h.sent⟩
  · exact ⟨h.sender, h.accepted, h.sent⟩

/-- The end of a flow from `f`, in a state `g` on the way. One in bytes sends a packet only before
all ACKs have come, and is over with the last one; one in time sends packets only before its time
is up, and is over after that. -/
structure EndsWhenDone (cc : CongCtrl κ) (c : FlowConfig) (f g : Flow κ) : Prop where
  accepted_le : c.byteSwitched = true →
    g.accepted.length ≤ f.accepted.length+⌈c.flowSize/dataSize⌉₊
  accepted_lt : c.byteSwitched = true → ∀ txTimestamp g',
    flowStep cc c g (.sender (.transmit txTimestamp)) = some g' →
    g.accepted.length < f.accepted.length+⌈c.flowSize/dataSize⌉₊
  accepted_eq : c.byteSwitched = true → ∀ now g',
    flowStep cc c g (.sender (.finish now)) = some g' →
    g.accepted.length = f.accepted.length+⌈c.flowSize/dataSize⌉₊
  sent_lt : c.byteSwitched = false → ∀ p ∈ g.sent, p.senderTimestamp < c.flowSize
  curTime_ge : c.byteSwitched = false → ∀ now g',
    flowStep cc c g (.sender (.finish now)) = some g' → c.flowSize ≤ g.sender.curTime

/-- The last step is taken when the flow is no longer open only. -/
theorem DueInv.not_open {s : Sender κ} {r : SendOutcome κ} {now : ℚ} (h : DueInv c s)
    (hr : sendStep cc c s (.finish now) = some r) : ¬ FlowOpen c s s.curTime := by
  rw [sendStep, Option.ite_none_right_eq_some] at hr
  rcases hr.1 with hbroken | ⟨_, hclosed⟩
  · exact h.broken hbroken
  · exact hclosed

/-- A flow that is given in bytes ends when exactly the ACKs have come that it takes, and one that
is given in time when that has passed. Until then there is no end, and after it no packet, in
trains of any length and for every controller, receiver and network. -/
theorem flow_ends_when_done {f g : Flow κ} {actions : List FlowAction} (hstart : FlowStart cc c f)
    (hrun : run (flowStep cc c) f actions = some g) : EndsWhenDone cc c f g := by
  have hdue : FlowDue c f.accepted.length g :=
    run_invariant (flowStep cc c) (FlowDue c f.accepted.length) (fun _ _ _ h ht => h.step ht)
      (flowDue_start hstart) hrun
  have hsender {b : SendAction} {g' : Flow κ} (hstep : flowStep cc c g (.sender b) = some g') :
      ∃ r, sendStep cc c g.sender b = some r := by
    rw [flowStep, Option.ite_none_right_eq_some] at hstep
    obtain ⟨r, hr, _⟩ := Option.map_eq_some_iff.mp hstep.2
    exact ⟨r, hr⟩
  refine ⟨?_, ?_, ?_, hdue.sent, ?_⟩
  · intro hbytes
    have hle := hdue.sender.counted hbytes
    rw [hdue.accepted]
    exact Nat.add_le_add_left hle _
  · intro hbytes txTimestamp g' hstep
    obtain ⟨r, hr⟩ := hsender hstep
    rw [sendStep, Option.ite_none_right_eq_some] at hr
    rw [hdue.accepted]
    exact Nat.add_lt_add_left (hdue.sender.entered hbytes (.inl hr.1.1)) _
  · intro hbytes now g' hstep
    obtain ⟨r, hr⟩ := hsender hstep
    have hclosed := hdue.sender.not_open hr
    rw [flowOpen_iff_lt_packetsDue hbytes, not_lt] at hclosed
    rw [hdue.accepted]
    exact congrArg _ (le_antisymm (hdue.sender.counted hbytes) hclosed)
  · intro htime now g' hstep
    obtain ⟨r, hr⟩ := hsender hstep
    have hclosed := hdue.sender.not_open hr
    rw [flowOpen_iff_lt_flowSize htime, not_lt] at hclosed
    exact hclosed

end

/-- One packet's worth of bytes is sent, and its echo ends the flow. -/
theorem flow_ends_when_done_echo : ∃ g,
    run (flowStep onePacket { secondFlow with flowSize := 1000, byteSwitched := true }) batchFlow
      (echoActions ++ [.sender (.receive firstEcho 4)]) = some g ∧
    EndsWhenDone onePacket { secondFlow with flowSize := 1000, byteSwitched := true } batchFlow
      g := by
  have hrun := (Option.some_get (x := run (flowStep onePacket
    { secondFlow with flowSize := 1000, byteSwitched := true }) batchFlow
    (echoActions ++ [.sender (.receive firstEcho 4)])) (by decide +kernel)).symm
  have hstart : FlowStart onePacket { secondFlow with flowSize := 1000, byteSwitched := true }
      batchFlow :=
    ⟨⟨(), handshakeHeader, 0, 0, rfl⟩, rfl, rfl, by decide⟩
  exact ⟨_, hrun, flow_ends_when_done hstart hrun⟩

end CopaNgscope
