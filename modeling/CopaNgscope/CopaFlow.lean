import CopaNgscope.SenderCopa

/-! A flow of Copa over a network never fails an assertion: what the sender takes for an ACK was
sent before, and with slow start configured Copa takes every ACK of a packet sent before. -/
namespace CopaNgscope
open RunInvariant MarkovianCC

/-! ### The clock -/

section
variable {κ : Type*} {cc : CongCtrl κ} {c : FlowConfig}

/-- The clock does not go back, and moves on while the loop waits for what it takes for an ACK. -/
def ReadingLater (s : Sender κ) (a : SendAction) : Prop :=
  ∀ now ∈ a.reading, s.curTime ≤ now ∧ ((s.heard a).isSome → s.curTime < now)

instance (s : Sender κ) (a : SendAction) : Decidable (ReadingLater s a) :=
  inferInstanceAs
    (Decidable (∀ now ∈ a.reading, s.curTime ≤ now ∧ ((s.heard a).isSome → s.curTime < now)))

theorem curTime_le_takeAck {s : Sender κ} {r : SendOutcome κ} {now : ℚ}
    (hnow : s.curTime ≤ now) (hr : takeAck cc c s now = some r) :
    s.curTime ≤ r.sender.curTime := by
  rcases (takeAck_times hr).1 with heq | heq
  · exact heq.ge
  · exact hnow.trans_eq (Option.some.inj heq)

theorem curTime_le_sendStep {s : Sender κ} {a : SendAction} {r : SendOutcome κ}
    (hclock : ReadingLater s a) (hr : sendStep cc c s a = some r) :
    s.curTime ≤ r.sender.curTime := by
  cases a with
  | enter now =>
    rw [sendStep] at hr
    split_ifs at hr
    obtain ⟨t, ht, rfl⟩ := Option.map_eq_some_iff.mp hr
    exact (hclock now rfl).1.trans_eq (enterLoop_times ht).1.symm
  | transmit txTimestamp =>
    rw [sendStep] at hr
    split_ifs at hr
    cases hr
    exact le_refl s.curTime
  | stopTransmitting txTimestamp now =>
    have hnow := (hclock now rfl).1
    rw [sendStep] at hr
    split_ifs at hr
    · cases hr
      exact hnow
    · cases hr
      exact hnow
  | timedOut now =>
    rw [sendStep] at hr
    split_ifs at hr
    cases hr
    exact (hclock now rfl).1
  | receive header now =>
    rw [sendStep] at hr
    split_ifs at hr
    have hnow : s.curTime ≤ now := (hclock now rfl).1
    exact curTime_le_takeAck (s := { s with buf := header }) hnow hr
  | receiveError now =>
    rw [sendStep] at hr
    split_ifs at hr
    exact curTime_le_takeAck (hclock now rfl).1 hr
  | finish now =>
    rw [sendStep] at hr
    split_ifs at hr
    cases hr
    exact (hclock now rfl).1

theorem senderTimestamp_probesSent {s : Sender κ} {a : SendAction} {r : SendOutcome κ}
    (hr : sendStep cc c s a = some r) : ∀ p ∈ r.probesSent, p.senderTimestamp = s.curTime := by
  have hquiet (hsent : r.probesSent = []) : ∀ p ∈ r.probesSent, p.senderTimestamp = s.curTime := by
    rw [hsent]
    exact fun p hp => absurd hp List.not_mem_nil
  have hack {u : Sender κ} {now : ℚ} (hu : takeAck cc c u now = some r) : r.probesSent = [] := by
    rw [SendOutcome.probesSent, (takeAck_cases hu).2.1]
  cases a with
  | enter now =>
    rw [sendStep] at hr
    split_ifs at hr
    obtain ⟨t, ht, rfl⟩ := Option.map_eq_some_iff.mp hr
    exact hquiet rfl
  | transmit txTimestamp =>
    rw [sendStep] at hr
    split_ifs at hr
    cases hr
    exact hquiet rfl
  | stopTransmitting txTimestamp now =>
    rw [sendStep] at hr
    split_ifs at hr
    · cases hr
      intro p hp
      rw [List.mem_singleton.mp hp]
      rfl
    · cases hr
      exact hquiet rfl
  | timedOut now =>
    rw [sendStep] at hr
    split_ifs at hr
    cases hr
    exact hquiet rfl
  | receive header now =>
    rw [sendStep] at hr
    split_ifs at hr
    exact hquiet (hack hr)
  | receiveError now =>
    rw [sendStep] at hr
    split_ifs at hr
    exact hquiet (hack hr)
  | finish now =>
    rw [sendStep] at hr
    split_ifs at hr
    cases hr
    exact hquiet rfl

/-! ### Timestamps -/

/-- All headers with the ids of the flow were stamped by its clock. -/
def StampedBefore (c : FlowConfig) (f : Flow κ) : Prop :=
  ∀ h, (h ∈ f.headers ∨ h ∈ f.sent ∨ h ∈ f.control) → c.Own h →
    h.senderTimestamp ≤ f.sender.curTime

/-- The packets that a step adds carry a timestamp of the past. -/
theorem stampedBefore_step_of_new {f f' : Flow κ} (h : StampedBefore c f)
    (hspec : FlowStepSpec f f') (htime : f.sender.curTime ≤ f'.sender.curTime)
    (hsent : ∀ p ∈ f'.sent, p ∈ f.sent ∨ (c.Own p → p.senderTimestamp ≤ f.sender.curTime))
    (hcontrol : ∀ p ∈ f'.control,
      p ∈ f.control ∨ (c.Own p → p.senderTimestamp ≤ f.sender.curTime)) :
    StampedBefore c f' := by
  have hsent' : ∀ p ∈ f'.sent, c.Own p → p.senderTimestamp ≤ f'.sender.curTime := by
    intro p hp hown
    rcases hsent p hp with hold | hnew
    · exact (h p (Or.inr (Or.inl hold)) hown).trans htime
    · exact (hnew hown).trans htime
  have hcontrol' : ∀ p ∈ f'.control, c.Own p → p.senderTimestamp ≤ f'.sender.curTime := by
    intro p hp hown
    rcases hcontrol p hp with hold | hnew
    · exact (h p (Or.inr (Or.inr hold)) hown).trans htime
    · exact (hnew hown).trans htime
  intro k hk hown
  rcases hk with hk | hk | hk
  · rcases hspec.headers k hk with ⟨x, hx, hecho⟩ | hk | hk
    · rw [hecho.senderTimestamp]
      exact (h x (Or.inl hx) (hecho.own hown)).trans htime
    · exact hsent' k hk hown
    · exact hcontrol' k hk hown
  · exact hsent' k hk hown
  · exact hcontrol' k hk hown

/-- The fillers of the packet client carry the ids 0 and 0, and whatever was on the stack. -/
theorem stampedBefore_step {f f' : Flow κ} {a : FlowAction} (h : StampedBefore c f)
    (hids : ¬ (c.srcId = 0 ∧ c.flowId = 0)) (hclock : OnSender ReadingLater f a)
    (hstep : flowStep cc c f a = some f') : StampedBefore c f' := by
  have hspec := flowStep_spec hstep
  rcases flowStep_cases hstep with
    ⟨b, r, rfl, hr, rfl⟩ | ⟨b, s, t, rfl, hs, _, ht, rfl⟩ | ⟨b, s, r, rfl, hs, _, _, rfl⟩
  · refine stampedBefore_step_of_new h hspec (curTime_le_sendStep hclock hr) ?_ ?_
    · intro p hp
      refine (List.mem_append.mp hp).imp_right (fun hnew _ => ?_)
      rcases (sendStep_packets hr).1 with ⟨hnil, _⟩ | ⟨txTimestamp, hone, _⟩
      · rw [hnil] at hnew
        exact absurd hnew List.not_mem_nil
      · rw [hone] at hnew
        rw [List.mem_singleton.mp hnew]
        exact le_refl f.sender.curTime
    · intro p hp
      exact (List.mem_append.mp hp).imp_right
        (fun hnew _ => (senderTimestamp_probesSent hr p hnew).le)
  · refine stampedBefore_step_of_new h hspec le_rfl (fun p hp => Or.inl hp) (fun p hp => ?_)
    refine (List.mem_append.mp hp).imp_right (fun hnew hown => ?_)
    obtain ⟨e, he, hfilled⟩ := List.mem_filterMap.mp hnew
    have hsent : e.sentHeader = some p := by
      cases e <;> first | exact hfilled | cases hfilled
    rcases newEvents_cases ht he hsent with ⟨x, _, currTUs, rfl⟩ | ⟨stale, currTUs, rfl⟩
    · cases hfilled
    · cases hfilled
      exact absurd ⟨hown.1.symm, hown.2.symm⟩ hids
  · refine stampedBefore_step_of_new h hspec le_rfl (fun p hp => Or.inl hp) (fun p hp => ?_)
    refine (List.mem_append.mp hp).imp_right (fun hnew hown => ?_)
    cases b with
    | receive header => cases hnew
    | receiveError => cases hnew
    | endBatch receiverTimestamp currT =>
      rw [BatchReceiver.keepAlives] at hnew
      split_ifs at hnew
      · -- a keep-alive has the timestamp and the ids of what was in the buffer
        rw [List.mem_singleton.mp hnew] at hown ⊢
        have hheld : s.buff ∈ f.headers := by
          refine Flow.mem_headers.mpr (Or.inr (Or.inr ?_))
          rw [hs]
          exact List.mem_cons_self
        exact h s.buff (Or.inl hheld) hown
      · cases hnew

/-- The conditions of the loop at its place are those of the action. -/
def SendAction.Fits (cc : CongCtrl κ) (c : FlowConfig) (s : Sender κ) : SendAction → Prop
  | .enter _ => s.phase = .head ∧ FlowOpen c s s.curTime
  | .transmit _ => s.phase = .sending ∧ MayTransmit cc c s
  | .stopTransmitting _ _ => s.phase = .sending ∧ ¬ MayTransmit cc c s
  | .timedOut _ => s.phase = .receiving ∧ MayTimeOut cc c s
  | .receive _ _ | .receiveError _ => s.phase = .receiving
  | .finish _ => s.phase = .broken ∨ (s.phase = .head ∧ ¬ FlowOpen c s s.curTime)

/-- The wait for an ACK ends by itself. -/
def WaitEnds (cc : CongCtrl κ) (c : FlowConfig) (s : Sender κ) : Prop :=
  ∃ v, doubleToInt (receiveTimeout cc c s) = some v ∧ 0 ≤ v

theorem WaitEnds.mayTimeOut {s : Sender κ} (h : WaitEnds cc c s) : MayTimeOut cc c s := by
  obtain ⟨v, hv, hnonneg⟩ := h
  intro w hw
  rw [hv] at hw
  rwa [← Option.some.inj hw]

/-- The action fits, and needs nothing of the network. -/
def SendAction.Unaided (cc : CongCtrl κ) (c : FlowConfig) (s : Sender κ) : SendAction → Prop
  | .receive _ _ | .receiveError _ => False
  | .timedOut _ => s.phase = .receiving ∧ WaitEnds cc c s
  | a => a.Fits cc c s

theorem SendAction.Unaided.fits {s : Sender κ} {a : SendAction} (h : a.Unaided cc c s) :
    a.Fits cc c s ∧ ∀ toSender, a.Arrives toSender := by
  cases a with
  | enter now | transmit txTimestamp | stopTransmitting txTimestamp now | finish now =>
    exact ⟨h, fun _ => trivial⟩
  | timedOut now => exact ⟨⟨h.1, h.2.mayTimeOut⟩, fun _ => trivial⟩
  | receive header now | receiveError now => exact h.elim

/-- The loop goes on without the network unless it is over or waits with a negative timeout. -/
theorem exists_unaided_iff (s : Sender κ) :
    (∃ a : SendAction, a.Unaided cc c s ∧ ReadingLater s a) ↔
      s.phase ≠ .finished ∧ (s.phase = .receiving → WaitEnds cc c s) := by
  have hreading {a : SendAction} (ha : ∀ now ∈ a.reading, now = s.curTime)
      (hheard : s.heard a = none) : ReadingLater s a := by
    intro now hmem
    rw [ha now hmem, hheard]
    exact ⟨le_refl _, fun hf => absurd hf Bool.false_ne_true⟩
  have hnow : ∀ now ∈ some s.curTime, now = s.curTime := fun _ hmem => (Option.some.inj hmem).symm
  constructor
  · rintro ⟨a, ha, -⟩
    cases a with
    | enter now => exact ⟨by rw [ha.1]; decide, fun h => by rw [ha.1] at h; cases h⟩
    | transmit txTimestamp => exact ⟨by rw [ha.1]; decide, fun h => by rw [ha.1] at h; cases h⟩
    | stopTransmitting txTimestamp now =>
      exact ⟨by rw [ha.1]; decide, fun h => by rw [ha.1] at h; cases h⟩
    | timedOut now => exact ⟨by rw [ha.1]; decide, fun _ => ha.2⟩
    | receive header now | receiveError now => exact ha.elim
    | finish now =>
      have hphase : s.phase = .broken ∨ s.phase = .head := ha.imp_right And.left
      rcases hphase with h | h
      · exact ⟨by rw [h]; decide, fun hr => by rw [h] at hr; cases hr⟩
      · exact ⟨by rw [h]; decide, fun hr => by rw [h] at hr; cases hr⟩
  · rintro ⟨hopen, hwait⟩
    cases hphase : s.phase with
    | head =>
      by_cases hgoes : FlowOpen c s s.curTime
      · exact ⟨.enter s.curTime, ⟨hphase, hgoes⟩, hreading hnow rfl⟩
      · exact ⟨.finish s.curTime, Or.inr ⟨hphase, hgoes⟩, hreading hnow rfl⟩
    | sending =>
      by_cases hmay : MayTransmit cc c s
      · refine ⟨.transmit 0, ⟨hphase, hmay⟩, hreading (fun now hmem => ?_) rfl⟩
        cases hmem
      · exact ⟨.stopTransmitting 0 s.curTime, ⟨hphase, hmay⟩, hreading hnow rfl⟩
    | receiving => exact ⟨.timedOut s.curTime, ⟨hphase, hwait hphase⟩, hreading hnow rfl⟩
    | broken => exact ⟨.finish s.curTime, Or.inl hphase, hreading hnow rfl⟩
    | finished => exact absurd hphase hopen

end

section
variable {c : FlowConfig}

/-! ### Copa between two steps -/

/-- What the sender takes for an ACK is of the past. -/
def HearsPast (c : FlowConfig) (s : Sender MarkovianCC) (a : SendAction) : Prop :=
  ∀ h ∈ s.heard a, c.Own h → h.senderTimestamp ≤ s.curTime

theorem copaReady_ackCallbacks {now : ℚ} {q u : MarkovianCC} {h : TCPHeader} {t : ℚ}
    (hq : CopaReady t q) (ht : t < now) (hown : c.Own h → h.senderTimestamp ≤ t)
    (hu : run step q (ackCallbacks c h now) = some u) : CopaReady now u := by
  unfold ackCallbacks at hu
  cases hcall : ackCall c.srcId c.flowId c.trainLength h with
  | none =>
    rw [hcall] at hu
    cases hu
    exact hq.mono ht.le
  | some call =>
    rw [hcall] at hu
    have hself : c.Own h := by
      by_contra hnot
      rw [ackCall_of_not_own hnot] at hcall
      cases hcall
    have hlater : CopaReady now { q with curTick := now } := (hq.mono ht.le).setTimestamp
    have hsent : call.sentTime < now := by
      rw [(ackCall_eq_some hcall).1]
      exact (hown hself).trans_lt ht
    obtain ⟨v, hv, hready⟩ := hlater.onACK rfl hsent
    have huv : u = v := by
      have hstep := (run_singleton step _ _).symm.trans hu
      exact Except.ok.inj ((toOption_eq_some hstep).symm.trans hv)
    exact huv ▸ hready

theorem takeAck_copa {s : Sender MarkovianCC} {now : ℚ} (hq : CopaReady s.curTime s.congctrl)
    (hnow : s.curTime < now) (hown : c.Own s.buf → s.buf.senderTimestamp ≤ s.curTime) :
    ∃ r, takeAck copa c s now = some r ∧ CopaReady r.sender.curTime r.sender.congctrl := by
  by_cases hself : c.Own s.buf
  · have hdefined : ∃ r, takeAck copa c s now = some r := by
      have hids : ¬ (s.buf.srcId ≠ c.srcId ∨ s.buf.flowId ≠ c.flowId) := by
        rw [not_or, not_not, not_not]
        exact hself
      rw [takeAck, if_neg hids]
      extract_lets call t
      have ht : t.congctrl = s.congctrl := congctrl_estimateLinkRate _ now
      rw [ht]
      cases hcall : call with
      | none => exact ⟨_, rfl⟩
      | some x =>
        have hlater : CopaReady now { s.congctrl with curTick := now } :=
          (hq.mono hnow.le).setTimestamp
        have hsent : x.sentTime < now := by
          rw [(ackCall_eq_some hcall).1]
          exact (hown hself).trans_lt hnow
        have honACK : ∃ v, MarkovianCC.onACK { s.congctrl with curTick := now } x.ack x.sentTime
            x.adjustUs = .ok v ∧ CopaReady now v := hlater.onACK rfl hsent
        obtain ⟨v, hv, _⟩ := honACK
        have hack : copa.onACK (copa.setTimestamp s.congctrl now) x = some v :=
          congrArg Except.toOption hv
        dsimp only
        rw [hack]
        exact ⟨_, rfl⟩
    obtain ⟨r, hr⟩ := hdefined
    have hready := copaReady_ackCallbacks hq hnow hown (takeAck_callbacks hr)
    have hcur : now ≤ r.sender.curTime := by
      have hids : ¬ (s.buf.srcId ≠ c.srcId ∨ s.buf.flowId ≠ c.flowId) := by
        rw [not_or, not_not, not_not]
        exact hself
      rw [takeAck, if_neg hids] at hr
      extract_lets call t at hr
      obtain ⟨k, _, rfl⟩ := Option.map_eq_some_iff.mp hr
      obtain ⟨e, k', ht⟩ := estimateLinkRate_frame copa c
        { s with curTime := now, lastAckTime := now } now
      exact (congrArg Sender.curTime ht).ge
    exact ⟨r, hr, hready.mono hcur⟩
  · rw [takeAck_of_not_own hself]
    exact ⟨_, rfl, hq⟩

/-- Copa stays ready for every step of the loop that fits its place, and takes it. -/
theorem sendStep_copa {s : Sender MarkovianCC} {a : SendAction}
    (hq : CopaReady s.curTime s.congctrl) (hpos : 1 ≤ c.trainLength) (hseq : 0 ≤ s.seqNum)
    (hclock : ReadingLater s a) (hpast : HearsPast c s a) (hfits : a.Fits copa c s) :
    ∃ r, sendStep copa c s a = some r ∧ CopaReady r.sender.curTime r.sender.congctrl := by
  -- the callbacks of any step but an ACK are made at the time that it ends
  have hplain {r : SendOutcome MarkovianCC} (hr : sendStep copa c s a = some r)
      (hat : ∀ b ∈ senderCallbacks c s a, CallbackAt r.sender.curTime b) :
      ∃ r, sendStep copa c s a = some r ∧ CopaReady r.sender.curTime r.sender.congctrl :=
    ⟨r, hr, (hq.mono (curTime_le_sendStep hclock hr)).run hat (sendStep_callbacks hr)⟩
  cases a with
  | enter now =>
    obtain ⟨hhead, hopen⟩ := hfits
    have hdefined : ∃ r, sendStep copa c s (.enter now) = some r ∧ r.sender.curTime = now := by
      rw [sendStep, if_pos ⟨hhead, hopen⟩, enterLoop]
      split_ifs
      · exact ⟨_, rfl, rfl⟩
      · exact ⟨_, rfl, rfl⟩
      · exact ⟨_, rfl, rfl⟩
    obtain ⟨r, hr, hcur⟩ := hdefined
    refine hplain hr (fun b hb => ?_)
    rw [senderCallbacks] at hb
    split_ifs at hb
    · rcases List.mem_pair.mp hb with rfl | rfl
      · exact hcur.symm
      · trivial
    · exact absurd hb List.not_mem_nil
  | transmit txTimestamp =>
    refine hplain (if_pos hfits) (fun b hb => ?_)
    rw [senderCallbacks] at hb
    unfold sentTrain at hb
    split_ifs at hb
    · rcases List.mem_pair.mp hb with rfl | rfl
      · rfl
      · exact Int.tdiv_nonneg hseq (by omega)
    · exact absurd hb List.not_mem_nil
  | stopTransmitting txTimestamp now =>
    obtain ⟨hsending, hstop⟩ := hfits
    have hdefined : ∃ r, sendStep copa c s (.stopTransmitting txTimestamp now) = some r := by
      rw [sendStep, if_pos ⟨hsending, hstop⟩]
      split_ifs
      · exact ⟨_, rfl⟩
      · exact ⟨_, rfl⟩
    obtain ⟨r, hr⟩ := hdefined
    exact hplain hr (fun b hb => absurd hb List.not_mem_nil)
  | timedOut now =>
    refine hplain (if_pos hfits) (fun b hb => ?_)
    rw [senderCallbacks] at hb
    split_ifs at hb
    · rw [List.mem_singleton.mp hb]
      trivial
    · exact absurd hb List.not_mem_nil
  | receive header now =>
    have hnow : s.curTime < now := (hclock now rfl).2 rfl
    have hwait : s.phase = .receiving := hfits
    rw [sendStep, if_pos hwait]
    exact takeAck_copa (s := { s with buf := header }) hq hnow (hpast header rfl)
  | receiveError now =>
    have hnow : s.curTime < now := (hclock now rfl).2 rfl
    have hwait : s.phase = .receiving := hfits
    rw [sendStep, if_pos hwait]
    exact takeAck_copa hq hnow (hpast s.buf rfl)
  | finish now =>
    refine hplain (if_pos hfits) (fun b hb => ?_)
    rw [senderCallbacks] at hb
    rw [List.mem_singleton.mp hb]
    rfl

theorem sendStep_fits {s : Sender MarkovianCC} {a : SendAction} {r : SendOutcome MarkovianCC}
    (hr : sendStep copa c s a = some r) : a.Fits copa c s := by
  cases a with
  | enter now | transmit txTimestamp | stopTransmitting txTimestamp now | timedOut now
  | receive header now | receiveError now | finish now =>
    rw [sendStep] at hr
    split_ifs at hr
    all_goals assumption

/-! ### Flows -/

/-- What every state of a flow of Copa satisfies. -/
structure CopaFlowInv (c : FlowConfig) (f : Flow MarkovianCC) : Prop where
  behind : AcksBehind c f
  stamped : StampedBefore c f
  buf : c.Own f.sender.buf → f.sender.buf.senderTimestamp ≤ f.sender.curTime
  ready : CopaReady f.sender.curTime f.sender.congctrl

theorem CopaFlowInv.hearsPast {f : Flow MarkovianCC} (h : CopaFlowInv c f) {a : SendAction}
    (harrives : a.Arrives f.toSender) : HearsPast c f.sender a := by
  intro x hx hown
  cases a with
  | receive header now =>
    cases hx
    exact h.stamped _ (Or.inl (Flow.mem_headers.mpr (Or.inr (Or.inl harrives)))) hown
  | receiveError now =>
    cases hx
    exact h.buf hown
  | enter | transmit | stopTransmitting | timedOut | finish => cases hx

/-- The buffer holds what was sent or received last. -/
theorem stamped_buf_sendStep {s : Sender MarkovianCC} {a : SendAction}
    {r : SendOutcome MarkovianCC} (hbuf : c.Own s.buf → s.buf.senderTimestamp ≤ s.curTime)
    (hpast : HearsPast c s a) (hclock : ReadingLater s a) (hr : sendStep copa c s a = some r) :
    c.Own r.sender.buf → r.sender.buf.senderTimestamp ≤ r.sender.curTime := by
  intro hown
  refine le_trans ?_ (curTime_le_sendStep hclock hr)
  have hkept (hsame : r.sender.buf = s.buf) : r.sender.buf.senderTimestamp ≤ s.curTime := by
    rw [hsame] at hown ⊢
    exact hbuf hown
  cases a with
  | enter now =>
    rw [sendStep] at hr
    split_ifs at hr
    obtain ⟨t, ht, rfl⟩ := Option.map_eq_some_iff.mp hr
    exact hkept (enterLoop_fields ht).2.1
  | transmit txTimestamp =>
    rw [sendStep] at hr
    split_ifs at hr
    cases hr
    exact le_refl s.curTime
  | stopTransmitting txTimestamp now =>
    rw [sendStep] at hr
    split_ifs at hr
    · cases hr
      exact le_refl s.curTime
    · cases hr
      exact hbuf hown
  | timedOut now =>
    rw [sendStep] at hr
    split_ifs at hr
    cases hr
    exact hbuf hown
  | receive header now =>
    rw [sendStep] at hr
    split_ifs at hr
    have hsame := (takeAck_fields hr).2.1
    rw [hsame] at hown ⊢
    exact hpast header rfl hown
  | receiveError now =>
    rw [sendStep] at hr
    split_ifs at hr
    exact hkept (takeAck_fields hr).2.1
  | finish now =>
    rw [sendStep] at hr
    split_ifs at hr
    cases hr
    exact hbuf hown

theorem CopaFlowInv.sendStep {f : Flow MarkovianCC} (h : CopaFlowInv c f)
    (hpos : 1 ≤ c.trainLength) {a : SendAction} (hclock : ReadingLater f.sender a)
    (harrives : a.Arrives f.toSender) (hfits : a.Fits copa c f.sender) :
    ∃ r, CopaNgscope.sendStep copa c f.sender a = some r ∧
      CopaReady r.sender.curTime r.sender.congctrl :=
  sendStep_copa h.ready hpos h.behind.inv.seqNum_nonneg hclock (h.hearsPast harrives) hfits

theorem copaFlowInv_step {f f' : Flow MarkovianCC} {a : FlowAction} (h : CopaFlowInv c f)
    (hpos : 1 ≤ c.trainLength) (hids : ¬ (c.srcId = 0 ∧ c.flowId = 0))
    (hclock : OnSender ReadingLater f a) (hstep : flowStep copa c f a = some f') :
    CopaFlowInv c f' := by
  have hbehind := acksBehind_step h.behind hstep
  have hstamped := stampedBefore_step h.stamped hids hclock hstep
  cases a with
  | sender b =>
    rw [flowStep] at hstep
    split_ifs at hstep with harrives
    obtain ⟨r, hr, rfl⟩ := Option.map_eq_some_iff.mp hstep
    obtain ⟨r', hr', hready⟩ := h.sendStep hpos hclock harrives (sendStep_fits hr)
    cases hr.symm.trans hr'
    exact ⟨hbehind, hstamped,
      stamped_buf_sendStep h.buf (h.hearsPast harrives) hclock hr, hready⟩
  | client b =>
    rcases flowStep_cases hstep with
      ⟨_, _, hb, _⟩ | ⟨_, _, _, _, _, _, _, rfl⟩ | ⟨_, _, _, hb, _⟩
    · cases hb
    · exact ⟨hbehind, hstamped, h.buf, h.ready⟩
    · cases hb
  | batch b =>
    rcases flowStep_cases hstep with
      ⟨_, _, hb, _⟩ | ⟨_, _, _, hb, _⟩ | ⟨_, _, _, _, _, _, _, rfl⟩
    · cases hb
    · cases hb
    · exact ⟨hbehind, hstamped, h.buf, h.ready⟩

/-- The flow starts with Copa as it is after a configuration with slow start and any callbacks. -/
structure CopaStart (c : FlowConfig) (f : Flow MarkovianCC) : Prop where
  flow : FlowStart copa c f
  buf : ¬ c.Own f.sender.buf
  configured : ∃ delta flowId config q before s buf start now,
    (markovianCC delta flowId).interpretConfigStr config = .ok q ∧
      config.take 6 = "do_ss:".toList ∧ run step q before = some s ∧
        senderInit copa s buf start now = some f.sender

theorem copaFlowInv_of_start {f : Flow MarkovianCC} (h : CopaStart c f) : CopaFlowInv c f := by
  obtain ⟨delta, flowId, config, q, before, s, buf, start, now, hq, hss, hbefore, hinit⟩ :=
    h.configured
  obtain ⟨k, hk, hsender⟩ := Option.map_eq_some_iff.mp hinit
  have hkept := sameConfig_run hbefore
  obtain ⟨e, m, d, v, b, w, hframe⟩ := interpretConfigStr_frame hq
  have hready : CopaReady now k := by
    cases hk
    refine ⟨?_, coherent_clear (hkept.kinds ?_) _, fun i hi => absurd hi List.not_mem_nil,
      le_refl now⟩
    · refine hkept.doSlowStart.trans ?_
      rw [hframe, decide_eq_true hss]
      rfl
    · rw [hframe]
      exact ⟨rfl, rfl, rfl, rfl⟩
  have hlargest : f.sender.largestAck ≤ f.sender.seqNum := by
    rw [← hsender]
    exact Int.negSucc_lt_zero 0 |>.le
  refine ⟨⟨flowInv_of_start h.flow, fun hown => absurd hown h.buf, hlargest⟩, ?_,
    fun hown => absurd hown h.buf, ?_⟩
  · intro x hx hown
    rcases hx with hx | hx | hx
    · exact absurd hown (h.flow.headers x hx)
    · rw [h.flow.sent] at hx
      exact absurd hx List.not_mem_nil
    · rw [h.flow.control] at hx
      exact absurd hx List.not_mem_nil
  · rw [← hsender]
    exact hready

/-- With slow start configured, no step of a flow of Copa fails an assertion, whatever the network
and either receiver do and for trains of any length, as long as the clock moves on while the sender
waits; and the sender can go on without the network exactly when the flow is not over and it does
not wait with a negative timeout. The ids 0 and 0 are those of the fillers of the packet client,
whose timestamps are not set. -/
theorem copa_flow_never_aborts {f f' : Flow MarkovianCC} {actions : List FlowAction}
    (hpos : 1 ≤ c.trainLength) (hids : ¬ (c.srcId = 0 ∧ c.flowId = 0)) (hstart : CopaStart c f)
    (hclock : RunMeets (flowStep copa c) (OnSender ReadingLater) f actions)
    (hrun : run (flowStep copa c) f actions = some f') :
    (∀ a : SendAction, a.Fits copa c f'.sender → ReadingLater f'.sender a →
      a.Arrives f'.toSender → ∃ g, flowStep copa c f' (.sender a) = some g) ∧
    ((∃ a g, a.Unaided copa c f'.sender ∧ ReadingLater f'.sender a ∧
        flowStep copa c f' (.sender a) = some g) ↔
      f'.sender.phase ≠ .finished ∧
        (f'.sender.phase = .receiving → WaitEnds copa c f'.sender)) := by
  have hinv := run_invariant_of_meets (flowStep copa c) (CopaFlowInv c) (OnSender ReadingLater)
    (fun _ _ _ h hok hstep => copaFlowInv_step h hpos hids hok hstep)
    (copaFlowInv_of_start hstart) hclock hrun
  have hdefined : ∀ a : SendAction, a.Fits copa c f'.sender → ReadingLater f'.sender a →
      a.Arrives f'.toSender → ∃ g, flowStep copa c f' (.sender a) = some g := by
    intro a hfits hlater harrives
    obtain ⟨r, hr, _⟩ := hinv.sendStep hpos hlater harrives hfits
    refine ⟨f'.afterSender r, ?_⟩
    rw [flowStep, if_pos harrives, hr]
    rfl
  refine ⟨hdefined, ?_⟩
  rw [← exists_unaided_iff]
  constructor
  · rintro ⟨a, g, hunaided, hlater, -⟩
    exact ⟨a, hunaided, hlater⟩
  · rintro ⟨a, hunaided, hlater⟩
    obtain ⟨g, hg⟩ := hdefined a hunaided.fits.1 hlater (hunaided.fits.2 _)
    exact ⟨a, g, hunaided, hlater, hg⟩

end

/-- A flow of Copa with `do_ss:auto:0.5`, over an empty network. -/
def copaBatchFlow : Flow MarkovianCC where
  sender := ⟨autoHalf.init, 0, -1, 0, 0, 0, 0, 0, 0, handshakeHeader, .head⟩
  receiver := .batch ⟨handshakeHeader, []⟩
  toReceiver := []
  toSender := []
  sent := []
  control := []
  accepted := []

theorem copaStart_copaBatchFlow : CopaStart secondFlow copaBatchFlow where
  flow := ⟨⟨autoHalf, handshakeHeader, 0, 0, rfl⟩, rfl, rfl, by decide⟩
  buf := by decide
  configured := ⟨_, _, _, autoHalf, [], autoHalf, handshakeHeader, 0, 0, autoHalf_configured,
    by decide, rfl, rfl⟩

/-- A window of packets of which the first one comes back, until the sender waits, having read the
clock at `now`. -/
def firstWindow (now : ℚ) : List FlowAction :=
  .sender (.enter 1) :: List.replicate 50 (.sender (.transmit 100)) ++
    [.batch (.receive firstPacket), .batch (.endBatch (fun _ => 3) 200),
      .sender (.stopTransmitting 101 now)]

/-- Half a millisecond after the last packet the timeout is cut to 0; after a millisecond it is
-1, and the sender needs the network. -/
theorem copa_flow_never_aborts_echo :
    (∃ f', run (flowStep copa secondFlow) copaBatchFlow (firstWindow (3/2)) = some f' ∧
      (∀ a : SendAction, a.Fits copa secondFlow f'.sender → ReadingLater f'.sender a →
        a.Arrives f'.toSender → ∃ g, flowStep copa secondFlow f' (.sender a) = some g) ∧
      ∃ a g, a.Unaided copa secondFlow f'.sender ∧ ReadingLater f'.sender a ∧
        flowStep copa secondFlow f' (.sender a) = some g) ∧
    ∃ f', run (flowStep copa secondFlow) copaBatchFlow (firstWindow 2) = some f' ∧
      ¬ ∃ a g, a.Unaided copa secondFlow f'.sender ∧ ReadingLater f'.sender a ∧
        flowStep copa secondFlow f' (.sender a) = some g := by
  have hrun := (Option.some_get (x := run (flowStep copa secondFlow) copaBatchFlow
    (firstWindow (3/2))) (by decide +kernel)).symm
  have hrun' := (Option.some_get (x := run (flowStep copa secondFlow) copaBatchFlow
    (firstWindow 2)) (by decide +kernel)).symm
  obtain ⟨hdefined, hgoes⟩ := copa_flow_never_aborts (by decide) (by decide)
    copaStart_copaBatchFlow (by decide +kernel) hrun
  obtain ⟨_, hstays⟩ := copa_flow_never_aborts (by decide) (by decide)
    copaStart_copaBatchFlow (by decide +kernel) hrun'
  refine ⟨⟨_, hrun, hdefined, hgoes.mpr ⟨by decide +kernel, fun _ => ?_⟩⟩, _, hrun', fun h => ?_⟩
  · exact ⟨0, by decide +kernel, le_refl 0⟩
  · obtain ⟨v, hv, hnonneg⟩ := (hstays.mp h).2 (by decide +kernel)
    have hlate : doubleToInt (receiveTimeout copa secondFlow ((run (flowStep copa secondFlow)
        copaBatchFlow (firstWindow 2)).get (by decide +kernel)).sender) = some (-1) := by
      decide +kernel
    rw [hlate] at hv
    cases hv
    exact absurd hnonneg (by decide)

end CopaNgscope
