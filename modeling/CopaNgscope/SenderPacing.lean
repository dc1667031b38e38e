import Mathlib.Tactic.Linarith
import CopaNgscope.OwnAcks
import CopaNgscope.SendDataTimeout

/-! How fast `CTCP::send_data` sends, and how far ahead of the ACKs, whatever the controller does:
the pacing is a token bucket that is spent one train at a time. -/
namespace CopaNgscope
open RunInvariant

/-! ### Trains -/

/-- The number after the last packet of the train that `seqNum` is in. -/
def trainEnd (trainLength seqNum : ℤ) : ℤ := seqNum+(-seqNum)%trainLength

theorem trainEnd_of_dvd {trainLength seqNum : ℤ} (h : trainLength ∣ seqNum) :
    trainEnd trainLength seqNum = seqNum := by
  rw [trainEnd, Int.emod_eq_zero_of_dvd (dvd_neg.mpr h), add_zero]

theorem le_trainEnd {trainLength : ℤ} (hpos : 1 ≤ trainLength) (seqNum : ℤ) :
    seqNum ≤ trainEnd trainLength seqNum :=
  le_add_of_nonneg_right (Int.emod_nonneg _ (by omega))

/-- The first packet of a train. -/
theorem trainEnd_succ_of_dvd {trainLength seqNum : ℤ} (hpos : 1 ≤ trainLength)
    (h : trainLength ∣ seqNum) : trainEnd trainLength (seqNum+1) = seqNum+trainLength := by
  have hrest : (-(seqNum+1))%trainLength = trainLength-1 := by
    obtain ⟨k, rfl⟩ := h
    have hsplit : -(trainLength*k+1) = (trainLength-1)+trainLength*(-(k+1)) := by ring
    rw [hsplit, Int.add_mul_emod_self_left, Int.emod_eq_of_lt (by omega) (by omega)]
  rw [trainEnd, hrest]
  ring

/-- A later one. -/
theorem trainEnd_succ_of_not_dvd {trainLength seqNum : ℤ} (hpos : 1 ≤ trainLength)
    (h : ¬ trainLength ∣ seqNum) :
    trainEnd trainLength (seqNum+1) = trainEnd trainLength seqNum := by
  have hne : (-seqNum)%trainLength ≠ 0 := by
    intro hzero
    exact h (dvd_neg.mp (Int.dvd_of_emod_eq_zero hzero))
  have hnonneg : 0 ≤ (-seqNum)%trainLength := Int.emod_nonneg _ (by omega)
  have hlt : (-seqNum)%trainLength < trainLength := Int.emod_lt_of_pos _ (by omega)
  have hrest : (-(seqNum+1))%trainLength = (-seqNum)%trainLength-1 := by
    have hsplit : -(seqNum+1) =
        ((-seqNum)%trainLength-1)+trainLength*((-seqNum)/trainLength) := by
      have hdiv := Int.emod_add_mul_ediv (-seqNum) trainLength
      omega
    rw [hsplit, Int.add_mul_emod_self_left, Int.emod_eq_of_lt (by omega) (by omega)]
  rw [trainEnd, trainEnd, hrest]
  ring

section
variable {κ : Type*} {cc : CongCtrl κ} {c : FlowConfig}

/-! ### Steps -/

/-- What an ACK changes besides the controller and the estimate of the link rate. -/
theorem takeAck_fields {s : Sender κ} {r : SendOutcome κ} {now : ℚ}
    (hr : takeAck cc c s now = some r) :
    r.sender.seqNum = s.seqNum ∧ r.sender.buf = s.buf ∧ r.sender.phase = .head ∧
      r.sender.largestAck = if c.Own s.buf then max s.largestAck (s.buf.seqNum+1)
        else s.largestAck := by
  by_cases hown : c.Own s.buf
  · have hids : ¬ (s.buf.srcId ≠ c.srcId ∨ s.buf.flowId ≠ c.flowId) := by
      rw [not_or, not_not, not_not]
      exact hown
    rw [takeAck, if_neg hids] at hr
    extract_lets call t at hr
    obtain ⟨congctrl, _, rfl⟩ := Option.map_eq_some_iff.mp hr
    obtain ⟨e, k, ht⟩ := estimateLinkRate_frame cc c
      { s with curTime := now, lastAckTime := now } now
    have hseq := congrArg Sender.seqNum ht
    have hbuf := congrArg Sender.buf ht
    have hlargest := congrArg Sender.largestAck ht
    refine ⟨hseq, hbuf, rfl, ?_⟩
    rw [if_pos hown]
    exact congrArg₂ max hlargest (congrArg (fun h : TCPHeader => h.seqNum+1) hbuf)
  · rw [takeAck_of_not_own hown] at hr
    cases hr
    exact ⟨rfl, rfl, rfl, (if_neg hown).symm⟩

theorem enterLoop_fields {s t : Sender κ} {now : ℚ} (h : enterLoop cc c s now = some t) :
    t.seqNum = s.seqNum ∧ t.buf = s.buf ∧
      (t.largestAck = s.largestAck ∨ t.largestAck = s.seqNum-1) := by
  rw [enterLoop] at h
  split_ifs at h
  · obtain ⟨congctrl, _, rfl⟩ := Option.map_eq_some_iff.mp h
    exact ⟨rfl, rfl, Or.inr rfl⟩
  · cases h
    exact ⟨rfl, rfl, Or.inl rfl⟩
  · cases h
    exact ⟨rfl, rfl, Or.inl rfl⟩

theorem not_dvd_of_tmod_ne {trainLength seqNum : ℤ} (h : Int.tmod seqNum trainLength ≠ 0) :
    ¬ trainLength ∣ seqNum :=
  fun hdvd => h (Int.tmod_eq_zero_of_dvd hdvd)

theorem dvd_of_not_mayTransmit {s : Sender κ} (h : ¬ MayTransmit cc c s) :
    c.trainLength ∣ s.seqNum := by
  by_contra hdvd
  exact h (Or.inr (fun hzero => hdvd (Int.dvd_of_tmod_eq_zero hzero)))

/-- The pacing interval when a packet is sent. -/
def IntervalAtLeast (cc : CongCtrl κ) (g : ℚ) (s : Sender κ) : SendAction → Prop
  | .transmit _ => g ≤ cc.getIntersendTime s.congctrl
  | _ => True

instance (g : ℚ) (s : Sender κ) : DecidablePred (IntervalAtLeast cc g s)
  | .transmit _ => inferInstanceAs (Decidable (g ≤ cc.getIntersendTime s.congctrl))
  | .enter _ | .stopTransmitting _ _ | .timedOut _ | .receive _ _ | .receiveError _ | .finish _ =>
    isTrue trivial

/-- Outside the sending loop trains are complete. -/
def WholeTrains (c : FlowConfig) (s : Sender κ) : Prop :=
  s.phase ≠ .sending → c.trainLength ∣ s.seqNum

theorem wholeTrains_step {s : Sender κ} {a : SendAction} {r : SendOutcome κ}
    (h : WholeTrains c s) (hr : sendStep cc c s a = some r) : WholeTrains c r.sender := by
  intro hphase
  cases a with
  | enter now =>
    rw [sendStep] at hr
    split_ifs at hr with hcond
    obtain ⟨t, ht, rfl⟩ := Option.map_eq_some_iff.mp hr
    rw [(enterLoop_fields ht).1]
    exact h (by rw [hcond.1]; exact SendPhase.noConfusion)
  | transmit txTimestamp =>
    rw [sendStep] at hr
    split_ifs at hr with hcond
    cases hr
    exact absurd hcond.1 hphase
  | stopTransmitting txTimestamp now =>
    rw [sendStep] at hr
    split_ifs at hr with hcond hhopeless
    · have hdvd := dvd_of_not_mayTransmit hcond.2
      cases hr
      exact hdvd
    · have hdvd := dvd_of_not_mayTransmit hcond.2
      cases hr
      exact hdvd
  | timedOut now =>
    rw [sendStep] at hr
    split_ifs at hr with hcond
    cases hr
    exact h (by rw [hcond.1]; exact SendPhase.noConfusion)
  | receive header now =>
    rw [sendStep] at hr
    split_ifs at hr with hcond
    rw [(takeAck_fields hr).1]
    exact h (by rw [hcond]; exact SendPhase.noConfusion)
  | receiveError now =>
    rw [sendStep] at hr
    split_ifs at hr with hcond
    rw [(takeAck_fields hr).1]
    exact h (by rw [hcond]; exact SendPhase.noConfusion)
  | finish now =>
    rw [sendStep] at hr
    split_ifs at hr with hcond
    cases hr
    refine h ?_
    rcases hcond with hbroken | ⟨hhead, _⟩
    · rw [hbroken]
      exact SendPhase.noConfusion
    · rw [hhead]
      exact SendPhase.noConfusion

/-! ### The token bucket -/

/-- Since `base`, when the next number was `n`, every packet has taken the time `g`, and the clock
has covered the train that is being sent as well. -/
structure Paced (c : FlowConfig) (g base : ℚ) (n : ℤ) (s : Sender κ) : Prop where
  lastSendTime : base+g*((s.seqNum-n:ℤ):ℚ) ≤ s.lastSendTime
  curTime : base+g*((trainEnd c.trainLength s.seqNum-n:ℤ):ℚ) ≤ s.curTime
  wholeTrains : WholeTrains c s

theorem paced_start (s : Sender κ) (g : ℚ) (h : WholeTrains c s) (hphase : s.phase ≠ .sending) :
    Paced c g (min s.lastSendTime s.curTime) s.seqNum s := by
  refine ⟨?_, ?_, h⟩
  · rw [sub_self, Int.cast_zero, mul_zero, add_zero]
    exact min_le_left _ _
  · rw [trainEnd_of_dvd (h hphase), sub_self, Int.cast_zero, mul_zero, add_zero]
    exact min_le_right _ _

/-- The clock covers the packets that are sent, so that the bucket may be emptied into it. -/
theorem Paced.seqNum_le {g base : ℚ} {n : ℤ} {s : Sender κ} (h : Paced c g base n s)
    (hpos : 1 ≤ c.trainLength) (hg : 0 ≤ g) : base+g*((s.seqNum-n:ℤ):ℚ) ≤ s.curTime := by
  have hcast : ((s.seqNum-n:ℤ):ℚ) ≤ ((trainEnd c.trainLength s.seqNum-n:ℤ):ℚ) :=
    Int.cast_le.mpr (sub_le_sub_right (le_trainEnd hpos s.seqNum) n)
  calc
    base+g*((s.seqNum-n:ℤ):ℚ) ≤ base+g*((trainEnd c.trainLength s.seqNum-n:ℤ):ℚ) :=
      add_le_add_right (mul_le_mul_of_nonneg_left hcast hg) base
    _ ≤ s.curTime := h.curTime

theorem paced_transmit {g base : ℚ} {n : ℤ} {s : Sender κ} (hpos : 1 ≤ c.trainLength)
    (h : Paced c g base n s) (hmay : MayTransmit cc c s)
    (hinterval : g ≤ cc.getIntersendTime s.congctrl) :
    base+g*((s.seqNum+1-n:ℤ):ℚ) ≤ s.lastSendTime+cc.getIntersendTime s.congctrl ∧
      base+g*((trainEnd c.trainLength (s.seqNum+1)-n:ℤ):ℚ) ≤ s.curTime := by
  have hlast := h.lastSendTime
  constructor
  · push_cast at hlast ⊢
    linarith
  · by_cases hdvd : c.trainLength ∣ s.seqNum
    · -- the time for the whole train has passed
      have hfree := hmay.resolve_right (fun hne => not_dvd_of_tmod_ne hne hdvd)
      have hlength : (0:ℚ) ≤ c.trainLength := by exact_mod_cast (by omega : 0 ≤ c.trainLength)
      have htrain := mul_le_mul_of_nonneg_right hinterval hlength
      rw [trainEnd_succ_of_dvd hpos hdvd]
      push_cast at hlast ⊢
      linarith [hfree.2.1]
    · rw [trainEnd_succ_of_not_dvd hpos hdvd]
      exact h.curTime

theorem paced_step {g base : ℚ} {n : ℤ} {s : Sender κ} {a : SendAction} {r : SendOutcome κ}
    (hpos : 1 ≤ c.trainLength) (hg : 0 ≤ g) (h : Paced c g base n s)
    (hclock : ReadingForward s a) (hinterval : IntervalAtLeast cc g s a)
    (hr : sendStep cc c s a = some r) : Paced c g base n r.sender := by
  have hwhole := wholeTrains_step h.wholeTrains hr
  -- a step that sends nothing, with the bucket as it is or filled up to the clock
  have hquiet (hseq : r.sender.seqNum = s.seqNum) (hcur : s.curTime ≤ r.sender.curTime)
      (hlast : s.lastSendTime ≤ r.sender.lastSendTime ∨ s.curTime ≤ r.sender.lastSendTime) :
      Paced c g base n r.sender := by
    refine ⟨?_, ?_, hwhole⟩
    · rw [hseq]
      rcases hlast with hlast | hlast
      · exact h.lastSendTime.trans hlast
      · exact (h.seqNum_le hpos hg).trans hlast
    · rw [hseq]
      exact h.curTime.trans hcur
  cases a with
  | enter now =>
    rw [sendStep] at hr
    split_ifs at hr
    obtain ⟨t, ht, rfl⟩ := Option.map_eq_some_iff.mp hr
    obtain ⟨hcur, hlast, _⟩ := enterLoop_times ht
    have hnow : s.curTime ≤ now := hclock now rfl
    refine hquiet (enterLoop_seqNum ht) (hcur ▸ hnow) ?_
    rcases hlast with hlast | hlast
    · exact Or.inl hlast.ge
    · exact Or.inr (hlast ▸ hnow)
  | transmit txTimestamp =>
    rw [sendStep] at hr
    split_ifs at hr with hcond
    cases hr
    obtain ⟨hlast, hcur⟩ := paced_transmit hpos h hcond.2 hinterval
    exact ⟨hlast, hcur, hwhole⟩
  | stopTransmitting txTimestamp now =>
    have hnow : s.curTime ≤ now := hclock now rfl
    rw [sendStep] at hr
    split_ifs at hr
    · cases hr
      exact hquiet rfl hnow (Or.inr (le_refl s.curTime))
    · cases hr
      exact hquiet rfl hnow (Or.inl (le_refl s.lastSendTime))
  | timedOut now =>
    rw [sendStep] at hr
    split_ifs at hr
    cases hr
    exact hquiet rfl (hclock now rfl) (Or.inl (le_refl s.lastSendTime))
  | receive header now =>
    rw [sendStep] at hr
    split_ifs at hr
    obtain ⟨hcur, hlast, _⟩ := takeAck_times hr
    refine hquiet (takeAck_fields hr).1 ?_ (Or.inl hlast.ge)
    rcases hcur with hcur | hcur
    · exact hcur.ge
    · exact hclock _ hcur
  | receiveError now =>
    rw [sendStep] at hr
    split_ifs at hr
    obtain ⟨hcur, hlast, _⟩ := takeAck_times hr
    refine hquiet (takeAck_fields hr).1 ?_ (Or.inl hlast.ge)
    rcases hcur with hcur | hcur
    · exact hcur.ge
    · exact hclock _ hcur
  | finish now =>
    rw [sendStep] at hr
    split_ifs at hr
    cases hr
    exact hquiet rfl (hclock now rfl) (Or.inl (le_refl s.lastSendTime))

/-! ### Flows -/

/-- A condition on the steps of the sender. -/
def OnSender (ok : Sender κ → SendAction → Prop) (f : Flow κ) : FlowAction → Prop
  | .sender a => ok f.sender a
  | _ => True

instance (ok : Sender κ → SendAction → Prop) [∀ s a, Decidable (ok s a)] (f : Flow κ) :
    DecidablePred (OnSender ok f)
  | .sender a => inferInstanceAs (Decidable (ok f.sender a))
  | .client _ | .batch _ => isTrue trivial

theorem runMeets_onSender_and {ok ok' : Sender κ → SendAction → Prop} {f : Flow κ}
    {actions : List FlowAction} (h : RunMeets (flowStep cc c) (OnSender ok) f actions)
    (h' : RunMeets (flowStep cc c) (OnSender ok') f actions) :
    RunMeets (flowStep cc c) (OnSender fun s a => ok s a ∧ ok' s a) f actions := by
  refine (h.and h').mono (fun g a hboth => ?_)
  cases a with
  | sender b => exact hboth
  | client b => trivial
  | batch b => trivial

/-- The receiver's steps leave the sender as it is, so that its invariants are those of flows. -/
theorem flow_sender_invariant (ok : Sender κ → SendAction → Prop) (Inv : Sender κ → Prop)
    (hs : ∀ s a r, Inv s → ok s a → sendStep cc c s a = some r → Inv r.sender) {f f' : Flow κ}
    {actions : List FlowAction} (h0 : Inv f.sender)
    (hok : RunMeets (flowStep cc c) (OnSender ok) f actions)
    (hrun : run (flowStep cc c) f actions = some f') : Inv f'.sender := by
  refine run_invariant_of_meets (flowStep cc c) (fun g => Inv g.sender) (OnSender ok) ?_ h0 hok
    hrun
  intro g a g' hinv hok hstep
  rcases flowStep_cases hstep with
    ⟨b, r, rfl, hr, rfl⟩ | ⟨b, s, t, _, _, _, _, rfl⟩ | ⟨b, s, r, _, _, _, _, rfl⟩
  · exact hs _ _ _ hinv hok hr
  · exact hinv
  · exact hinv

theorem flowStart_sender {f : Flow κ} (h : FlowStart cc c f) :
    f.sender.seqNum = 0 ∧ f.sender.largestAck = -1 ∧ f.sender.phase = .head := by
  obtain ⟨congctrl, buf, start, now, hinit⟩ := h.sender
  obtain ⟨k, _, hsender⟩ := Option.map_eq_some_iff.mp hinit
  rw [← hsender]
  exact ⟨rfl, rfl, rfl⟩

theorem flowStart_wholeTrains {f : Flow κ} (h : FlowStart cc c f) : WholeTrains c f.sender := by
  intro _
  rw [(flowStart_sender h).1]
  exact dvd_zero _

/-- The packets sent are counted by the sequence number. -/
theorem flow_sent_length {f f' : Flow κ} {actions : List FlowAction}
    (h0 : (f.sent.length:ℤ) = f.sender.seqNum)
    (hrun : run (flowStep cc c) f actions = some f') : (f'.sent.length:ℤ) = f'.sender.seqNum := by
  refine run_invariant (flowStep cc c) (fun g => (g.sent.length:ℤ) = g.sender.seqNum) ?_ h0 hrun
  intro g a g' hg hstep
  rcases (flowStep_spec hstep).sent with ⟨hsent, hseq⟩ | ⟨p, hsent, _, hseq⟩
  · rw [hsent, hseq]
    exact hg
  · rw [hsent, hseq, List.length_append, Nat.cast_add, hg]
    rfl

/-- From any point of a flow outside the sending loop, as long as the pacing interval is at least
`g`, the packets sent take `g` each out of the time that has passed and the credit there was. This
holds for trains of any length and every controller, receiver and network. -/
theorem flow_packets_paced {f₀ f f' : Flow κ} {before actions : List FlowAction} {g : ℚ}
    (hpos : 1 ≤ c.trainLength) (hg : 0 ≤ g) (hstart : FlowStart cc c f₀)
    (hbefore : run (flowStep cc c) f₀ before = some f) (hphase : f.sender.phase ≠ .sending)
    (hrun : run (flowStep cc c) f actions = some f')
    (hclock : RunMeets (flowStep cc c) (OnSender ReadingForward) f actions)
    (hinterval : RunMeets (flowStep cc c) (OnSender (IntervalAtLeast cc g)) f actions) :
    g*((f'.sent.length:ℚ)-f.sent.length) ≤
      f'.sender.curTime-min f.sender.lastSendTime f.sender.curTime := by
  have hwhole : WholeTrains c f.sender := by
    refine flow_sender_invariant (fun _ _ => True) (WholeTrains c)
      (fun s a r h _ hr => wholeTrains_step h hr) (flowStart_wholeTrains hstart) ?_ hbefore
    exact runMeets_of_forall _ (fun s a => by cases a <;> trivial) _ _
  have hpaced := flow_sender_invariant _ (Paced c g _ f.sender.seqNum)
    (fun s a r h hok hr => paced_step hpos hg h hok.1 hok.2 hr)
    (paced_start f.sender g hwhole hphase) (runMeets_onSender_and hclock hinterval) hrun
  have hzero : (f₀.sent.length:ℤ) = f₀.sender.seqNum := by
    rw [hstart.sent, (flowStart_sender hstart).1]
    rfl
  have hlength := flow_sent_length hzero hbefore
  have hlength' := flow_sent_length hlength hrun
  have hcount : ((f'.sender.seqNum-f.sender.seqNum:ℤ):ℚ) = (f'.sent.length:ℚ)-f.sent.length := by
    rw [← hlength, ← hlength']
    push_cast
    rfl
  have hcovered := hpaced.seqNum_le hpos hg
  rw [hcount] at hcovered
  linarith

end

/-- A controller that lets a packet out every two milliseconds. -/
def everyTwoMs : CongCtrl Unit := { onePacket with getIntersendTime := fun _ => 2 }

theorem flow_packets_paced_first : ∃ f',
    run (flowStep everyTwoMs secondFlow) batchFlow [.sender (.enter 2), .sender (.transmit 100)] =
      some f' ∧
    2*((f'.sent.length:ℚ)-batchFlow.sent.length) ≤
      f'.sender.curTime-min batchFlow.sender.lastSendTime batchFlow.sender.curTime := by
  have hrun := (Option.some_get (x := run (flowStep everyTwoMs secondFlow) batchFlow
    [.sender (.enter 2), .sender (.transmit 100)]) (by decide +kernel)).symm
  have hstart : FlowStart everyTwoMs secondFlow batchFlow :=
    ⟨⟨(), handshakeHeader, 0, 0, rfl⟩, rfl, rfl, by decide⟩
  have hbefore : run (flowStep everyTwoMs secondFlow) batchFlow [] = some batchFlow := rfl
  exact ⟨_, hrun, flow_packets_paced (by decide) (by norm_num) hstart hbefore (by decide) hrun
    (by decide +kernel) (by decide +kernel)⟩

end CopaNgscope
