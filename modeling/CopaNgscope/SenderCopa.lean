import CopaNgscope.MarkovianCCAccounting
import CopaNgscope.MarkovianCCStartUp
import CopaNgscope.SenderInFlight

/-! Copa inside `CTCP::send_data`. What the loop does to the controller is a run of its callbacks,
and in a flow over any network none of them fails an assertion. -/
namespace CopaNgscope
open RunInvariant MarkovianCC

/-- Copa as the controller of `CTCP`. The timeout is never changed, and `close` and
`onLinkRateMeasurement` do nothing. -/
def copa : CongCtrl MarkovianCC where
  init := fun q => some q.init
  close := id
  setTimestamp := fun q now => { q with curTick := now }
  getTheWindow := MarkovianCC.theWindow
  getIntersendTime := MarkovianCC.intersendTime
  getTimeout := fun _ => 1000
  onPktSent := MarkovianCC.onPktSent
  onACK := fun q call => (q.onACK call.ack call.sentTime call.adjustUs).toOption
  onTimeout := id
  onLinkRateMeasurement := fun q _ => q

section
variable (c : FlowConfig)

/-! ### Callbacks -/

/-- The callbacks for a header that is taken for an ACK. -/
def ackCallbacks (h : TCPHeader) (now : ℚ) : List Callback :=
  match ackCall c.srcId c.flowId c.trainLength h with
  | some call => [.setTimestamp now, .onACK call.ack call.sentTime call.adjustUs]
  | none => []

/-- The callbacks of a step of the loop. -/
def senderCallbacks (s : Sender MarkovianCC) : SendAction → List Callback
  | .enter now =>
    if 2000 < now-s.lastAckTime ∧ FlowOpen c s now then [.setTimestamp now, .init] else []
  | .transmit _ =>
    match sentTrain c.trainLength s.seqNum with
    | some train => [.setTimestamp s.curTime, .onPktSent train]
    | none => []
  | .stopTransmitting _ _ => []
  | .timedOut now => if s.lastSendTime+1000 < now then [.onTimeout] else []
  | .receive header now => ackCallbacks c header now
  | .receiveError now => ackCallbacks c s.buf now
  | .finish now => [.setTimestamp now]

/-- The receiver's steps make none. -/
def flowStepCallbacks (f : Flow MarkovianCC) : FlowAction → List Callback
  | .sender a => senderCallbacks c f.sender a
  | _ => []

/-- The callbacks of a run of the flow. -/
def flowCallbacks : Flow MarkovianCC → List FlowAction → List Callback
  | _, [] => []
  | f, a :: actions =>
    flowStepCallbacks c f a ++
      match flowStep copa c f a with
      | some g => flowCallbacks g actions
      | none => []

variable {c}

theorem ackCall_of_not_own {h : TCPHeader} (hown : ¬ c.Own h) :
    ackCall c.srcId c.flowId c.trainLength h = none := by
  have hids : h.srcId ≠ c.srcId ∨ h.flowId ≠ c.flowId := by
    by_contra hids
    rw [not_or, not_not, not_not] at hids
    exact hown hids
  unfold ackCall
  exact if_pos hids

theorem congctrl_estimateLinkRate (s : Sender MarkovianCC) (now : ℚ) :
    (estimateLinkRate copa c s now).congctrl = s.congctrl := by
  unfold estimateLinkRate
  extract_lets estimate
  split_ifs
  · rfl
  · rfl
  · rfl

theorem takeAck_callbacks {s : Sender MarkovianCC} {r : SendOutcome MarkovianCC} {now : ℚ}
    (hr : takeAck copa c s now = some r) :
    run step s.congctrl (ackCallbacks c s.buf now) = some r.sender.congctrl := by
  by_cases hown : c.Own s.buf
  · have hids : ¬ (s.buf.srcId ≠ c.srcId ∨ s.buf.flowId ≠ c.flowId) := by
      rw [not_or, not_not, not_not]
      exact hown
    rw [takeAck, if_neg hids] at hr
    extract_lets call t at hr
    have ht : t.congctrl = s.congctrl := congctrl_estimateLinkRate _ now
    obtain ⟨congctrl, hack, rfl⟩ := Option.map_eq_some_iff.mp hr
    rw [ht] at hack
    unfold ackCallbacks
    cases hcall : ackCall c.srcId c.flowId c.trainLength s.buf with
    | none =>
      simp only [call, hcall] at hack
      exact hack
    | some x =>
      simp only [call, hcall] at hack
      exact (run_singleton step _ _).trans hack
  · rw [takeAck_of_not_own hown] at hr
    cases hr
    rw [ackCallbacks, ackCall_of_not_own hown]
    rfl

/-- A step of the loop leaves Copa as its callbacks do. -/
theorem sendStep_callbacks {s : Sender MarkovianCC} {a : SendAction}
    {r : SendOutcome MarkovianCC} (hr : sendStep copa c s a = some r) :
    run step s.congctrl (senderCallbacks c s a) = some r.sender.congctrl := by
  cases a with
  | enter now =>
    rw [sendStep] at hr
    split_ifs at hr
    obtain ⟨t, ht, rfl⟩ := Option.map_eq_some_iff.mp hr
    rw [senderCallbacks]
    rw [enterLoop] at ht
    split_ifs at ht with hlate hopen
    · obtain ⟨q, hq, rfl⟩ := Option.map_eq_some_iff.mp ht
      cases hq
      rw [if_pos ⟨hlate, hopen⟩]
      rfl
    · cases ht
      rw [if_neg (fun h => hopen h.2)]
      rfl
    · cases ht
      rw [if_neg (fun h => hlate h.1)]
      rfl
  | transmit txTimestamp =>
    rw [sendStep] at hr
    split_ifs at hr
    cases hr
    rw [senderCallbacks]
    cases hsent : sentTrain c.trainLength s.seqNum with
    | none =>
      simp only [transmitPacket, hsent]
      rfl
    | some train =>
      simp only [transmitPacket, hsent]
      rfl
  | stopTransmitting txTimestamp now =>
    rw [sendStep] at hr
    split_ifs at hr
    · cases hr
      rfl
    · cases hr
      rfl
  | timedOut now =>
    rw [sendStep] at hr
    split_ifs at hr
    cases hr
    rw [senderCallbacks, receiveTimedOut]
    -- the callback does nothing
    have htimeout : (if s.lastSendTime+copa.getTimeout s.congctrl < now then
        copa.onTimeout s.congctrl else s.congctrl) = s.congctrl := ite_self _
    simp only [htimeout]
    split_ifs
    · rfl
    · rfl
  | receive header now =>
    rw [sendStep] at hr
    split_ifs at hr
    exact takeAck_callbacks hr
  | receiveError now =>
    rw [sendStep] at hr
    split_ifs at hr
    exact takeAck_callbacks hr
  | finish now =>
    rw [sendStep] at hr
    split_ifs at hr
    cases hr
    rfl

/-- In every run of a flow Copa goes through the run of its callbacks. -/
theorem flow_callbacks {f f' : Flow MarkovianCC} {actions : List FlowAction}
    (hrun : run (flowStep copa c) f actions = some f') :
    run step f.sender.congctrl (flowCallbacks c f actions) = some f'.sender.congctrl := by
  induction actions generalizing f with
  | nil =>
    cases hrun
    rfl
  | cons a actions ih =>
    obtain ⟨g, hg, hrest⟩ := Option.bind_eq_some_iff.mp hrun
    rw [flowCallbacks, hg, run_append_eq_some]
    rcases flowStep_cases hg with
      ⟨b, r, rfl, hr, rfl⟩ | ⟨b, s, t, rfl, _, _, _, rfl⟩ | ⟨b, s, r, rfl, _, _, _, rfl⟩
    · exact ⟨r.sender.congctrl, sendStep_callbacks hr, ih hrest⟩
    · exact ⟨f.sender.congctrl, rfl, ih hrest⟩
    · exact ⟨f.sender.congctrl, rfl, ih hrest⟩

/-! ### The assertions -/

/-- Copa with slow start configured, between two callbacks of a flow at time `now`. -/
structure CopaReady (now : ℚ) (q : MarkovianCC) : Prop where
  doSlowStart : q.doSlowStart = true
  rttWindow : q.rttWindow.Coherent q.curTick
  keys : ∀ k ∈ q.unacknowledgedPackets.keys, 0 ≤ k
  curTick : q.curTick ≤ now

/-- What `send_data` may call at time `now`. -/
def CallbackAt (now : ℚ) : Callback → Prop
  | .init | .onTimeout => True
  | .setTimestamp t => t = now
  | .onPktSent seqNum => 0 ≤ seqNum
  | .setMinRtt _ | .onACK _ _ _ => False

theorem CopaReady.mono {now now' : ℚ} {q : MarkovianCC} (h : CopaReady now q) (hnow : now ≤ now') :
    CopaReady now' q :=
  { h with curTick := h.curTick.trans hnow }

theorem CopaReady.step {now : ℚ} {q u : MarkovianCC} {b : Callback} (h : CopaReady now q)
    (hb : CallbackAt now b) (hu : q.step b = some u) : CopaReady now u := by
  have hconfig := sameConfig_step hu
  have hslow : u.doSlowStart = true := hconfig.doSlowStart.trans h.doSlowStart
  cases b with
  | init =>
    have hcoherent := coherent_step h.rttWindow (by trivial) hu
    cases hu
    exact ⟨hslow, hcoherent, fun k hk => absurd hk List.not_mem_nil, h.curTick⟩
  | setTimestamp t =>
    have hforward : q.ClockForward (.setTimestamp t) := h.curTick.trans hb.ge
    have hcoherent := coherent_step h.rttWindow hforward hu
    cases hu
    exact ⟨hslow, hcoherent, h.keys, hb.le⟩
  | onPktSent seqNum =>
    have hcoherent := coherent_step h.rttWindow (by trivial) hu
    cases hu
    obtain ⟨e, i, v, hframe⟩ := onPktSent_frame q seqNum
    refine ⟨hslow, hcoherent, fun k hk => ?_, ?_⟩
    · rw [hframe] at hk
      rcases (OrderedMap.mem_keys_insert _ _ _ k).mp hk with rfl | hk
      · exact hb
      · exact h.keys k hk
    · rw [hframe]
      exact h.curTick
  | onTimeout =>
    cases hu
    exact h
  | setMinRtt x => exact hb.elim
  | onACK ack sentTime adjustUs => exact hb.elim

theorem CopaReady.setTimestamp {now : ℚ} {q : MarkovianCC} (h : CopaReady now q) :
    CopaReady now { q with curTick := now } :=
  h.step (b := .setTimestamp now) rfl rfl

theorem CopaReady.run {now : ℚ} {q u : MarkovianCC} {bs : List Callback} (h : CopaReady now q)
    (hb : ∀ b ∈ bs, CallbackAt now b) (hu : RunInvariant.run MarkovianCC.step q bs = some u) :
    CopaReady now u :=
  run_invariant_of_meets MarkovianCC.step (CopaReady now) (fun _ b => CallbackAt now b)
    (fun _ _ _ hq hb hu => hq.step hb hu) h
    ((runMeets_actions_iff MarkovianCC.step (CallbackAt now) hu).mpr hb) hu

/-- An ACK of a packet that was sent before now gets through all four assertions. -/
theorem CopaReady.onACK {now : ℚ} {q : MarkovianCC} (h : CopaReady now q) (htick : q.curTick = now)
    {ack : ℤ} {sentTime : ℚ} {adjustUs : ℤ} (hsent : sentTime < now) :
    ∃ u, q.onACK ack sentTime adjustUs = .ok u ∧ CopaReady now u := by
  have hsample := ackSample_of_coherent h.rttWindow (hsent.trans_eq htick.symm) adjustUs
  cases hu : q.onACK ack sentTime adjustUs with
  | ok u =>
    have hkept := (sameConfig_onACK hu).doSlowStart
    have htick' := curTick_onACK hu
    refine ⟨u, rfl, hkept.trans h.doSlowStart, ?_, fun k hk => h.keys k (mem_keys_onACK hu hk),
      (htick'.trans htick).le⟩
    rw [rttWindow_onACK hu, htick']
    exact coherent_newRttSample h.rttWindow le_rfl _
  | error x =>
    -- the sample is taken, slow start is configured, and the numbers are in order
    rw [onACK_of_ackSample hsample] at hu
    have hentry := ledger_of_ackEntry ⟨_, hsample, rfl⟩
    have hslow := (sameConfig_ackEntry ⟨_, hsample, rfl⟩).doSlowStart
    generalize (updateInterarrival _).updateDelta false (q.currRtt sentTime adjustUs) = e
      at hu hentry hslow
    cases hr : e.updateIntersendTime with
    | error y =>
      have hoff := (updateIntersendTime_eq_error hr).1
      rw [hslow, h.doSlowStart] at hoff
      cases hoff
    | ok r =>
      have hmap := (counted_congr ((ledger_updateIntersendTime hr).trans hentry)).2.2
      obtain ⟨v, hv⟩ := ackTail_of_keys (q := r) (by rw [hmap]; exact h.keys) ack
      rw [hr] at hu
      have hfail : (Except.error x : Except Assertion MarkovianCC) = .ok v := hu.symm.trans hv
      cases hfail

end

end CopaNgscope
