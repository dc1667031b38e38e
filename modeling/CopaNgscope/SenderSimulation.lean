import CopaNgscope.FlowNetwork

/-! `CTCP::send_data` sees of its congestion controller what the calls return, so that a controller
may be replaced by one that does the same, in every run of the flow. -/
namespace CopaNgscope
open RunInvariant

variable {κ κ' : Type*}

/-- The calls of `cc'` do what those of `cc` do, seen through `φ`. -/
structure CongCtrl.Simulates (cc' : CongCtrl κ') (cc : CongCtrl κ) (φ : κ → κ') : Prop where
  init : ∀ q, cc'.init (φ q) = (cc.init q).map φ
  close : ∀ q, cc'.close (φ q) = φ (cc.close q)
  setTimestamp : ∀ q now, cc'.setTimestamp (φ q) now = φ (cc.setTimestamp q now)
  getTheWindow : ∀ q, cc'.getTheWindow (φ q) = cc.getTheWindow q
  getIntersendTime : ∀ q, cc'.getIntersendTime (φ q) = cc.getIntersendTime q
  getTimeout : ∀ q, cc'.getTimeout (φ q) = cc.getTimeout q
  onPktSent : ∀ q seqNum, cc'.onPktSent (φ q) seqNum = φ (cc.onPktSent q seqNum)
  onACK : ∀ q call, cc'.onACK (φ q) call = (cc.onACK q call).map φ
  onTimeout : ∀ q, cc'.onTimeout (φ q) = φ (cc.onTimeout q)
  onLinkRateMeasurement : ∀ q rate,
    cc'.onLinkRateMeasurement (φ q) rate = φ (cc.onLinkRateMeasurement q rate)

def Sender.map (φ : κ → κ') (s : Sender κ) : Sender κ' := { s with congctrl := φ s.congctrl }

def SendOutcome.map (φ : κ → κ') (r : SendOutcome κ) : SendOutcome κ' :=
  { r with sender := r.sender.map φ }

def Flow.map (φ : κ → κ') (f : Flow κ) : Flow κ' := { f with sender := f.sender.map φ }

section
variable {cc' : CongCtrl κ'} {cc : CongCtrl κ} {φ : κ → κ'} {c : FlowConfig}

theorem mayTransmit_map (h : cc'.Simulates cc φ) (s : Sender κ) :
    MayTransmit cc' c (s.map φ) ↔ MayTransmit cc c s := by
  unfold MayTransmit Sender.map
  rw [h.getTheWindow, h.getIntersendTime]
  rfl

theorem hopeless_map (h : cc'.Simulates cc φ) (s : Sender κ) :
    Hopeless cc' c (s.map φ) ↔ Hopeless cc c s := by
  unfold Hopeless Sender.map
  rw [h.getTheWindow, h.getIntersendTime]

theorem enterLoop_map (h : cc'.Simulates cc φ) (s : Sender κ) (now : ℚ) :
    enterLoop cc' c (s.map φ) now = (enterLoop cc c s now).map (Sender.map φ) := by
  rw [enterLoop, enterLoop]
  by_cases hlate : 2000 < now-s.lastAckTime
  · refine (if_pos hlate).trans ?_
    rw [if_pos hlate]
    by_cases hflow : FlowOpen c { s with curTime := now } now
    · refine (if_pos hflow).trans ?_
      rw [if_pos hflow]
      change (cc'.init (cc'.setTimestamp (φ s.congctrl) now)).map _ = _
      rw [h.setTimestamp, h.init, Option.map_map, Option.map_map]
      rfl
    · refine (if_neg hflow).trans ?_
      rw [if_neg hflow]
      rfl
  · refine (if_neg hlate).trans ?_
    rw [if_neg hlate]
    rfl

theorem transmitPacket_map (h : cc'.Simulates cc φ) (s : Sender κ) (txTimestamp : UInt64) :
    transmitPacket cc' c (s.map φ) txTimestamp = (transmitPacket cc c s txTimestamp).map φ := by
  unfold transmitPacket Sender.map
  cases sentTrain c.trainLength s.seqNum with
  | none =>
    dsimp only
    rw [h.getIntersendTime]
    rfl
  | some train =>
    dsimp only
    rw [h.getIntersendTime, h.setTimestamp, h.onPktSent]
    rfl

theorem mayTimeOut_map (h : cc'.Simulates cc φ) (s : Sender κ) :
    MayTimeOut cc' c (s.map φ) ↔ MayTimeOut cc c s := by
  unfold MayTimeOut receiveTimeout Sender.map
  dsimp only
  rw [h.getTheWindow, h.getIntersendTime]

theorem receiveTimedOut_map (h : cc'.Simulates cc φ) (s : Sender κ) (now : ℚ) :
    receiveTimedOut cc' (s.map φ) now = (receiveTimedOut cc s now).map φ := by
  unfold receiveTimedOut Sender.map
  dsimp only
  rw [h.getTimeout, h.onTimeout]
  split_ifs
  · rfl
  · rfl

theorem estimateLinkRate_map (h : cc'.Simulates cc φ) (s : Sender κ) (now : ℚ) :
    estimateLinkRate cc' c (s.map φ) now = (estimateLinkRate cc c s now).map φ := by
  have htold (rate : ℚ) : (if 2*c.trainLength < s.buf.seqNum+1 then
      cc'.onLinkRateMeasurement (φ s.congctrl) rate else φ s.congctrl) =
      φ (if 2*c.trainLength < s.buf.seqNum+1 then
        cc.onLinkRateMeasurement s.congctrl rate else s.congctrl) := by
    split_ifs
    · exact h.onLinkRateMeasurement _ _
    · rfl
  unfold estimateLinkRate
  by_cases hcond : Int.tmod s.buf.seqNum c.trainLength ≠ 0 ∧ s.lastRecvTime ≠ 0
  · rw [if_pos hcond]
    refine (if_pos hcond).trans ?_
    extract_lets estimate
    unfold Sender.map
    rw [← htold]
    rfl
  · rw [if_neg hcond]
    exact if_neg hcond

theorem takeAck_map (h : cc'.Simulates cc φ) (s : Sender κ) (now : ℚ) :
    takeAck cc' c (s.map φ) now = (takeAck cc c s now).map (SendOutcome.map φ) := by
  unfold takeAck
  by_cases hids : s.buf.srcId ≠ c.srcId ∨ s.buf.flowId ≠ c.flowId
  · rw [if_pos hids]
    exact if_pos hids
  · rw [if_neg hids]
    refine (if_neg hids).trans ?_
    extract_lets call' t' call t
    have ht : t' = t.map φ :=
      estimateLinkRate_map h { s with curTime := now, lastAckTime := now } now
    have hcall : call' = call := rfl
    rw [ht, hcall]
    generalize call = made
    cases made with
    | none => rfl
    | some x =>
      change (cc'.onACK (cc'.setTimestamp (φ t.congctrl) now) x).map _ = _
      rw [h.setTimestamp, h.onACK, Option.map_map, Option.map_map]
      rfl

theorem sendStep_map (h : cc'.Simulates cc φ) (s : Sender κ) (a : SendAction) :
    sendStep cc' c (s.map φ) a = (sendStep cc c s a).map (SendOutcome.map φ) := by
  cases a with
  | enter now =>
    rw [sendStep, sendStep]
    by_cases hcond : s.phase = .head ∧ FlowOpen c s s.curTime
    · refine (if_pos hcond).trans ?_
      rw [if_pos hcond, enterLoop_map h, Option.map_map, Option.map_map]
      rfl
    · refine (if_neg hcond).trans ?_
      rw [if_neg hcond]
      rfl
  | transmit txTimestamp =>
    rw [sendStep, sendStep]
    by_cases hcond : s.phase = .sending ∧ MayTransmit cc c s
    · rw [if_pos hcond]
      refine (if_pos (hcond.imp_right (mayTransmit_map h s).mpr)).trans ?_
      rw [transmitPacket_map h]
      rfl
    · rw [if_neg hcond]
      exact if_neg (fun hmap => hcond (hmap.imp_right (mayTransmit_map h s).mp))
  | stopTransmitting txTimestamp now =>
    rw [sendStep, sendStep]
    by_cases hcond : s.phase = .sending ∧ ¬ MayTransmit cc c s
    · rw [if_pos hcond]
      refine (if_pos (hcond.imp_right (mt (mayTransmit_map h s).mp))).trans ?_
      by_cases hhope : Hopeless cc c s
      · rw [if_pos hhope]
        exact if_pos ((hopeless_map h s).mpr hhope)
      · rw [if_neg hhope]
        exact if_neg (mt (hopeless_map h s).mp hhope)
    · rw [if_neg hcond]
      exact if_neg (fun hmap => hcond (hmap.imp_right (mt (mayTransmit_map h s).mpr)))
  | timedOut now =>
    rw [sendStep, sendStep]
    by_cases hcond : s.phase = .receiving ∧ MayTimeOut cc c s
    · rw [if_pos hcond, receiveTimedOut_map h]
      exact if_pos (hcond.imp_right (mayTimeOut_map h s).mpr)
    · rw [if_neg hcond]
      exact if_neg (fun hmap => hcond (hmap.imp_right (mayTimeOut_map h s).mp))
  | receive header now =>
    rw [sendStep, sendStep]
    by_cases hcond : s.phase = .receiving
    · rw [if_pos hcond]
      exact (if_pos hcond).trans (takeAck_map h { s with buf := header } now)
    · rw [if_neg hcond]
      exact if_neg hcond
  | receiveError now =>
    rw [sendStep, sendStep]
    by_cases hcond : s.phase = .receiving
    · rw [if_pos hcond]
      exact (if_pos hcond).trans (takeAck_map h s now)
    · rw [if_neg hcond]
      exact if_neg hcond
  | finish now =>
    rw [sendStep, sendStep]
    by_cases hcond : s.phase = .broken ∨ (s.phase = .head ∧ ¬ FlowOpen c s s.curTime)
    · rw [if_pos hcond]
      refine (if_pos hcond).trans ?_
      have hclose : cc'.close (cc'.setTimestamp (φ s.congctrl) now) =
          φ (cc.close (cc.setTimestamp s.congctrl now)) := by
        rw [h.setTimestamp, h.close]
      simp only [Sender.map, hclose]
      rfl
    · rw [if_neg hcond]
      exact if_neg hcond

theorem flowStep_map (h : cc'.Simulates cc φ) (f : Flow κ) (a : FlowAction) :
    flowStep cc' c (f.map φ) a = (flowStep cc c f a).map (Flow.map φ) := by
  cases a with
  | sender a =>
    rw [flowStep, flowStep]
    by_cases harrives : a.Arrives f.toSender
    · rw [if_pos harrives]
      refine (if_pos harrives).trans ?_
      change (sendStep cc' c (f.sender.map φ) a).map _ = _
      rw [sendStep_map h, Option.map_map, Option.map_map]
      rfl
    · rw [if_neg harrives]
      exact if_neg harrives
  | client a =>
    rw [flowStep, flowStep]
    cases hreceiver : f.receiver with
    | client t =>
      have hmap : (f.map φ).receiver = .client t := hreceiver
      rw [hmap]
      dsimp only
      by_cases harrives : a.Arrives f.toReceiver
      · rw [if_pos harrives, Option.map_map]
        exact if_pos harrives
      · rw [if_neg harrives]
        exact if_neg harrives
    | batch t =>
      have hmap : (f.map φ).receiver = .batch t := hreceiver
      rw [hmap]
      rfl
  | batch a =>
    rw [flowStep, flowStep]
    cases hreceiver : f.receiver with
    | client t =>
      have hmap : (f.map φ).receiver = .client t := hreceiver
      rw [hmap]
      rfl
    | batch t =>
      have hmap : (f.map φ).receiver = .batch t := hreceiver
      rw [hmap]
      dsimp only
      by_cases harrives : a.Arrives f.toReceiver
      · rw [if_pos harrives, Option.map_map]
        exact if_pos harrives
      · rw [if_neg harrives]
        exact if_neg harrives

/-- Every run of the flow is the same with either controller. -/
theorem flowRun_map (h : cc'.Simulates cc φ) (f : Flow κ) (actions : List FlowAction) :
    run (flowStep cc' c) (f.map φ) actions =
      (run (flowStep cc c) f actions).map (Flow.map φ) := by
  induction actions generalizing f with
  | nil => rfl
  | cons a actions ih =>
    rw [run_cons, run_cons, flowStep_map h]
    cases flowStep cc c f a with
    | none => rfl
    | some g => exact ih g

end

end CopaNgscope
