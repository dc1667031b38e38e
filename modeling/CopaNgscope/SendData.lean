import Mathlib.Algebra.Order.Floor.Ring
import Mathlib.Data.Rat.Floor
import CopaNgscope.SenderAck

/-! The sender's loop `CTCP::send_data`: packets are sent as the window allows, and the ACKs of
the flow are handed to the congestion controller, which is a parameter. Doubles are exact
rationals. -/
namespace CopaNgscope

/-- The members of the congestion controller that `send_data` calls; `none` is a failed
assertion. -/
structure CongCtrl (κ : Type*) where
  init : κ → Option κ
  close : κ → κ
  setTimestamp : κ → ℚ → κ
  getTheWindow : κ → ℚ
  getIntersendTime : κ → ℚ
  getTimeout : κ → ℚ
  onPktSent : κ → ℤ → κ
  onACK : κ → AckCall → Option κ
  onTimeout : κ → κ
  onLinkRateMeasurement : κ → ℚ → κ

/-- The arguments of `send_data` and the train length. -/
structure FlowConfig where
  flowSize : ℚ
  byteSwitched : Bool
  flowId : ℤ
  srcId : ℤ
  trainLength : ℤ

/-- `packet_size-sizeof(TCPHeader)`. -/
def dataSize : ℕ := 1440-48

/-- Where the loop is: at its head, in the sending loop, waiting for an ACK, past the break, or
finished. -/
inductive SendPhase
  | head | sending | receiving | broken | finished
deriving DecidableEq

/-- The header at the start of `buf` is what was sent or received last. -/
structure Sender (κ : Type*) where
  congctrl : κ
  seqNum : ℤ
  largestAck : ℤ
  lastSendTime : ℚ
  curTime : ℚ
  lastAckTime : ℚ
  linkRateEstimate : ℚ
  lastRecvTime : ℚ
  numPacketsTransmitted : ℕ
  buf : TCPHeader
  phase : SendPhase

/-- A header that passes the filter, and what `congctrl.onACK` is called with, if it is. -/
structure AcceptedAck where
  header : TCPHeader
  call : Option AckCall
deriving DecidableEq

inductive SentPacket
  | data (header : TCPHeader)
  | probe (header : TCPHeader)

/-- What a step of the loop leaves, sends and accepts. -/
structure SendOutcome (κ : Type*) where
  sender : Sender κ
  sent : Option SentPacket
  ack : Option AcceptedAck

/-- The conversion of a double to an `int` drops the fraction. Outside the range of `int` it has
no defined result. -/
def doubleToInt (x : ℚ) : Option ℤ :=
  let v := if 0 ≤ x then ⌊x⌋ else ⌈x⌉
  if -2^31 ≤ v ∧ v < 2^31 then some v else none

/-- What decides how the loop goes on: readings of the clock, and what the socket returns. -/
inductive SendAction
  | enter (now : ℚ)
  | transmit (txTimestamp : UInt64)
  | stopTransmitting (txTimestamp : UInt64) (now : ℚ)
  | timedOut (now : ℚ)
  | receive (header : TCPHeader) (now : ℚ)
  | receiveError (now : ℚ)
  | finish (now : ℚ)

section
variable {κ : Type*} (cc : CongCtrl κ) (c : FlowConfig)

/-- The condition of the outer loop. -/
def FlowOpen (s : Sender κ) (curTime : ℚ) : Prop :=
  (if c.byteSwitched then ((s.numPacketsTransmitted*dataSize:ℕ):ℚ) else curTime) < c.flowSize

instance (s : Sender κ) (curTime : ℚ) : Decidable (FlowOpen c s curTime) :=
  inferInstanceAs (Decidable (_ < _))

/-- The condition of the sending loop. -/
def MayTransmit (s : Sender κ) : Prop :=
  ((s.seqNum:ℚ) < s.largestAck+1+5*cc.getTheWindow s.congctrl ∧
    s.lastSendTime+cc.getIntersendTime s.congctrl*c.trainLength ≤ s.curTime ∧
    FlowOpen c s s.curTime) ∨ Int.tmod s.seqNum c.trainLength ≠ 0

instance (s : Sender κ) : Decidable (MayTransmit cc c s) :=
  inferInstanceAs (Decidable ((_ ∧ _ ∧ _) ∨ _))

/-- The sender stops trying to compensate and sends a probe. -/
def Hopeless (s : Sender κ) : Prop :=
  cc.getIntersendTime s.congctrl*c.trainLength ≤ s.curTime-s.lastSendTime ∨
    s.largestAck+cc.getTheWindow s.congctrl ≤ (s.seqNum:ℚ)

instance (s : Sender κ) : Decidable (Hopeless cc c s) := inferInstanceAs (Decidable (_ ∨ _))

/-- The head of the loop: after two seconds without an ACK the controller starts anew. -/
def enterLoop (s : Sender κ) (now : ℚ) : Option (Sender κ) :=
  let s := { s with curTime := now }
  if 2000 < now-s.lastAckTime then
    if FlowOpen c s now then
      (cc.init (cc.setTimestamp s.congctrl now)).map fun congctrl =>
        { s with
          congctrl := congctrl
          largestAck := s.seqNum-1
          lastSendTime := now
          lastAckTime := now
          phase := .sending }
    else some { s with phase := .broken }
  else some { s with phase := .sending }

def dataHeader (s : Sender κ) (txTimestamp : UInt64) : TCPHeader :=
  ⟨s.seqNum, c.flowId, c.srcId, s.curTime, txTimestamp, 0, 0⟩

def probeHeader (s : Sender κ) (txTimestamp : UInt64) : TCPHeader :=
  ⟨-1, -1, c.srcId, s.curTime, txTimestamp, 0, 0⟩

/-- One round of the sending loop. -/
def transmitPacket (s : Sender κ) (txTimestamp : UInt64) : Sender κ :=
  { s with
    buf := dataHeader c s txTimestamp
    lastSendTime := s.lastSendTime+cc.getIntersendTime s.congctrl
    congctrl := match sentTrain c.trainLength s.seqNum with
      | some train => cc.onPktSent (cc.setTimestamp s.congctrl s.curTime) train
      | none => s.congctrl
    seqNum := s.seqNum+1 }

def sendProbe (s : Sender κ) (txTimestamp : UInt64) : Sender κ :=
  { s with buf := probeHeader c s txTimestamp, lastSendTime := s.curTime }

/-- The timeout that the socket is given when the loop waits. -/
def receiveTimeout (s : Sender κ) : ℚ :=
  if 0 < cc.getTheWindow s.congctrl then
    min 1000 (s.lastSendTime+cc.getIntersendTime s.congctrl*c.trainLength-s.curTime)
  -- an absolute time, from which the current one is not subtracted
  else s.lastSendTime+1000

/-- The wait can end with no packet: with a negative timeout `poll` waits for ever. -/
def MayTimeOut (s : Sender κ) : Prop := ∀ v ∈ doubleToInt (receiveTimeout cc c s), 0 ≤ v

instance (s : Sender κ) : Decidable (MayTimeOut cc c s) :=
  inferInstanceAs (Decidable (∀ v ∈ doubleToInt (receiveTimeout cc c s), 0 ≤ v))

/-- Nothing was received. -/
def receiveTimedOut (s : Sender κ) (now : ℚ) : Sender κ :=
  { s with
    curTime := now
    congctrl := if s.lastSendTime+cc.getTimeout s.congctrl < now then cc.onTimeout s.congctrl
      else s.congctrl
    phase := .head }

/-- The estimate of the link rate from two packets of a train, and the controller that is told. -/
def estimateLinkRate (s : Sender κ) (now : ℚ) : Sender κ :=
  if Int.tmod s.buf.seqNum c.trainLength ≠ 0 ∧ s.lastRecvTime ≠ 0 then
    let estimate := if s.linkRateEstimate = 0 then now-s.lastRecvTime
      else (1-1/16)*s.linkRateEstimate+1/16*(now-s.lastRecvTime)
    { s with
      linkRateEstimate := estimate
      congctrl := if 2*c.trainLength < s.buf.seqNum+1 then
        cc.onLinkRateMeasurement s.congctrl (1000/estimate) else s.congctrl }
  else s

/-- What follows a receive that did not return 0: `buf` is taken for an ACK whether or not
anything was written to it. -/
def takeAck (s : Sender κ) (now : ℚ) : Option (SendOutcome κ) :=
  if s.buf.srcId ≠ c.srcId ∨ s.buf.flowId ≠ c.flowId then
    some ⟨{ s with phase := .head }, none, none⟩
  else
    let call := ackCall c.srcId c.flowId c.trainLength s.buf
    let t := estimateLinkRate cc c { s with curTime := now, lastAckTime := now } now
    (match call with
      | some call => cc.onACK (cc.setTimestamp t.congctrl now) call
      | none => some t.congctrl).map fun congctrl =>
      { sender := { t with
          congctrl := congctrl
          lastRecvTime := now
          numPacketsTransmitted := t.numPacketsTransmitted+1
          largestAck := max t.largestAck (t.buf.seqNum+1)
          phase := .head }
        sent := none
        ack := some ⟨s.buf, call⟩ }

/-- `none` is an action that does not fit the place in the loop, or a failed assertion. -/
def sendStep (s : Sender κ) : SendAction → Option (SendOutcome κ)
  | .enter now =>
    if s.phase = .head ∧ FlowOpen c s s.curTime then
      (enterLoop cc c s now).map fun t => ⟨t, none, none⟩
    else none
  | .transmit txTimestamp =>
    if s.phase = .sending ∧ MayTransmit cc c s then
      some ⟨transmitPacket cc c s txTimestamp, some (.data (dataHeader c s txTimestamp)), none⟩
    else none
  | .stopTransmitting txTimestamp now =>
    if s.phase = .sending ∧ ¬ MayTransmit cc c s then
      if Hopeless cc c s then
        some ⟨{ sendProbe c s txTimestamp with curTime := now, phase := .receiving },
          some (.probe (probeHeader c s txTimestamp)), none⟩
      else some ⟨{ s with curTime := now, phase := .receiving }, none, none⟩
    else none
  | .timedOut now =>
    if s.phase = .receiving ∧ MayTimeOut cc c s then
      some ⟨receiveTimedOut cc s now, none, none⟩
    else none
  | .receive header now =>
    if s.phase = .receiving then takeAck cc c { s with buf := header } now else none
  | .receiveError now => if s.phase = .receiving then takeAck cc c s now else none
  | .finish now =>
    if s.phase = .broken ∨ (s.phase = .head ∧ ¬ FlowOpen c s s.curTime) then
      some ⟨{ s with
        congctrl := cc.close (cc.setTimestamp s.congctrl now)
        curTime := now
        phase := .finished }, none, none⟩
    else none

/-- The state before the loop, after the handshake and two readings of the clock. -/
def senderInit (congctrl : κ) (buf : TCPHeader) (start now : ℚ) : Option (Sender κ) :=
  (cc.init (cc.setTimestamp congctrl now)).map fun congctrl =>
    ⟨congctrl, 0, -1, start, now, start, 0, 0, 0, buf, .head⟩

/-! ### What the steps do -/

/-- The header is addressed to the flow. -/
def FlowConfig.Own (c : FlowConfig) (h : TCPHeader) : Prop :=
  h.srcId = c.srcId ∧ h.flowId = c.flowId

instance (h : TCPHeader) : Decidable (c.Own h) := inferInstanceAs (Decidable (_ ∧ _))

def SendOutcome.dataSent (r : SendOutcome κ) : List TCPHeader :=
  match r.sent with
  | some (.data header) => [header]
  | _ => []

def SendOutcome.probesSent (r : SendOutcome κ) : List TCPHeader :=
  match r.sent with
  | some (.probe header) => [header]
  | _ => []

/-- The header that a step takes for an ACK. -/
def Sender.heard (s : Sender κ) : SendAction → Option TCPHeader
  | .receive header _ => some header
  | .receiveError _ => some s.buf
  | _ => none

variable {cc c}

theorem estimateLinkRate_frame (cc : CongCtrl κ) (c : FlowConfig) (s : Sender κ) (now : ℚ) :
    ∃ e k, estimateLinkRate cc c s now = { s with linkRateEstimate := e, congctrl := k } := by
  unfold estimateLinkRate
  extract_lets estimate
  split_ifs
  · exact ⟨_, _, rfl⟩
  · exact ⟨_, _, rfl⟩
  · exact ⟨_, _, rfl⟩

/-- A header that is not addressed to the flow changes nothing but the place in the loop. -/
theorem takeAck_of_not_own {s : Sender κ} (h : ¬ c.Own s.buf) (now : ℚ) :
    takeAck cc c s now = some ⟨{ s with phase := .head }, none, none⟩ := by
  rw [takeAck, if_pos]
  by_contra hids
  rw [not_or, not_not, not_not] at hids
  exact h hids

/-- One that is addressed to it is accepted. -/
theorem takeAck_of_own {s : Sender κ} {r : SendOutcome κ} (h : c.Own s.buf) {now : ℚ}
    (hr : takeAck cc c s now = some r) :
    r.sender.seqNum = s.seqNum ∧ r.sent = none ∧
      r.ack = some ⟨s.buf, ackCall c.srcId c.flowId c.trainLength s.buf⟩ := by
  have hids : ¬ (s.buf.srcId ≠ c.srcId ∨ s.buf.flowId ≠ c.flowId) := by
    rw [not_or, not_not, not_not]
    exact h
  rw [takeAck, if_neg hids] at hr
  extract_lets call t at hr
  obtain ⟨congctrl, _, rfl⟩ := Option.map_eq_some_iff.mp hr
  -- the link rate is estimated before, which touches other fields only
  obtain ⟨e, k, ht⟩ := estimateLinkRate_frame cc c
    { s with curTime := now, lastAckTime := now } now
  have hseq := congrArg Sender.seqNum ht
  exact ⟨hseq, rfl, rfl⟩

theorem enterLoop_seqNum {s t : Sender κ} {now : ℚ} (h : enterLoop cc c s now = some t) :
    t.seqNum = s.seqNum := by
  rw [enterLoop] at h
  split_ifs at h
  · obtain ⟨congctrl, _, rfl⟩ := Option.map_eq_some_iff.mp h
    rfl
  · cases h
    rfl
  · cases h
    rfl

/-- Either filter case of `takeAck`, with the packet taken from the buffer. -/
theorem takeAck_cases {s : Sender κ} {r : SendOutcome κ} {now : ℚ}
    (hr : takeAck cc c s now = some r) :
    r.sender.seqNum = s.seqNum ∧ r.sent = none ∧
      if c.Own s.buf then
        r.ack = some ⟨s.buf, ackCall c.srcId c.flowId c.trainLength s.buf⟩
      else
        r.ack = none ∧ r.sender.congctrl = s.congctrl ∧
          r.sender.lastAckTime = s.lastAckTime := by
  by_cases hown : c.Own s.buf
  · rw [if_pos hown]
    exact takeAck_of_own hown hr
  · rw [if_neg hown]
    rw [takeAck_of_not_own hown] at hr
    cases hr
    exact ⟨rfl, rfl, rfl, rfl, rfl⟩

/-- What a step sends: at most the packet with the next sequence number, or a probe. -/
theorem sendStep_packets {s : Sender κ} {a : SendAction} {r : SendOutcome κ}
    (hr : sendStep cc c s a = some r) :
    (r.dataSent = [] ∧ r.sender.seqNum = s.seqNum ∨
      ∃ txTimestamp, r.dataSent = [dataHeader c s txTimestamp] ∧
        r.sender.seqNum = s.seqNum+1) ∧
    ∀ p ∈ r.probesSent, p.seqNum = -1 ∧ p.flowId = -1 := by
  have hquiet (hseq : r.sender.seqNum = s.seqNum) (hsent : r.sent = none) :
      (r.dataSent = [] ∧ r.sender.seqNum = s.seqNum ∨
        ∃ txTimestamp, r.dataSent = [dataHeader c s txTimestamp] ∧
          r.sender.seqNum = s.seqNum+1) ∧
      ∀ p ∈ r.probesSent, p.seqNum = -1 ∧ p.flowId = -1 := by
    rw [SendOutcome.dataSent, SendOutcome.probesSent, hsent]
    exact ⟨Or.inl ⟨rfl, hseq⟩, fun p hp => absurd hp List.not_mem_nil⟩
  cases a with
  | enter now =>
    rw [sendStep] at hr
    split_ifs at hr
    obtain ⟨t, ht, rfl⟩ := Option.map_eq_some_iff.mp hr
    exact hquiet (enterLoop_seqNum ht) rfl
  | transmit txTimestamp =>
    rw [sendStep] at hr
    split_ifs at hr
    cases hr
    exact ⟨Or.inr ⟨txTimestamp, rfl, rfl⟩, fun p hp => absurd hp List.not_mem_nil⟩
  | stopTransmitting txTimestamp now =>
    rw [sendStep] at hr
    split_ifs at hr
    · cases hr
      refine ⟨Or.inl ⟨rfl, rfl⟩, fun p hp => ?_⟩
      rw [List.mem_singleton.mp hp]
      exact ⟨rfl, rfl⟩
    · cases hr
      exact hquiet rfl rfl
  | timedOut now =>
    rw [sendStep] at hr
    split_ifs at hr
    cases hr
    exact hquiet rfl rfl
  | receive header now =>
    rw [sendStep] at hr
    split_ifs at hr
    obtain ⟨hseq, hsent, _⟩ := takeAck_cases hr
    exact hquiet hseq hsent
  | receiveError now =>
    rw [sendStep] at hr
    split_ifs at hr
    obtain ⟨hseq, hsent, _⟩ := takeAck_cases hr
    exact hquiet hseq hsent
  | finish now =>
    rw [sendStep] at hr
    split_ifs at hr
    cases hr
    exact hquiet rfl rfl

/-- A step that takes a header for an ACK accepts it if it is addressed to the flow. If not, the
controller and the time of the last ACK stay as they are. -/
theorem sendStep_heard {s : Sender κ} {a : SendAction} {r : SendOutcome κ} {h : TCPHeader}
    (hh : s.heard a = some h) (hr : sendStep cc c s a = some r) :
    if c.Own h then r.ack = some ⟨h, ackCall c.srcId c.flowId c.trainLength h⟩
    else
      r.ack = none ∧ r.sender.congctrl = s.congctrl ∧ r.sender.lastAckTime = s.lastAckTime := by
  cases a with
  | receive header now =>
    cases hh
    rw [sendStep] at hr
    split_ifs at hr
    exact (takeAck_cases hr).2.2
  | receiveError now =>
    cases hh
    rw [sendStep] at hr
    split_ifs at hr
    exact (takeAck_cases hr).2.2
  | enter now => cases hh
  | transmit txTimestamp => cases hh
  | stopTransmitting txTimestamp now => cases hh
  | timedOut now => cases hh
  | finish now => cases hh

/-- No other step accepts anything. -/
theorem sendStep_of_heard_none {s : Sender κ} {a : SendAction} {r : SendOutcome κ}
    (hh : s.heard a = none) (hr : sendStep cc c s a = some r) : r.ack = none := by
  cases a with
  | enter now =>
    rw [sendStep] at hr
    split_ifs at hr
    obtain ⟨t, _, rfl⟩ := Option.map_eq_some_iff.mp hr
    rfl
  | transmit txTimestamp =>
    rw [sendStep] at hr
    split_ifs at hr
    cases hr
    rfl
  | stopTransmitting txTimestamp now =>
    rw [sendStep] at hr
    split_ifs at hr
    · cases hr
      rfl
    · cases hr
      rfl
  | timedOut now =>
    rw [sendStep] at hr
    split_ifs at hr
    cases hr
    rfl
  | receive header now => cases hh
  | receiveError now => cases hh
  | finish now =>
    rw [sendStep] at hr
    split_ifs at hr
    cases hr
    rfl

end

end CopaNgscope
