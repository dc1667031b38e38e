import CopaNgscope.NgscopePacketList
import CopaNgscope.RttWindow

/-! The sender's path of an acknowledgement: the ACK branch of `CTCP::send_data` and the head of
`MarkovianCC::onACK`. -/
namespace CopaNgscope

/-! ### The ACK -/

/-- The arguments of `congctrl.onACK`. -/
structure AckCall where
  ack : ℤ
  receiverTimestamp : ℚ
  sentTime : ℚ
  adjustUs : ℤ
deriving DecidableEq

/-- The ACK branch of `CTCP::send_data` for a received header; `none` is an ACK that is not
handed on. The train length is positive. -/
def ackCall (srcId flowId trainLength : ℤ) (ackHeader : TCPHeader) : Option AckCall :=
  let seqNum := ackHeader.seqNum+1
  if ackHeader.srcId ≠ srcId ∨ ackHeader.flowId ≠ flowId then none
  else if Int.tmod (seqNum-1) trainLength = 0 then
    some {
      ack := Int.tdiv seqNum trainLength
      receiverTimestamp := ackHeader.receiverTimestamp
      sentTime := ackHeader.senderTimestamp
      adjustUs := ackHeader.adjustUs }
  else none

/-- What `CTCP::send_data` hands to `congctrl.onPktSent` for a packet: the number of its train, if
the packet is the first one of it. -/
def sentTrain (trainLength seqNum : ℤ) : Option ℤ :=
  if Int.tmod seqNum trainLength = 0 then some (Int.tdiv seqNum trainLength) else none

/-- The head of `MarkovianCC::onACK`, which feeds the sample to `rtt_window`; `none` is the
failed assertion. -/
def onAckSample (w : RTTWindow) (curTime sentTime : ℚ) (adjustUs : ℤ) : Option RTTWindow :=
  if sentTime < curTime then
    some (w.newRttSample (curTime-sentTime-(adjustUs:ℚ)/1000) curTime)
  else none

/-- The sample is the measured round trip less the written adjustment. -/
theorem onAckSample_latestRtt {w w' : RTTWindow} {curTime sentTime : ℚ} {adjustUs : ℤ}
    (h : onAckSample w curTime sentTime adjustUs = some w') :
    w'.latestRtt = curTime-sentTime-(adjustUs:ℚ)/1000 := by
  unfold onAckSample at h
  split at h
  · cases h
    rfl
  · cases h

theorem ackCall_eq_some {srcId flowId trainLength : ℤ} {ackHeader : TCPHeader} {call : AckCall}
    (h : ackCall srcId flowId trainLength ackHeader = some call) :
    call.sentTime = ackHeader.senderTimestamp ∧ call.adjustUs = ackHeader.adjustUs := by
  unfold ackCall at h
  extract_lets seqNum at h
  split at h
  · cases h
  · split at h
    · cases h
      exact ⟨rfl, rfl⟩
    · cases h

end CopaNgscope
