import CopaNgscope.Estimators
import CopaNgscope.OrderedMap
import CopaNgscope.RttWindow
import CopaNgscope.RunInvariant

/-! Copa as `markoviancc.hh` and `markoviancc.cc` run it: the state of the congestion controller
and its callbacks. Doubles are exact rationals; the clock is the last timestamp set. -/
namespace CopaNgscope
open RunInvariant

def numProbePkts : ℕ := 10

structure PacketData where
  sentTime : ℚ
  intersendTime : ℚ
  intersendTimeVel : ℚ
  rtt : ℚ
  prevAvgSendingRate : ℚ

inductive UtilityMode
  | constantDelta | pfabricFct | delFct | boundedDelay | boundedDelayEnd | maxThroughput
  | boundedQdelayEnd | boundedFdelayEnd | tcpCoop | constBehavior | autoMode
deriving DecidableEq

inductive OperationMode
  | defaultMode | lossSensitiveMode | tcpMode
deriving DecidableEq

/-- The first two fields are those of `CCC`. -/
structure MarkovianCC where
  intersendTime : ℚ
  theWindow : ℚ
  delta : ℚ
  unacknowledgedPackets : OrderedMap ℤ PacketData
  minRtt : ℚ
  externalMinRtt : ℚ
  rttUnacked : PlainEwma
  rttWindow : RTTWindow
  prevIntersendTime : ℚ
  curIntersendTime : ℚ
  interarrival : Percentile
  isUniform : IsUniformDistr
  lastUpdateTime : ℚ
  updateDir : ℤ
  prevUpdateDir : ℤ
  pktsPerRtt : ℤ
  updateAmt : ℚ
  intersendTimeVel : ℚ
  prevIntersendTimeVel : ℚ
  prevRtt : ℚ
  prevRttUpdateTime : ℚ
  prevAvgSendingRate : ℚ
  numPktsLost : ℕ
  numPktsAcked : ℕ
  numPktsSent : ℕ
  utilityMode : UtilityMode
  operationMode : OperationMode
  doSlowStart : Bool
  keepExtMinRtt : Bool
  defaultDelta : ℚ
  delayBound : ℚ
  prevDeltaUpdateTime : ℚ
  prevDeltaUpdateTimeLoss : ℚ
  reduceOnLoss : ReduceOnLoss
  behavior : ℚ
  interarrivalEwma : PlainEwma
  prevAckTime : ℚ
  slowStart : Bool
  flowId : ℤ
  curTick : ℚ

/-- The constructor. -/
def markovianCC (delta : ℚ) (flowId : ℤ) : MarkovianCC where
  intersendTime := 0
  theWindow := 2
  delta := delta
  unacknowledgedPackets := OrderedMap.empty
  minRtt := 0
  externalMinRtt := 0
  rttUnacked := plainEwma 1
  rttWindow := rttWindow
  prevIntersendTime := 0
  curIntersendTime := 0
  interarrival := ⟨1/20, []⟩
  isUniform := isUniformDistr 32
  lastUpdateTime := 0
  updateDir := 0
  prevUpdateDir := 0
  pktsPerRtt := 0
  updateAmt := 0
  intersendTimeVel := 0
  prevIntersendTimeVel := 0
  prevRtt := 0
  prevRttUpdateTime := 0
  prevAvgSendingRate := 0
  numPktsLost := 0
  numPktsAcked := 0
  numPktsSent := 0
  utilityMode := .constantDelta
  operationMode := .defaultMode
  doSlowStart := false
  keepExtMinRtt := false
  defaultDelta := 1/2
  delayBound := 0
  prevDeltaUpdateTime := 0
  prevDeltaUpdateTimeLoss := 0
  reduceOnLoss := reduceOnLoss
  behavior := 0
  interarrivalEwma := plainEwma (1/32)
  prevAckTime := 0
  slowStart := false
  flowId := flowId
  curTick := 0

/-- The assertions, which stay enabled. -/
inductive Assertion
  | ackAfterSent | unjitteredAboveMin | startUp | seqNumOrder
deriving DecidableEq

namespace MarkovianCC

/-! ### A new flow -/

def init (q : MarkovianCC) : MarkovianCC :=
  { q with
    theWindow := numProbePkts
    intersendTime := if q.externalMinRtt ≠ 0 then q.externalMinRtt/numProbePkts else 0
    minRtt := if q.keepExtMinRtt then q.externalMinRtt else dblMax
    delta := if q.utilityMode ≠ .constantDelta then 1 else q.delta
    unacknowledgedPackets := OrderedMap.empty
    rttUnacked := q.rttUnacked.reset
    rttWindow := q.rttWindow.clear
    prevIntersendTime := 0
    curIntersendTime := 0
    interarrival := q.interarrival.reset
    isUniform := q.isUniform.reset
    lastUpdateTime := 0
    updateDir := 1
    prevUpdateDir := 1
    pktsPerRtt := 0
    updateAmt := 1
    intersendTimeVel := 0
    prevIntersendTimeVel := 0
    prevRtt := 0
    prevRttUpdateTime := 0
    prevAvgSendingRate := 0
    numPktsAcked := 0
    numPktsLost := 0
    numPktsSent := 0
    operationMode := .defaultMode
    prevDeltaUpdateTime := 0
    prevDeltaUpdateTimeLoss := 0
    reduceOnLoss := CopaNgscope.reduceOnLoss
    interarrivalEwma := q.interarrivalEwma.reset
    prevAckTime := 0
    slowStart := true }

def setMinRtt (q : MarkovianCC) (x : ℚ) : MarkovianCC :=
  init { q with
    externalMinRtt := if q.externalMinRtt = 0 then x else min q.externalMinRtt x }

/-! ### Delta -/

/-- The first part of `update_delta`: in automatic mode the RTTs decide how to operate. -/
def updateOperationMode (q : MarkovianCC) (pktLost : Bool) : MarkovianCC :=
  if q.utilityMode = .autoMode then
    { q with
      isUniform := if pktLost then q.isUniform.update q.rttWindow.getUnjitteredRtt else q.isUniform
      operationMode := if q.rttWindow.isCopa then .defaultMode else .lossSensitiveMode }
  else q

/-- The branch that works toward the default. -/
def updateDeltaDefault (q : MarkovianCC) (curRtt : ℚ) : MarkovianCC :=
  if q.prevDeltaUpdateTime = 0 ∨ q.prevDeltaUpdateTimeLoss+curRtt < q.curTick then
    { q with
      delta := min (if q.delta < q.defaultDelta then q.defaultDelta else q.delta) q.defaultDelta
      prevDeltaUpdateTime := q.curTick }
  else q

/-- The branch that competes: halve the rate on a loss, speed up once per RTT. -/
def updateDeltaCompetitive (q : MarkovianCC) (pktLost : Bool) (curRtt : ℚ) : MarkovianCC :=
  let delta := if q.prevDeltaUpdateTime = 0 then q.defaultDelta else q.delta
  if pktLost ∧ q.prevDeltaUpdateTimeLoss+curRtt < q.curTick then
    { q with delta := min (delta*2) q.defaultDelta, prevDeltaUpdateTimeLoss := q.curTick }
  else if q.prevDeltaUpdateTime+curRtt < q.curTick then
    { q with delta := min (1/(1/delta+1)) q.defaultDelta, prevDeltaUpdateTime := q.curTick }
  else { q with delta := min delta q.defaultDelta }

def updateDelta (q : MarkovianCC) (pktLost : Bool) (curRtt : ℚ) : MarkovianCC :=
  let q := q.updateOperationMode pktLost
  if q.operationMode = .defaultMode ∧ q.utilityMode ≠ .tcpCoop then q.updateDeltaDefault curRtt
  else if q.utilityMode = .tcpCoop ∨ q.operationMode = .lossSensitiveMode then
    q.updateDeltaCompetitive pktLost curRtt
  else q

/-! ### The window -/

def queuingDelay (q : MarkovianCC) : ℚ := q.rttWindow.getUnjitteredRtt-q.minRtt

def targetWindow (q : MarkovianCC) : ℚ :=
  if q.queuingDelay = 0 then dblMax
  else q.rttWindow.getUnjitteredRtt/(q.queuingDelay*q.delta)

/-- The start-up branch of `update_intersend_time`. -/
def startUp (q : MarkovianCC) (targetWindow : ℚ) : Except Assertion MarkovianCC :=
  if q.doSlowStart ∨ targetWindow = dblMax then
    .ok { q with
      theWindow := q.theWindow+1
      slowStart := if targetWindow ≤ q.theWindow+1 then false else q.slowStart }
  -- without a configured slow start the source expects the largest target here
  else .error .startUp

/-- The C conversion of a `double` to `int`, doubled as an `int`. -/
def doubledAmt (updateAmt : ℚ) : ℚ := Int.bmod (Int.tdiv updateAmt.num updateAmt.den*2) (2^32)

/-- Once per RTT the step size is doubled or set back. -/
def updateAmtPerRtt (q : MarkovianCC) : MarkovianCC :=
  if q.lastUpdateTime+q.rttWindow.getLatestRtt < q.curTick then
    -- the window moved the same way in this RTT as in the one before
    let keeps := 0 < q.prevUpdateDir*q.updateDir
    { q with
      updateAmt :=
        if keeps then
          if q.updateAmt < 6/1000 then q.updateAmt+5/1000 else doubledAmt q.updateAmt
        else 1
      prevUpdateDir := if keeps then q.prevUpdateDir else q.prevUpdateDir*(-1)
      lastUpdateTime := q.curTick
      pktsPerRtt := 0
      updateDir := 0 }
  else q

/-- The branch of `update_intersend_time` after start-up. -/
def steadyState (q : MarkovianCC) (targetWindow : ℚ) : MarkovianCC :=
  let q := q.updateAmtPerRtt
  let updateAmt := if q.theWindow*q.delta < q.updateAmt then q.updateAmt/2 else q.updateAmt
  -- this also catches the negative result of an overflow in the doubling
  let updateAmt := max updateAmt 1
  let q := { q with updateAmt := updateAmt, pktsPerRtt := q.pktsPerRtt+1 }
  if q.theWindow < targetWindow then
    { q with
      updateDir := q.updateDir+1
      theWindow := q.theWindow+updateAmt/(q.delta*q.theWindow) }
  else
    { q with
      updateDir := q.updateDir-1
      theWindow := q.theWindow-updateAmt/(q.delta*q.theWindow) }

/-- `randomize_intersend` returns its argument. -/
def randomizeIntersend (intersend : ℚ) : ℚ := intersend

/-- The window is kept above 2, and the packets are spread over half an RTT. -/
def setIntersendTime (q : MarkovianCC) (theWindow rtt : ℚ) : MarkovianCC :=
  { q with
    theWindow := max 2 theWindow
    curIntersendTime := 1/2*rtt/max 2 theWindow
    intersendTime := randomizeIntersend (1/2*rtt/max 2 theWindow) }

def updateIntersendTime (q : MarkovianCC) : Except Assertion MarkovianCC :=
  -- the first two RTTs are for probing
  if q.numPktsAcked < 2*numProbePkts-1 then .ok q
  else
    (if q.slowStart then q.startUp q.targetWindow
      else .ok (q.steadyState q.targetWindow)).map fun r =>
      r.setIntersendTime r.theWindow q.rttWindow.getUnjitteredRtt

/-! ### Acknowledgements -/

/-- `curr_rtt`: the measured RTT less the adjustment of the header, in milliseconds. -/
def currRtt (q : MarkovianCC) (sentTime : ℚ) (adjustUs : ℤ) : ℚ :=
  q.curTick-sentTime-(adjustUs:ℚ)/1000

/-- The head of `onACK`: the RTT sample and its two assertions. -/
def ackSample (q : MarkovianCC) (sentTime : ℚ) (adjustUs : ℤ) : Except Assertion MarkovianCC :=
  if q.curTick ≤ sentTime then .error .ackAfterSent
  else
    let w := q.rttWindow.newRttSample (q.currRtt sentTime adjustUs) q.curTick
    if w.getUnjitteredRtt < w.getMinRtt then .error .unjitteredAboveMin
    else .ok { q with rttWindow := w, minRtt := w.getMinRtt }

def updateInterarrival (q : MarkovianCC) : MarkovianCC :=
  if q.prevAckTime ≠ 0 then
    { q with
      interarrivalEwma := q.interarrivalEwma.update (q.curTick-q.prevAckTime)
      interarrival := q.interarrival.push (q.curTick-q.prevAckTime)
      prevAckTime := q.curTick }
  else { q with prevAckTime := q.curTick }

/-- One round of the loop over the unacknowledged packets: a packet before the acknowledged one
is lost. The last two components are `pkt_lost` and `reduce`. -/
def ackVisit (r : MarkovianCC × Bool × Bool) (x : PacketData) (lost : Bool) :
    MarkovianCC × Bool × Bool :=
  let q := { r.1 with
    prevIntersendTime := x.intersendTime
    prevIntersendTimeVel := x.intersendTimeVel
    prevRtt := x.rtt
    prevRttUpdateTime := x.sentTime
    prevAvgSendingRate := x.prevAvgSendingRate }
  if lost then
    let u := q.reduceOnLoss.update true q.curTick q.rttWindow.getLatestRtt
    ({ q with numPktsLost := q.numPktsLost+1, reduceOnLoss := u.1 }, true, r.2.2 || u.2)
  else (q, r.2)

/-- The loop up to `seqNum`. -/
def ackLoop (seqNum : ℤ) : List (ℤ × PacketData) → ℤ → MarkovianCC × Bool × Bool →
    Except Assertion (MarkovianCC × Bool × Bool)
  | [], _, r => .ok r
  | x :: xs, tmpSeqNum, r =>
    if x.1 < tmpSeqNum then .error .seqNumOrder
    else if seqNum < x.1 then .ok r
    else ackLoop seqNum xs x.1 (ackVisit r x.2 (x.1 < seqNum))

/-- The loop erases the entries it visits, which are the ones up to `seqNum`. -/
def eraseAcked (q : MarkovianCC) (seqNum : ℤ) : Except Assertion (MarkovianCC × Bool × Bool) :=
  if seqNum ∈ q.unacknowledgedPackets.keys then
    (ackLoop seqNum q.unacknowledgedPackets.entries (-1) (q, false, false)).map fun r =>
      ({ r.1 with unacknowledgedPackets := q.unacknowledgedPackets.eraseLE seqNum }, r.2)
  else .ok (q, false, false)

/-- The tail of `onACK`: the window is cut when too many packets were lost. -/
def reduceWindow (q : MarkovianCC) (reduce : Bool) : MarkovianCC :=
  let r := q.reduceOnLoss.update false q.curTick q.rttWindow.getLatestRtt
  let q := { q with reduceOnLoss := r.1 }
  if reduce || r.2 then
    q.setIntersendTime (q.theWindow*(7/10)) q.rttWindow.getUnjitteredRtt
  else q

/-- The second part of `onACK`, after the window has been updated. -/
def ackTail (q : MarkovianCC) (ack : ℤ) : Except Assertion MarkovianCC :=
  (q.eraseAcked (ack-1)).map fun r =>
    let q := if r.2.1 then r.1.updateDelta true 0 else r.1
    let q := q.reduceWindow r.2.2
    -- counted whether or not the packet was still in flight
    { q with numPktsAcked := q.numPktsAcked+1 }

def onACK (q : MarkovianCC) (ack : ℤ) (sentTime : ℚ) (adjustUs : ℤ) :
    Except Assertion MarkovianCC := do
  let curRtt := q.currRtt sentTime adjustUs
  let q ← q.ackSample sentTime adjustUs
  let q ← (q.updateInterarrival.updateDelta false curRtt).updateIntersendTime
  q.ackTail ack

/-! ### Sending -/

/-- The loop over the packets that have waited longer than `rtt_unacked`. -/
def unackedLoop : List (ℤ × PacketData) → MarkovianCC → MarkovianCC
  | [], q => q
  | x :: xs, q =>
    if q.rttUnacked.ewma < q.curTick-x.2.sentTime then
      unackedLoop xs { q with
        rttUnacked := q.rttUnacked.update (q.curTick-x.2.sentTime)
        prevIntersendTime := x.2.intersendTime
        prevIntersendTimeVel := x.2.intersendTimeVel }
    else q

/-- The size in the sending rate is taken before the packet is entered. -/
def packetData (q : MarkovianCC) : PacketData where
  sentTime := q.curTick
  intersendTime := q.curIntersendTime
  intersendTimeVel := q.intersendTimeVel
  rtt := q.rttWindow.getUnjitteredRtt
  prevAvgSendingRate := q.unacknowledgedPackets.size/(q.curTick-q.prevRttUpdateTime)

def onPktSent (q : MarkovianCC) (seqNum : ℤ) : MarkovianCC :=
  let unacked := q.unacknowledgedPackets.insert seqNum q.packetData
  let q := unackedLoop unacked.entries { q with
    unacknowledgedPackets := unacked
    rttUnacked := q.rttUnacked.forceSet q.rttWindow.getUnjitteredRtt }
  { q with
    numPktsSent := q.numPktsSent+1
    intersendTime := randomizeIntersend q.curIntersendTime }

/-! ### Callbacks -/

/-- The receiver's timestamp of an ACK is not read. -/
inductive Callback
  | init
  | setMinRtt (x : ℚ)
  | setTimestamp (now : ℚ)
  | onPktSent (seqNum : ℤ)
  | onACK (ack : ℤ) (sentTime : ℚ) (adjustUs : ℤ)
  | onTimeout

def callback (q : MarkovianCC) : Callback → Except Assertion MarkovianCC
  | .init => .ok q.init
  | .setMinRtt x => .ok (q.setMinRtt x)
  | .setTimestamp now => .ok { q with curTick := now }
  | .onPktSent seqNum => .ok (q.onPktSent seqNum)
  | .onACK ack sentTime adjustUs => q.onACK ack sentTime adjustUs
  | .onTimeout => .ok q

/-- `none` is a failed assertion. -/
def step (q : MarkovianCC) (c : Callback) : Option MarkovianCC := (q.callback c).toOption

end MarkovianCC

end CopaNgscope
