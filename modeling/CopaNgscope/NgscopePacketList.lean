import Mathlib.Data.Rat.Defs
import CopaNgscope.NgscopeReTx

/-! The packet list of `ngscope_packet_list.cc`: the nodes after the head, in order. The
host's clocks are 64-bit counters and their differences wrap. -/
namespace CopaNgscope

def reTxDelayThd : ℤ := 7

/-- `TCPHeader`, with its doubles as rationals. -/
structure TCPHeader where
  seqNum : ℤ
  flowId : ℤ
  srcId : ℤ
  senderTimestamp : ℚ
  txTimestamp : UInt64
  receiverTimestamp : ℚ
  adjustUs : ℤ
deriving DecidableEq

/-- `packet_node`. The field `node` stands for the node's address: no other node has it. -/
structure PacketNode where
  node : ℕ
  recvLenByte : UInt32
  tcpHeader : TCPHeader
  onewayUs : UInt64
  recvTUs : UInt64
  onewayUsNew : UInt64
  revertFlag : Bool
  acked : Bool
  burstStart : Bool
deriving DecidableEq

/-! ### Insertion and eviction -/

/-- `NOF_LOG_DCI*1000`. -/
def delayThdUs : UInt64 := 1000000

/-- The nodes that stay and the nodes that are freed, in order. The last node stays. -/
def ngscopeListCheckTimeDelayWTime (currTUs : UInt64) :
    List PacketNode → List PacketNode × List PacketNode
  | p :: q :: rest =>
    if delayThdUs < currTUs-p.recvTUs then
      let r := ngscopeListCheckTimeDelayWTime currTUs (q :: rest)
      (r.1, p :: r.2)
    else (p :: q :: rest, [])
  | ps => (ps, [])

/-- What an insertion does: the new node comes too early for the end of the list and is left
out, or it is appended and the nodes that are too old are freed. -/
inductive InsertOutcome
  | dropped (last : PacketNode)
  | inserted (ps : List PacketNode) (freed : List PacketNode)

def ngscopeListInsertNodeCheckTime (ps : List PacketNode) (node : PacketNode) : InsertOutcome :=
  match ps.getLast? with
  | none => .inserted [node] []
  | some last =>
    if node.recvTUs < last.recvTUs then .dropped last
    else
      let r := ngscopeListCheckTimeDelayWTime node.recvTUs (ps ++ [node])
      .inserted r.1 r.2

/-! ### Length and statistics -/

/-- The walk stops at the last node without counting it. -/
def ngscopeListLength (ps : List PacketNode) : ℕ := ps.length-1

/-- The packet arrays of `pkt_handling`: receive times and delays of the first `listLen`
nodes. With no room the code still writes entry 0, which nothing reads. -/
def pktRxTUs (ps : List PacketNode) (listLen : ℕ) : List UInt64 :=
  (ps.take listLen).map PacketNode.recvTUs

def pktOnewayUs (ps : List PacketNode) (listLen : ℕ) : List UInt64 :=
  (ps.take listLen).map PacketNode.onewayUs

/-- Delay differences of neighbours in ms, 0 for the first packet. The cast to `int` binds
tighter than the division. -/
def delayDiffMs (oneway : List UInt64) : List ℤ :=
  match oneway with
  | [] => []
  | _ :: rest => 0 :: (oneway.zip rest).map fun x =>
      Int.tdiv (toInt (UInt64.ofNat (toLong x.2-toLong x.1).natAbs)) 1000

/-- Receive times of the packets whose delay differs from their predecessor's by the
threshold or more. -/
def ngscopeListGetReTx (ps : List PacketNode) (listLen : ℕ) : List UInt64 :=
  ((pktRxTUs ps listLen).zip (delayDiffMs (pktOnewayUs ps listLen))).filterMap fun x =>
    if reTxDelayThd ≤ x.2 then some x.1 else none

/-- `none` is the division by a count of zero. An index past the array is only reported, so
the caller's index must lie in it. -/
def ngscopeListAveOneway (oneway : List UInt64) (index len : ℕ) : Option UInt64 :=
  let is := if index < len then List.range (index-1)
    else (List.range (len-1)).map (fun k => index-len+k)
  if is.length = 0 then none
  else some (sumArrayUint64 (is.map (fun i => oneway.getD i 0))/UInt64.ofNat is.length)

/-! ### Delay rewriting -/

/-- One `if` block of `ngscope_list_revert_delay`: the node takes the reference delay and its
bits leave the buffer. -/
def revertNode (p : PacketNode) (q : NgscopeReorderingBuf) (burstStart : Bool) :
    PacketNode × NgscopeReorderingBuf :=
  ({ p with onewayUsNew := q.refOneway, revertFlag := true, burstStart := burstStart },
    { q with bufSize := q.bufSize-(p.recvLenByte*8).toNat })

def ngscopeListRevertDelay :
    List PacketNode → NgscopeReorderingBuf → List PacketNode × NgscopeReorderingBuf
  | [], q => ([], q)
  | p :: ps, q =>
    let r := if p.recvTUs = q.startPktT ∧ p.revertFlag = false ∧ q.bufferActive then
      revertNode p q true else (p, q)
    let r := if r.2.startPktT < r.1.recvTUs ∧ r.1.revertFlag = false ∧ r.2.bufferActive then
      revertNode r.1 r.2 r.1.burstStart else r
    if r.2.bufSize ≤ 0 then (r.1 :: ps, ngscopeReTxResetBuf r.2)
    else
      let rest := ngscopeListRevertDelay ps r.2
      (r.1 :: rest.1, rest.2)

end CopaNgscope
