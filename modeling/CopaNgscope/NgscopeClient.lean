import CopaNgscope.RunInvariant
import CopaNgscope.NgscopePacketList

/-! The packet client of `ngscope_client.cc` and `ngscope_sync.cc`: packets are listed, their
delays rewritten from the DCIs, and their headers echoed. The actions of its loop are the
steps of a run. -/
namespace CopaNgscope
open RunInvariant

/-! ### Clock synchronisation -/

/-- The first offset whose correlation is smallest. -/
def ngscopeSyncDciPkt (array1 array2 : List UInt64) (offsetVec : List ℤ) : ℤ :=
  (scanArray (fun (a v : ℤ × ℤ) => a.1 < v.1) (0, 0)
    (offsetVec.map fun offset => (correlate2VecWOffset array1 array2 offset, offset))).2

def offsetVec : List ℤ := (List.range 201).map (fun i : ℕ => ((i:ℤ)-100)*100)

/-! ### State and events -/

/-- What the client does to packets: an echo sent, a packet held back (with the buffer that
held it), the filler packet, a packet left out at insertion (with the last listed node), a
node freed (with the time it was checked against). -/
inductive ClientEvent
  | echo (node : ℕ) (header : TCPHeader)
  | hold (p : PacketNode) (reTxBuffer : NgscopeReorderingBuf)
  | filler (header : TCPHeader)
  | drop (p last : PacketNode)
  | evict (p : PacketNode) (currTUs : UInt64)
deriving DecidableEq

/-- The packet list, the globals of the client, the next free node, and the events so far. -/
structure ClientState where
  pktList : List PacketNode
  reTxBuffer : NgscopeReorderingBuf
  foundReTx : Bool
  missingDL : Bool
  statMissReTx : ℕ
  lastTxPktTUs : UInt64
  nextNode : ℕ
  events : List ClientEvent
deriving DecidableEq

def clientInit (lastTxPktTUs : UInt64) : ClientState :=
  ⟨[], ngscopeReTxInitBuf, false, false, 0, lastTxPktTUs, 0, []⟩

/-! ### Receiving -/

def packetNode (node : ℕ) (header : TCPHeader) (received : UInt32) (recvTimeNs : UInt64) :
    PacketNode where
  node := node
  recvLenByte := received
  tcpHeader := header
  onewayUs := (recvTimeNs-header.txTimestamp)/1000
  recvTUs := recvTimeNs/1000
  onewayUsNew := (recvTimeNs-header.txTimestamp)/1000
  revertFlag := false
  acked := false
  burstStart := false

def enqueuePkt (s : ClientState) (header : TCPHeader) (received : UInt32) (recvTimeNs : UInt64) :
    ClientState :=
  let p := packetNode s.nextNode header received recvTimeNs
  match ngscopeListInsertNodeCheckTime s.pktList p with
  | .dropped last => { s with nextNode := s.nextNode+1, events := s.events ++ [.drop p last] }
  | .inserted ps freed =>
    { s with
      pktList := ps
      nextNode := s.nextNode+1
      events := s.events ++ freed.map (fun x => .evict x p.recvTUs) }

/-! ### Sending -/

def txPktOrnot (reTxBuffer : NgscopeReorderingBuf) (p : PacketNode) : Bool :=
  if reTxBuffer.ready = false then true
  else if p.revertFlag then true
  else if reTxBuffer.bufSize ≤ 0 then reTxBuffer.bufLastT < p.recvTUs
  -- the unsigned difference is also large when the packet came first
  else 10000 < p.recvTUs-reTxBuffer.bufLastT

/-- The echoed header. The `int` difference wraps where it overflows. -/
def echoHeader (p : PacketNode) (currTUs : UInt64) : TCPHeader :=
  { p.tcpHeader with
    adjustUs :=
      Int.bmod (toInt (p.onewayUsNew-p.onewayUs)-toInt (currTUs-p.recvTUs)) (2^32)
    txTimestamp := currTUs*1000 }

/-- The loop of `send_pkt_list` from the `k`-th node on; `goExit k` is the flag as it is read
before that node. -/
def sendPktLoop (reTxBuffer : NgscopeReorderingBuf) (currTUs : UInt64) (goExit : ℕ → Bool) :
    ℕ → List PacketNode → List PacketNode × List ClientEvent
  | _, [] => ([], [])
  | k, p :: ps =>
    if goExit k then (p :: ps, [])
    else
      let rest := sendPktLoop reTxBuffer currTUs goExit (k+1) ps
      if p.acked then (p :: rest.1, rest.2)
      else if txPktOrnot reTxBuffer p then
        ({ p with tcpHeader := echoHeader p currTUs, acked := true } :: rest.1,
          .echo p.node (echoHeader p currTUs) :: rest.2)
      else (p :: rest.1, .hold p reTxBuffer :: rest.2)

/-- The filler packet sets four fields of a header on the stack; `stale` is what was there. -/
def fillerHeader (stale : TCPHeader) (currTUs : UInt64) : TCPHeader :=
  { stale with seqNum := -1111, flowId := 0, srcId := 0, txTimestamp := currTUs }

def ClientEvent.isEcho : ClientEvent → Bool
  | .echo _ _ => true
  | _ => false

def sendPktList (s : ClientState) (currTUs : UInt64) (goExit : ℕ → Bool) (stale : TCPHeader) :
    ClientState :=
  if s.pktList = [] then s
  else
    let r := sendPktLoop s.reTxBuffer currTUs goExit 0 s.pktList
    let lastTx := if r.2.any ClientEvent.isEcho then currTUs else s.lastTxPktTUs
    if 1000 ≤ currTUs-lastTx then
      { s with
        pktList := r.1
        lastTxPktTUs := currTUs
        events := s.events ++ (r.2 ++ [.filler (fillerHeader stale currTUs)]) }
    else { s with pktList := r.1, lastTxPktTUs := lastTx, events := s.events ++ r.2 }

/-! ### Rewriting delays -/

/-- The offset of this call; without a new retransmission it is 0. -/
def dciPktOffset (pktReTx : List UInt64) (dciAll : ℕ → NgscopeDci) (newDlReTx : Bool)
    (nofCell : ℕ) : ℤ :=
  if newDlReTx then ngscopeSyncDciPkt pktReTx (ngscopeDciGetReTxT dciAll nofCell) offsetVec else 0

/-- The part that updates the buffer from the DCIs. -/
def handleReTx (s : ClientState) (dciAll : ℕ → NgscopeDci) (newDlReTx : Bool) (nofCell : ℕ) :
    Option ClientState :=
  if newDlReTx ∨ (s.missingDL ∧ s.reTxBuffer.ready ∧ s.reTxBuffer.bufferActive = false) then
    (ngscopeReTxUpdateBuf s.reTxBuffer dciAll nofCell).map fun r =>
      { s with reTxBuffer := r.1, foundReTx := r.2, missingDL := !r.2 }
  else some s

/-- The part that looks for the first packet of the burst, or gives the burst up. -/
def handleBurstStart (s : ClientState) (pktTUs onewayUs : List UInt64) (caHeader : ℕ) :
    Option ClientState :=
  if s.reTxBuffer.ready ∧ s.reTxBuffer.bufferActive ∧ s.reTxBuffer.startPktFound = false then
    let index := ngscopeReTxFindBurstStart pktTUs onewayUs s.reTxBuffer.bufStartT
    if 0 < index then
      (ngscopeListAveOneway onewayUs index.toNat 5).map fun refOneway =>
        { s with
          reTxBuffer := { s.reTxBuffer with
            startPktFound := true
            startPktT := pktTUs.getD index.toNat 0
            refOneway := refOneway } }
    else if 20 < ttiDistance s.reTxBuffer.bufStartTti (UInt16.ofNat caHeader) then
      some { s with
        reTxBuffer := ngscopeReTxResetBuf s.reTxBuffer
        statMissReTx := s.statMissReTx+1 }
    else some s
  else some s

def handleRevert (s : ClientState) : ClientState :=
  if s.reTxBuffer.ready ∧ s.reTxBuffer.bufferActive ∧ s.reTxBuffer.startPktFound then
    let r := ngscopeListRevertDelay s.pktList s.reTxBuffer
    { s with pktList := r.1, reTxBuffer := r.2 }
  else s

/-- `none` is an access outside an array or a division by zero on the way. -/
def pktHandling (s : ClientState) (dciAll : ℕ → NgscopeDci) (newDlReTx : Bool) (nofCell : ℕ) :
    Option ClientState :=
  let nofPkt := ngscopeListLength s.pktList
  let offset := dciPktOffset (ngscopeListGetReTx s.pktList nofPkt) dciAll newDlReTx nofCell
  let dciAll := ngscopeDciSyncMultiCell dciAll nofCell offset
  (handleReTx s dciAll newDlReTx nofCell).bind fun t =>
    (handleBurstStart t (pktRxTUs s.pktList nofPkt) (pktOnewayUs s.pktList nofPkt)
      (dciAll 0).caHeader).map handleRevert

/-! ### Runs -/

inductive ClientAction
  | enqueue (header : TCPHeader) (received : UInt32) (recvTimeNs : UInt64)
  | handle (dciAll : ℕ → NgscopeDci) (newDlReTx : Bool) (nofCell : ℕ)
  | send (currTUs : UInt64) (goExit : ℕ → Bool) (stale : TCPHeader)

def clientStep (s : ClientState) : ClientAction → Option ClientState
  | .enqueue header received recvTimeNs => some (enqueuePkt s header received recvTimeNs)
  | .handle dciAll newDlReTx nofCell => pktHandling s dciAll newDlReTx nofCell
  | .send currTUs goExit stale => some (sendPktList s currTUs goExit stale)

end CopaNgscope
