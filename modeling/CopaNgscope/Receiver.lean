import CopaNgscope.NgscopeClient
import CopaNgscope.NgscopeDciClock
import CopaNgscope.NgscopeDciRecv
import CopaNgscope.NgscopeReTxTrace

/-! The packet loop of `receiver.cc`. Its clock offset is a global that outlives the packet it
was estimated for, the arrays of DCIs are shifted by it for every packet, and the buffer is
updated from them before and after the shift. -/
namespace CopaNgscope
open RunInvariant

/-- The data shared with the receive thread and the arrays of DCIs, the packet list, the buffer,
the offset and the next free node. -/
structure Receiver where
  poller : DciPoller
  pktList : List PacketNode
  reTxBuffer : NgscopeReorderingBuf
  dciPktOffset : ℤ
  nextNode : ℕ

namespace Receiver

def enqueuePkt (s : Receiver) (header : TCPHeader) (received : UInt32) (recvTimeNs : UInt64) :
    Receiver :=
  let p := packetNode s.nextNode header received recvTimeNs
  match ngscopeListInsertNodeCheckTime s.pktList p with
  | .dropped _ => { s with nextNode := s.nextNode+1 }
  | .inserted ps _ => { s with pktList := ps, nextNode := s.nextNode+1 }

/-- The locked part of `echo_packets`. The uplink check looks at the downlink times too, and only
a downlink retransmission makes it copy the logs. -/
def poll (s : DciPoller) : DciPoller :=
  let dl := ngscopeDciNewDlReTx s.dciCa s.recentDlReTxUs
  let ul := ngscopeDciNewDlReTx s.dciCa s.recentUlReTxUs
  { s with
    dciAll := if dl.2 then ngscopeDciExtractMultiCell s.dciAll s.dciCa else s.dciAll
    recentDlReTxUs := if dl.2 then ngscopeDciCopyDlReTx s.dciCa dl.1 else dl.1
    recentUlReTxUs := if ul.2 then ngscopeDciCopyUlReTx s.dciCa ul.1 else ul.1
    newDlReTx := dl.2
    newUlReTx := ul.2
    nofCell := s.dciCa.nofCell }

/-- The offset for a packet: a new one with a new retransmission, the last one otherwise. -/
def packetOffset (s : Receiver) : ℤ :=
  if s.poller.newDlReTx then
    ngscopeSyncDciPkt (ngscopeListGetReTx s.pktList (ngscopeListLength s.pktList))
      (ngscopeDciGetReTxT s.poller.dciAll s.poller.nofCell) offsetVec
  else s.dciPktOffset

/-- The arrays after `ngscope_dci_sync_multi_cell`. -/
def syncedDci (s : Receiver) : ℕ → NgscopeDci :=
  ngscopeDciSyncMultiCell s.poller.dciAll s.poller.nofCell s.packetOffset

/-- One call of `ngscope_reTx_update_buf`, made with a new retransmission only. -/
def updateBuf (s : Receiver) (dciAll : ℕ → NgscopeDci) (q : NgscopeReorderingBuf) :
    Option NgscopeReorderingBuf :=
  if s.poller.newDlReTx then
    (ngscopeReTxUpdateBuf q dciAll s.poller.nofCell).map Prod.fst
  else some q

/-- Both calls: the first comes before the arrays are shifted, the second after it. -/
def updates (s : Receiver) : Option NgscopeReorderingBuf :=
  (s.updateBuf s.poller.dciAll s.reTxBuffer).bind (s.updateBuf s.syncedDci)

/-- The buffer waits for the first packet of its burst. -/
def Searches (q : NgscopeReorderingBuf) : Prop :=
  q.ready = true ∧ q.bufferActive = true ∧ q.startPktFound = false

instance (q : NgscopeReorderingBuf) : Decidable (Searches q) :=
  inferInstanceAs (Decidable (q.ready = true ∧ q.bufferActive = true ∧ q.startPktFound = false))

/-- The search for the first packet. There is no timeout. -/
def findBurstStart (pktTUs onewayUs : List UInt64) (q : NgscopeReorderingBuf) :
    Option NgscopeReorderingBuf :=
  if Searches q then
    let index := ngscopeReTxFindBurstStart pktTUs onewayUs q.bufStartT
    if 0 < index then
      (ngscopeListAveOneway onewayUs index.toNat 5).map fun refOneway =>
        { q with
          startPktFound := true
          startPktT := pktTUs.getD index.toNat 0
          refOneway := refOneway }
    else some q
  else some q

def revertDelay (ps : List PacketNode) (q : NgscopeReorderingBuf) :
    List PacketNode × NgscopeReorderingBuf :=
  if q.ready ∧ q.bufferActive ∧ q.startPktFound then ngscopeListRevertDelay ps q else (ps, q)

/-- The packet is listed and polled for. -/
def arrive (s : Receiver) (header : TCPHeader) (received : UInt32) (recvTimeNs : UInt64) :
    Receiver :=
  { s.enqueuePkt header received recvTimeNs with poller := poll s.poller }

/-- What follows the poll; `none` is an access outside an array or a division by zero. -/
def handle (s : Receiver) : Option Receiver :=
  let nofPkt := ngscopeListLength s.pktList
  s.updates.bind fun q =>
    (findBurstStart (pktRxTUs s.pktList nofPkt) (pktOnewayUs s.pktList nofPkt) q).map fun q =>
      let r := revertDelay s.pktList q
      { s with
        poller := { s.poller with dciAll := s.syncedDci }
        pktList := r.1
        reTxBuffer := r.2
        dciPktOffset := s.packetOffset }

end Receiver

/-- The receive thread inserts a DCI or configures the cells, or `echo_packets` handles a packet
and echoes it. -/
inductive ReceiverAction
  | insert (ueDci : UeDci) (cellIdx : ℕ)
  | config (cellPrb : List UInt16)
  | packet (header : TCPHeader) (received : UInt32) (recvTimeNs : UInt64)

section
variable (stray : NgscopeDciCell → ℤ → UeDci)

def receiverStep (s : Receiver) : ReceiverAction → Option Receiver
  | .insert ueDci cellIdx =>
    (ngscopeDciCAInsert stray s.poller.dciCa ueDci cellIdx).map fun q =>
      { s with poller := { s.poller with dciCa := q } }
  | .config cellPrb =>
    (s.poller.dciCa.config cellPrb).map fun q => { s with poller := { s.poller with dciCa := q } }
  | .packet header received recvTimeNs => (s.arrive header received recvTimeNs).handle

end

def receiverInit {nofCell : ℕ} (h : nofCell ≤ maxNofRfDev) (dciAll : ℕ → NgscopeDci) :
    Receiver :=
  ⟨dciPollerInit h dciAll, [], ngscopeReTxInitBuf, 0, 0⟩

/-! ### The start of a burst -/

instance (q : NgscopeReorderingBuf) (trace : NgscopeReTxCa) (i : ℕ) :
    Decidable (SkipsEntry q trace i) :=
  inferInstanceAs (Decidable (ttiASeB (wrapTti (trace.tti i)) (wrapTti q.bufLastTti) = true ∧
    q.ready = true))

/-- The first retransmission that `update_reTx_buf` does not leave out. -/
def firstReTx (q : NgscopeReorderingBuf) (trace : NgscopeReTxCa) : Option ℕ :=
  (List.range trace.size).find? (fun i => trace.reTx i && !decide (SkipsEntry q trace i))

/-- The entry for which `update_reTx_buf` calls `set_reTx_start_tti`. -/
def burstStart (q : NgscopeReorderingBuf) (trace : NgscopeReTxCa) : Option ℕ :=
  if q.bufferActive then none
  else (firstReTx q trace).filter (fun i => ngscopeReTxIsNewBurst trace i || !q.ready)

/-- Retransmissions leave the start of an active buffer alone. -/
theorem takeReTx_active {q : NgscopeReorderingBuf} (h : q.bufferActive = true)
    (trace : NgscopeReTxCa) (i : ℕ) :
    (takeReTx q trace i).bufferActive = true ∧ (takeReTx q trace i).bufStartT = q.bufStartT := by
  rw [takeReTx, if_pos h]
  split_ifs
  · exact ⟨h, rfl⟩
  · exact ⟨rfl, rfl⟩

theorem updateReTxLoop_active {q : NgscopeReorderingBuf} (h : q.bufferActive = true)
    (trace : NgscopeReTxCa) (is : List ℕ) (found : Bool) :
    (updateReTxLoop trace is q found).1.bufferActive = true ∧
      (updateReTxLoop trace is q found).1.bufStartT = q.bufStartT := by
  refine updateReTxLoop_invariant (P := fun r => r.bufferActive = true ∧ r.bufStartT = q.bufStartT)
    (fun i _ _ r hr => ?_) ⟨h, rfl⟩ found
  obtain ⟨hactive, hstart⟩ := takeReTx_active hr.1 trace i
  exact ⟨hactive, hstart.trans hr.2⟩

/-- Without a retransmission to take the buffer stays as it is. -/
theorem updateReTxBuf_of_firstReTx_none {q : NgscopeReorderingBuf} {trace : NgscopeReTxCa}
    (h : firstReTx q trace = none) :
    (updateReTxBuf q trace).1 = q := by
  have hskips (i : ℕ) (hi : i < trace.size) (hreTx : trace.reTx i = true) :
      SkipsEntry q trace i := by
    have hnone := List.find?_eq_none.mp h i (List.mem_range.mpr hi)
    rw [hreTx, Bool.true_and, Bool.not_eq_true, Bool.not_eq_false'] at hnone
    exact of_decide_eq_true hnone
  rw [updateReTxBuf_of_old hskips]

/-- Otherwise the first one is taken, and what follows finds an active buffer. -/
theorem updateReTxBuf_of_firstReTx_some {q : NgscopeReorderingBuf} {trace : NgscopeReTxCa} {i : ℕ}
    (hinactive : q.bufferActive = false) (h : firstReTx q trace = some i) :
    (updateReTxBuf q trace).1.bufferActive = true ∧
      (updateReTxBuf q trace).1.bufStartT = (takeReTx q trace i).bufStartT := by
  obtain ⟨hi, before, after, hsplit, hbefore⟩ := List.find?_eq_some_iff_append.mp h
  obtain ⟨hreTx, hskip⟩ := Bool.and_eq_true_iff.mp hi
  rw [Bool.not_eq_true', decide_eq_false_iff_not] at hskip
  -- what comes before it is skipped
  have hskips (j : ℕ) (hj : j ∈ before) (hreTx : trace.reTx j = true) : SkipsEntry q trace j := by
    have hout := hbefore j hj
    rw [hreTx, Bool.true_and, Bool.not_not] at hout
    exact of_decide_eq_true hout
  have htake : takeEntry q trace i = takeReTx q trace i := if_pos hreTx
  have hactive : (takeReTx q trace i).bufferActive = true := by
    rw [takeReTx, if_neg (by rw [hinactive]; exact Bool.false_ne_true)]
    split_ifs <;> rfl
  rw [updateReTxBuf, hsplit, updateReTxLoop_append
    (fun j hj => quietEntry_of_inactive hinactive (hskips j hj))]
  by_cases hover : BurstOver (takeEntry q trace i) trace i
  · rw [updateReTxLoop_over hskip hover, htake]
    exact ⟨hactive, rfl⟩
  · rw [updateReTxLoop_takes hskip hover, htake]
    exact updateReTxLoop_active hactive trace after _

/-- The start that a burst gets is the time of its entry. -/
theorem bufStartT_of_burstStart {q : NgscopeReorderingBuf} {trace : NgscopeReTxCa} {i : ℕ}
    (h : burstStart q trace = some i) : (updateReTxBuf q trace).1.bufferActive = true ∧
      (updateReTxBuf q trace).1.bufStartT = trace.rxTUs i := by
  unfold burstStart at h
  split_ifs at h with hactive
  rw [Bool.not_eq_true] at hactive
  obtain ⟨hfirst, hnew⟩ := Option.filter_eq_some_iff.mp h
  obtain ⟨hactive', hstart⟩ := updateReTxBuf_of_firstReTx_some hactive hfirst
  refine ⟨hactive', hstart.trans ?_⟩
  rw [takeReTx, if_neg (by rw [hactive]; exact Bool.false_ne_true), if_pos (by simpa using hnew)]
  rfl

end CopaNgscope
