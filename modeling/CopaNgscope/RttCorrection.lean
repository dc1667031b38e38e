import Mathlib.Tactic.Linarith
import Mathlib.Tactic.NormNum
import Mathlib.Tactic.Ring
import CopaNgscope.NgscopeClientEcho
import CopaNgscope.SenderAck

/-! The round trip of the RTT correction: what the client writes into `adjust_us` and what the
sender makes of it. -/
namespace CopaNgscope
open RunInvariant

/-! ### Differences that fit an `int` -/

def FitsInt (x : ℤ) : Prop := -2^31 ≤ x ∧ x < 2^31

instance (x : ℤ) : Decidable (FitsInt x) := inferInstanceAs (Decidable (_ ∧ _))

theorem bmod_of_fitsInt {x : ℤ} (h : FitsInt x) : Int.bmod x (2^32) = x :=
  Int.bmod_eq_of_le h.1 h.2

/-- The 64-bit difference may have wrapped; the cast to `int` undoes it. -/
theorem toInt_sub {x y : UInt64} (h : FitsInt ((x.toNat:ℤ)-y.toNat)) :
    toInt (x-y) = (x.toNat:ℤ)-y.toNat := by
  have hx := x.toNat_lt
  have hy := y.toNat_lt
  have hwrap : ((x-y).toNat:ℤ) = (x.toNat:ℤ)-y.toNat ∨
      ((x-y).toNat:ℤ) = (x.toNat:ℤ)-y.toNat+2^32*((2^32:ℕ):ℤ) := by
    rw [UInt64.toNat_sub]
    omega
  unfold toInt
  rcases hwrap with heq | heq
  · rw [heq, bmod_of_fitsInt h]
  · rw [heq, Int.add_mul_bmod_self_right, bmod_of_fitsInt h]

/-! ### The two halves -/

/-- What the client writes: the rewriting of the delay less the time the packet was held. -/
theorem echoHeader_adjustUs {p : PacketNode} {currTUs : UInt64}
    (hdelay : FitsInt ((p.onewayUsNew.toNat:ℤ)-p.onewayUs.toNat))
    (hhold : FitsInt ((currTUs.toNat:ℤ)-p.recvTUs.toNat))
    (hadjust : FitsInt (((p.onewayUsNew.toNat:ℤ)-p.onewayUs.toNat)-
      ((currTUs.toNat:ℤ)-p.recvTUs.toNat))) :
    (echoHeader p currTUs).adjustUs =
      ((p.onewayUsNew.toNat:ℤ)-p.onewayUs.toNat)-((currTUs.toNat:ℤ)-p.recvTUs.toNat) := by
  rw [echoHeader, toInt_sub hdelay, toInt_sub hhold, bmod_of_fitsInt hadjust]

/-- The sender takes the adjustment of the header off the measured round trip. -/
theorem latestRtt_of_ack {srcId flowId trainLength : ℤ} {header : TCPHeader} {call : AckCall}
    (hcall : ackCall srcId flowId trainLength header = some call) {w w' : RTTWindow} {a : ℚ}
    (hw : onAckSample w a call.sentTime call.adjustUs = some w') :
    w'.latestRtt = a-header.senderTimestamp-(header.adjustUs:ℚ)/1000 := by
  obtain ⟨hsent, hadjust⟩ := ackCall_eq_some hcall
  rw [onAckSample_latestRtt hw, hsent, hadjust]

/-- The header written by `send_pkt_w_time` of `copa_recv.cc`, the other client. -/
def sendPktWTimeHeader (p : PacketNode) : TCPHeader :=
  { p.tcpHeader with
    adjustUs := Int.bmod (toLong p.onewayUs-toLong p.onewayUsNew) (2^32) }

/-- With the other client's sign the sample is the round trip less the delay that was removed. -/
theorem sendPktWTime_sample {p : PacketNode} (hd : p.onewayUs.toNat < 2^63)
    (hdNew : p.onewayUsNew.toNat < 2^63)
    (hdelay : FitsInt ((p.onewayUs.toNat:ℤ)-p.onewayUsNew.toNat))
    {srcId flowId trainLength : ℤ} {call : AckCall}
    (hcall : ackCall srcId flowId trainLength (sendPktWTimeHeader p) = some call)
    {w w' : RTTWindow} {a : ℚ}
    (hw : onAckSample w a call.sentTime call.adjustUs = some w') :
    w'.latestRtt = a-p.tcpHeader.senderTimestamp-
      ((p.onewayUs.toNat:ℚ)-p.onewayUsNew.toNat)/1000 := by
  have hadjust : (sendPktWTimeHeader p).adjustUs =
      (p.onewayUs.toNat:ℤ)-p.onewayUsNew.toNat := by
    rw [sendPktWTimeHeader, toLong_of_lt hd, toLong_of_lt hdNew, bmod_of_fitsInt hdelay]
  have hsent : (sendPktWTimeHeader p).senderTimestamp = p.tcpHeader.senderTimestamp := by
    rw [sendPktWTimeHeader]
  rw [latestRtt_of_ack hcall hw, hadjust, hsent, Int.cast_sub, Int.cast_natCast,
    Int.cast_natCast]

/-! ### The composition -/

/-- The client writes both corrections with the sign that the sender's subtraction turns around,
so the sample grows by the time the packet was held and by the delay that was removed. -/
theorem latestRtt_of_echo {p : PacketNode} {currTUs : UInt64}
    (hdelay : FitsInt ((p.onewayUsNew.toNat:ℤ)-p.onewayUs.toNat))
    (hhold : FitsInt ((currTUs.toNat:ℤ)-p.recvTUs.toNat))
    (hadjust : FitsInt (((p.onewayUsNew.toNat:ℤ)-p.onewayUs.toNat)-
      ((currTUs.toNat:ℤ)-p.recvTUs.toNat)))
    {srcId flowId trainLength : ℤ} {call : AckCall}
    (hcall : ackCall srcId flowId trainLength (echoHeader p currTUs) = some call)
    {w w' : RTTWindow} {a : ℚ}
    (hw : onAckSample w a call.sentTime call.adjustUs = some w') :
    w'.latestRtt = (a-p.tcpHeader.senderTimestamp)+
      ((currTUs.toNat:ℚ)-p.recvTUs.toNat)/1000+
      ((p.onewayUs.toNat:ℚ)-p.onewayUsNew.toNat)/1000 := by
  have hsent : (echoHeader p currTUs).senderTimestamp = p.tcpHeader.senderTimestamp := by
    rw [echoHeader]
  calc w'.latestRtt
      = a-p.tcpHeader.senderTimestamp-((echoHeader p currTUs).adjustUs:ℚ)/1000 := by
        rw [latestRtt_of_ack hcall hw, hsent]
    _ = a-p.tcpHeader.senderTimestamp-
        (((p.onewayUsNew.toNat:ℚ)-p.onewayUs.toNat)-
          ((currTUs.toNat:ℚ)-p.recvTUs.toNat))/1000 := by
        rw [echoHeader_adjustUs hdelay hhold hadjust]
        push_cast
        rfl
    _ = _ := by ring

/-- In every run, the sample taken from an echo of `ngscope_client.cc` is the round trip less
the time the packet was held and less the delay that was removed only where the two cancel. -/
theorem rtt_sample_iff_hold_eq_revert {actions : List ClientAction} {t : UInt64}
    {s : ClientState} (hrun : run clientStep (clientInit t) actions = some s)
    {currTUs : UInt64} {goExit : ℕ → Bool} {stale header : TCPHeader} {p : PacketNode}
    (hp : p ∈ s.pktList) (hacked : p.acked = false)
    (hecho : .echo p.node header ∈ (sendPktList s currTUs goExit stale).events)
    (hdelay : FitsInt ((p.onewayUsNew.toNat:ℤ)-p.onewayUs.toNat))
    (hhold : FitsInt ((currTUs.toNat:ℤ)-p.recvTUs.toNat))
    (hadjust : FitsInt (((p.onewayUsNew.toNat:ℤ)-p.onewayUs.toNat)-
      ((currTUs.toNat:ℤ)-p.recvTUs.toNat)))
    {srcId flowId trainLength : ℤ} {call : AckCall}
    (hcall : ackCall srcId flowId trainLength header = some call)
    {w w' : RTTWindow} {a : ℚ}
    (hw : onAckSample w a call.sentTime call.adjustUs = some w') :
    w'.latestRtt = (a-p.tcpHeader.senderTimestamp)-
        ((currTUs.toNat:ℚ)-p.recvTUs.toNat)/1000-
        ((p.onewayUs.toNat:ℚ)-p.onewayUsNew.toNat)/1000 ↔
      (currTUs.toNat:ℤ)-p.recvTUs.toNat = (p.onewayUsNew.toNat:ℤ)-p.onewayUs.toNat := by
  obtain rfl := header_eq_echoHeader (echoInv_run hrun).1 hp hacked hecho
  rw [latestRtt_of_echo hdelay hhold hadjust hcall hw]
  -- the two sides differ by twice the hold time and twice the removed delay
  constructor
  · intro h
    have hq : (currTUs.toNat:ℚ)-p.recvTUs.toNat = p.onewayUsNew.toNat-p.onewayUs.toNat := by
      linarith
    exact_mod_cast hq
  · intro h
    have hq : (currTUs.toNat:ℚ)-p.recvTUs.toNat = p.onewayUsNew.toNat-p.onewayUs.toNat := by
      exact_mod_cast h
    linarith

/-- A packet received at 1 s and echoed 1 ms later with its delay as measured. -/
def heldPacket : PacketNode := packetNode 0 plainHeader 1500 1000000000

/-- The sample is right where the packet is echoed in the microsecond of its arrival, and wrong
where it is held. -/
theorem rtt_sample_iff_hold_eq_revert_held_packet :
    (rttWindow.newRttSample (100-0-((0:ℤ):ℚ)/1000) 100).latestRtt =
        (100-0)-(((1000000:UInt64).toNat:ℚ)-heldPacket.recvTUs.toNat)/1000-
          ((heldPacket.onewayUs.toNat:ℚ)-heldPacket.onewayUsNew.toNat)/1000 ∧
      (rttWindow.newRttSample (100-0-((-1000:ℤ):ℚ)/1000) 100).latestRtt ≠
        (100-0)-(((1001000:UInt64).toNat:ℚ)-heldPacket.recvTUs.toNat)/1000-
          ((heldPacket.onewayUs.toNat:ℚ)-heldPacket.onewayUsNew.toNat)/1000 := by
  have hrun : run clientStep (clientInit 0) [.enqueue plainHeader 1500 1000000000] =
      some (enqueuePkt (clientInit 0) plainHeader 1500 1000000000) := rfl
  have hmem : heldPacket ∈ (enqueuePkt (clientInit 0) plainHeader 1500 1000000000).pktList :=
    List.mem_singleton.mpr rfl
  constructor
  · exact (rtt_sample_iff_hold_eq_revert hrun hmem rfl
      (by decide : .echo heldPacket.node (echoHeader heldPacket 1000000) ∈
        (sendPktList (enqueuePkt (clientInit 0) plainHeader 1500 1000000000) 1000000
          (fun _ => false) plainHeader).events)
      (by decide) (by decide) (by decide)
      (by decide : ackCall 0 0 1 (echoHeader heldPacket 1000000) = some ⟨2, 0, 0, 0⟩)
      (if_pos (by norm_num))).mpr (by decide)
  · exact (rtt_sample_iff_hold_eq_revert hrun hmem rfl
      (by decide : .echo heldPacket.node (echoHeader heldPacket 1001000) ∈
        (sendPktList (enqueuePkt (clientInit 0) plainHeader 1500 1000000000) 1001000
          (fun _ => false) plainHeader).events)
      (by decide) (by decide) (by decide)
      (by decide : ackCall 0 0 1 (echoHeader heldPacket 1001000) = some ⟨2, 0, 0, -1000⟩)
      (if_pos (by norm_num))).not.mpr (by decide)

/-- The sender measures 100 ms, of which the packet was held 1 ms. The sample is 101 ms. -/
theorem held_packet_sample_grows :
    ClientEvent.echo heldPacket.node (echoHeader heldPacket 1001000) ∈
      (sendPktList (enqueuePkt (clientInit 0) plainHeader 1500 1000000000) 1001000
        (fun _ => false) plainHeader).events ∧
    ackCall 0 0 1 (echoHeader heldPacket 1001000) = some ⟨2, 0, 0, -1000⟩ ∧
    (onAckSample rttWindow 100 0 (-1000)).map RTTWindow.latestRtt = some 101 ∧
    (101:ℚ) ≠ (100-0)-(((1001000:UInt64).toNat:ℚ)-heldPacket.recvTUs.toNat)/1000-
      ((heldPacket.onewayUs.toNat:ℚ)-heldPacket.onewayUsNew.toNat)/1000 := by
  have hrecv : heldPacket.recvTUs.toNat = 1000000 := by decide
  have honeway : heldPacket.onewayUs.toNat = heldPacket.onewayUsNew.toNat := by decide
  have hcurr : (1001000:UInt64).toNat = 1001000 := by decide
  refine ⟨by decide, by decide, ?_, ?_⟩
  · rw [onAckSample, if_pos (by norm_num), Option.map_some, newRttSample_latestRtt]
    norm_num
  · rw [hrecv, honeway, hcurr]
    norm_num

end CopaNgscope
