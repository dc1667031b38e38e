import CopaNgscope.OwnAcks
import CopaNgscope.RemyRules
import CopaNgscope.SenderSimulation
import CopaNgscope.SenderTrain

/-! RemyCC inside `CTCP::send_data`. Whatever the network repeats or makes up, the `Rat` is handed
each train that was sent once, with the time of its first packet, and none that was not. -/
namespace CopaNgscope
open RunInvariant

variable {ρ : Type*}

/-- RemyCC as the controller of `CTCP`. The timeout is never changed, `close` does nothing, and
`onTimeout` only prints. -/
def remy (ops : RatOps ρ) (trainingLinkRate : ℚ) : CongCtrl (RemyCC ρ) where
  init := RemyCC.init ops
  close := id
  setTimestamp := RemyCC.setTimestamp
  getTheWindow := RemyCC.theWindow
  getIntersendTime := RemyCC.intersendTime
  getTimeout := fun _ => 1000
  onPktSent := RemyCC.onPktSent
  onACK := fun q call => q.onACK ops trainingLinkRate call.ack call.receiverTimestamp
  onTimeout := id
  onLinkRateMeasurement := RemyCC.onLinkRateMeasurement

/-! ### Notes -/

/-- A `Rat` that notes the packets that it is handed. -/
def RatOps.noting (ops : RatOps ρ) : RatOps (ρ × List Packet) where
  packetsReceived := fun q packets factor =>
    (ops.packetsReceived q.1 packets factor).map fun r => (r, q.2 ++ packets)
  reset := fun q tickno => (ops.reset q.1 tickno).map fun r => (r, q.2)
  curWindowSize := fun q => ops.curWindowSize q.1
  curIntersendTime := fun q => ops.curIntersendTime q.1

namespace RemyCC

/-- The controller with no notes yet. -/
def note (q : RemyCC ρ) : RemyCC (ρ × List Packet) := { q with rat := (q.rat, []) }

def forget (q : RemyCC (ρ × List Packet)) : RemyCC ρ := { q with rat := q.rat.1 }

/-- The packets that the `Rat` was handed. -/
def noted (q : RemyCC (ρ × List Packet)) : List Packet := q.rat.2

variable {ops : RatOps ρ} {trainingLinkRate : ℚ}

theorem init_forget (q : RemyCC (ρ × List Packet)) :
    q.forget.init ops = (q.init ops.noting).map forget := by
  unfold init RatOps.noting
  rw [Option.map_map, Option.map_map]
  rfl

theorem ackPacket_forget (q : RemyCC (ρ × List Packet)) (seqNum : ℤ)
    (sentTime receiverTimestamp : ℚ) :
    q.forget.ackPacket ops trainingLinkRate seqNum sentTime receiverTimestamp =
      (q.ackPacket ops.noting trainingLinkRate seqNum sentTime receiverTimestamp).map forget := by
  unfold ackPacket RatOps.noting
  by_cases hrate : 0 < q.measuredLinkRate
  · rw [if_pos hrate, Option.map_map, Option.map_map]
    exact if_pos hrate
  · rw [if_neg hrate, Option.map_map, Option.map_map]
    exact if_neg hrate

theorem onACK_forget (q : RemyCC (ρ × List Packet)) (ack : ℤ) (receiverTimestamp : ℚ) :
    q.forget.onACK ops trainingLinkRate ack receiverTimestamp =
      (q.onACK ops.noting trainingLinkRate ack receiverTimestamp).map forget := by
  unfold onACK
  cases hsent : q.unacknowledgedPackets (ack-1) with
  | none =>
    have hforget : q.forget.unacknowledgedPackets (ack-1) = none := hsent
    simp only [hforget, hsent]
    rfl
  | some sentTime =>
    have hforget : q.forget.unacknowledgedPackets (ack-1) = some sentTime := hsent
    simp only [hforget, hsent]
    exact ackPacket_forget q _ sentTime receiverTimestamp

/-- What an ACK notes: the packet that was in flight under its number, and is no longer. -/
theorem onACK_noted {q u : RemyCC (ρ × List Packet)} {ack : ℤ} {receiverTimestamp : ℚ}
    (h : q.onACK ops.noting trainingLinkRate ack receiverTimestamp = some u) :
    u = q ∨ ∃ p, q.unacknowledgedPackets p.seqNum = some p.tickSent ∧
      u.noted = q.noted ++ [p] ∧
      u.unacknowledgedPackets = Function.update q.unacknowledgedPackets p.seqNum none := by
  cases hsent : q.unacknowledgedPackets (ack-1) with
  | none =>
    rw [onACK] at h
    simp only [hsent] at h
    exact Or.inl (Option.some.inj h).symm
  | some sentTime =>
    rw [onACK_of_some _ _ hsent, ackPacket] at h
    refine Or.inr ⟨⟨0, q.flowId, sentTime, q.curTick, receiverTimestamp, ack-1⟩, hsent, ?_⟩
    -- the scaling of the rate does not matter
    split_ifs at h with hrate
    · obtain ⟨rat, hrat, rfl⟩ := Option.map_eq_some_iff.mp h
      obtain ⟨r, _, rfl⟩ := Option.map_eq_some_iff.mp hrat
      exact ⟨rfl, rfl⟩
    · obtain ⟨rat, hrat, rfl⟩ := Option.map_eq_some_iff.mp h
      obtain ⟨r, _, rfl⟩ := Option.map_eq_some_iff.mp hrat
      exact ⟨rfl, rfl⟩

theorem init_noted {q u : RemyCC (ρ × List Packet)} (h : q.init ops.noting = some u) :
    u.noted = q.noted ∧ u.unacknowledgedPackets = q.unacknowledgedPackets := by
  obtain ⟨rat, hrat, rfl⟩ := Option.map_eq_some_iff.mp h
  obtain ⟨r, _, rfl⟩ := Option.map_eq_some_iff.mp hrat
  exact ⟨rfl, rfl⟩

end RemyCC

/-- Notes do not change what `send_data` sees of the controller. -/
theorem remy_simulates (ops : RatOps ρ) (trainingLinkRate : ℚ) :
    (remy ops trainingLinkRate).Simulates (remy ops.noting trainingLinkRate) RemyCC.forget where
  init := RemyCC.init_forget
  close := fun _ => rfl
  setTimestamp := fun _ _ => rfl
  getTheWindow := fun _ => rfl
  getIntersendTime := fun _ => rfl
  getTimeout := fun _ => rfl
  onPktSent := fun _ _ => rfl
  onACK := fun q call => RemyCC.onACK_forget q call.ack call.receiverTimestamp
  onTimeout := fun _ => rfl
  onLinkRateMeasurement := fun _ _ => rfl

/-! ### Trains -/

/-- Every train of which the first packet was sent is in flight or was handed to the `Rat`, not
both and not twice, under the time at which that packet was sent. -/
structure TrainsOnce (trainLength : ℤ) (q : RemyCC (ρ × List Packet)) (seqNum : ℤ)
    (sent : List TCPHeader) : Prop where
  seqNum_nonneg : 0 ≤ seqNum
  sent_lt : ∀ h ∈ sent, h.seqNum < seqNum
  nodup : (q.noted.map Packet.seqNum).Nodup
  inFlight : ∀ k t, q.unacknowledgedPackets k = some t → k ∉ q.noted.map Packet.seqNum ∧
    ∃ h ∈ sent, h.seqNum = k*trainLength ∧ h.senderTimestamp = t
  handed : ∀ p ∈ q.noted, ∃ h ∈ sent, h.seqNum = p.seqNum*trainLength ∧
    h.senderTimestamp = p.tickSent
  all : ∀ k, k*trainLength < seqNum → 0 ≤ k → q.unacknowledgedPackets k = none →
    k ∈ q.noted.map Packet.seqNum

variable {trainLength : ℤ} {q u : RemyCC (ρ × List Packet)} {seqNum : ℤ} {sent : List TCPHeader}

theorem TrainsOnce.congr (h : TrainsOnce trainLength q seqNum sent) (hnoted : u.noted = q.noted)
    (hunacked : u.unacknowledgedPackets = q.unacknowledgedPackets) :
    TrainsOnce trainLength u seqNum sent where
  seqNum_nonneg := h.seqNum_nonneg
  sent_lt := h.sent_lt
  nodup := hnoted ▸ h.nodup
  inFlight := by
    rw [hnoted, hunacked]
    exact h.inFlight
  handed := hnoted ▸ h.handed
  all := by
    rw [hnoted, hunacked]
    exact h.all

theorem TrainsOnce.onACK {ops : RatOps ρ} {trainingLinkRate : ℚ}
    (h : TrainsOnce trainLength q seqNum sent) {ack : ℤ} {receiverTimestamp : ℚ}
    (hu : q.onACK ops.noting trainingLinkRate ack receiverTimestamp = some u) :
    TrainsOnce trainLength u seqNum sent := by
  rcases RemyCC.onACK_noted hu with rfl | ⟨p, hp, hnoted, hunacked⟩
  · exact h
  obtain ⟨hnew, hsent⟩ := h.inFlight p.seqNum p.tickSent hp
  have hmem (k : ℤ) : k ∈ u.noted.map Packet.seqNum ↔
      k ∈ q.noted.map Packet.seqNum ∨ k = p.seqNum := by
    rw [hnoted, List.map_append, List.mem_append]
    exact or_congr_right List.mem_singleton
  refine ⟨h.seqNum_nonneg, h.sent_lt, ?_, ?_, ?_, ?_⟩
  · rw [hnoted, List.map_append, List.nodup_append]
    refine ⟨h.nodup, List.nodup_singleton _, fun k hk k' hk' heq => ?_⟩
    rw [List.mem_singleton.mp hk'] at heq
    exact hnew (heq ▸ hk)
  · intro k t hk
    rw [hunacked] at hk
    by_cases heq : k = p.seqNum
    · rw [heq, Function.update_self] at hk
      cases hk
    · rw [Function.update_of_ne heq] at hk
      obtain ⟨hold, hheader⟩ := h.inFlight k t hk
      exact ⟨fun hmem' => ((hmem k).mp hmem').elim hold heq, hheader⟩
  · rw [hnoted]
    intro p' hp'
    rcases List.mem_append.mp hp' with hold | hlast
    · exact h.handed p' hold
    · rw [List.mem_singleton.mp hlast]
      exact hsent
  · intro k hk hk0 hnone
    rw [hunacked] at hnone
    by_cases heq : k = p.seqNum
    · exact (hmem k).mpr (Or.inr heq)
    · rw [Function.update_of_ne heq] at hnone
      exact (hmem k).mpr (Or.inl (h.all k hk hk0 hnone))

/-- Another packet is sent. -/
theorem TrainsOnce.sentMore (h : TrainsOnce trainLength q seqNum sent) {header : TCPHeader}
    (hseq : header.seqNum = seqNum) (hlater : Int.tmod seqNum trainLength ≠ 0) :
    TrainsOnce trainLength q (seqNum+1) (sent ++ [header]) where
  seqNum_nonneg := h.seqNum_nonneg.trans (Int.le_add_one le_rfl)
  sent_lt := by
    intro x hx
    rcases List.mem_append.mp hx with hold | hlast
    · exact (h.sent_lt x hold).trans (Int.lt_succ _)
    · rw [List.mem_singleton.mp hlast, hseq]
      exact Int.lt_succ _
  nodup := h.nodup
  inFlight := by
    intro k t hk
    obtain ⟨hnew, x, hx, hheader⟩ := h.inFlight k t hk
    exact ⟨hnew, x, List.mem_append_left _ hx, hheader⟩
  handed := by
    intro p hp
    obtain ⟨x, hx, hheader⟩ := h.handed p hp
    exact ⟨x, List.mem_append_left _ hx, hheader⟩
  all := by
    intro k hk hk0 hnone
    rcases (Int.lt_add_one_iff.mp hk).lt_or_eq with hlt | heq
    · exact h.all k hlt hk0 hnone
    · rw [← heq, Int.mul_tmod_left] at hlater
      exact absurd rfl hlater

/-- The first packet of a train is sent. -/
theorem TrainsOnce.onPktSent (hpos : 0 < trainLength) (h : TrainsOnce trainLength q seqNum sent)
    {header : TCPHeader} (hseq : header.seqNum = seqNum)
    (htime : header.senderTimestamp = q.curTick) {train : ℤ}
    (htrain : train*trainLength = seqNum) :
    TrainsOnce trainLength (q.onPktSent train) (seqNum+1) (sent ++ [header]) := by
  have hcancel {k : ℤ} (hk : k*trainLength = seqNum) : k = train :=
    mul_right_cancel₀ hpos.ne' (hk.trans htrain.symm)
  have hunacked : (q.onPktSent train).unacknowledgedPackets =
      Function.update q.unacknowledgedPackets train (some q.curTick) := rfl
  refine ⟨h.seqNum_nonneg.trans (Int.le_add_one le_rfl), ?_, h.nodup, ?_, ?_, ?_⟩
  · intro x hx
    rcases List.mem_append.mp hx with hold | hlast
    · exact (h.sent_lt x hold).trans (Int.lt_succ _)
    · rw [List.mem_singleton.mp hlast, hseq]
      exact Int.lt_succ _
  · intro k t hk
    rw [hunacked] at hk
    by_cases heq : k = train
    · rw [heq, Function.update_self] at hk
      cases hk
      rw [heq]
      refine ⟨fun hmem => ?_, header, List.mem_append_right _ (List.mem_singleton.mpr rfl),
        hseq.trans htrain.symm, htime⟩
      -- what was handed before was sent before
      obtain ⟨p, hp, hnum⟩ := List.mem_map.mp hmem
      obtain ⟨x, hx, hxseq, _⟩ := h.handed p hp
      rw [hnum, htrain] at hxseq
      exact (h.sent_lt x hx).ne hxseq
    · rw [Function.update_of_ne heq] at hk
      obtain ⟨hnew, x, hx, hheader⟩ := h.inFlight k t hk
      exact ⟨hnew, x, List.mem_append_left _ hx, hheader⟩
  · intro p hp
    obtain ⟨x, hx, hheader⟩ := h.handed p hp
    exact ⟨x, List.mem_append_left _ hx, hheader⟩
  · intro k hk hk0 hnone
    rw [hunacked] at hnone
    rcases (Int.lt_add_one_iff.mp hk).lt_or_eq with hlt | heq
    · have hne : k ≠ train := by
        intro hsame
        rw [hsame, htrain] at hlt
        exact hlt.false
      rw [Function.update_of_ne hne] at hnone
      exact h.all k hlt hk0 hnone
    · rw [hcancel heq, Function.update_self] at hnone
      cases hnone

/-! ### The loop -/

section
variable {ops : RatOps ρ} {trainingLinkRate : ℚ} {c : FlowConfig}

theorem trainsOnce_takeAck {s : Sender (RemyCC (ρ × List Packet))} {now : ℚ}
    {r : SendOutcome (RemyCC (ρ × List Packet))}
    (h : TrainsOnce c.trainLength s.congctrl s.seqNum sent)
    (hr : takeAck (remy ops.noting trainingLinkRate) c s now = some r) :
    TrainsOnce c.trainLength r.sender.congctrl r.sender.seqNum sent := by
  have hseq := (takeAck_cases hr).1
  rw [hseq]
  by_cases hown : c.Own s.buf
  · have hids : ¬ (s.buf.srcId ≠ c.srcId ∨ s.buf.flowId ≠ c.flowId) := by
      rw [not_or, not_not, not_not]
      exact hown
    rw [takeAck, if_neg hids] at hr
    extract_lets call t at hr
    have ht : TrainsOnce c.trainLength t.congctrl s.seqNum sent := by
      dsimp only [t]
      unfold estimateLinkRate
      extract_lets estimate
      split_ifs
      · exact h.congr rfl rfl
      · exact h
      · exact h
    obtain ⟨congctrl, hack, rfl⟩ := Option.map_eq_some_iff.mp hr
    dsimp only
    cases hcall : call with
    | none =>
      rw [hcall] at hack
      cases hack
      exact ht
    | some x =>
      rw [hcall] at hack
      have htimed := ht.congr (u := t.congctrl.setTimestamp now) rfl rfl
      exact htimed.onACK hack
  · rw [takeAck_of_not_own hown] at hr
    cases hr
    exact h

theorem trainsOnce_transmit (hpos : 0 < c.trainLength)
    {s : Sender (RemyCC (ρ × List Packet))}
    (h : TrainsOnce c.trainLength s.congctrl s.seqNum sent) (txTimestamp : UInt64) :
    TrainsOnce c.trainLength
      (transmitPacket (remy ops.noting trainingLinkRate) c s txTimestamp).congctrl (s.seqNum+1)
      (sent ++ [dataHeader c s txTimestamp]) := by
  unfold transmitPacket
  by_cases hfirst : Int.tmod s.seqNum c.trainLength = 0
  · have htrain : sentTrain c.trainLength s.seqNum = some (Int.tdiv s.seqNum c.trainLength) :=
      if_pos hfirst
    have htimed := h.congr (u := s.congctrl.setTimestamp s.curTime) rfl rfl
    simp only [htrain]
    exact htimed.onPktSent hpos rfl rfl (Int.tdiv_mul_cancel_of_tmod_eq_zero hfirst)
  · have htrain : sentTrain c.trainLength s.seqNum = none := if_neg hfirst
    simp only [htrain]
    exact h.sentMore rfl hfirst

theorem trainsOnce_sendStep (hpos : 0 < c.trainLength)
    {s : Sender (RemyCC (ρ × List Packet))} {a : SendAction}
    {r : SendOutcome (RemyCC (ρ × List Packet))}
    (h : TrainsOnce c.trainLength s.congctrl s.seqNum sent)
    (hr : sendStep (remy ops.noting trainingLinkRate) c s a = some r) :
    TrainsOnce c.trainLength r.sender.congctrl r.sender.seqNum (sent ++ r.dataSent) := by
  -- a step that sends no data and leaves the packets in flight and the notes
  have hquiet (hseq : r.sender.seqNum = s.seqNum) (hdata : r.dataSent = [])
      (hnoted : r.sender.congctrl.noted = s.congctrl.noted)
      (hunacked : r.sender.congctrl.unacknowledgedPackets = s.congctrl.unacknowledgedPackets) :
      TrainsOnce c.trainLength r.sender.congctrl r.sender.seqNum (sent ++ r.dataSent) := by
    rw [hseq, hdata, List.append_nil]
    exact h.congr hnoted hunacked
  cases a with
  | enter now =>
    rw [sendStep] at hr
    split_ifs at hr
    obtain ⟨t, ht, rfl⟩ := Option.map_eq_some_iff.mp hr
    have hseq := enterLoop_seqNum ht
    rw [enterLoop] at ht
    split_ifs at ht
    · obtain ⟨q, hq, rfl⟩ := Option.map_eq_some_iff.mp ht
      obtain ⟨hnoted, hunacked⟩ := RemyCC.init_noted hq
      exact hquiet hseq rfl hnoted hunacked
    · cases ht
      exact hquiet hseq rfl rfl rfl
    · cases ht
      exact hquiet hseq rfl rfl rfl
  | transmit txTimestamp =>
    rw [sendStep] at hr
    split_ifs at hr
    cases hr
    exact trainsOnce_transmit hpos h txTimestamp
  | stopTransmitting txTimestamp now =>
    rw [sendStep] at hr
    split_ifs at hr
    · cases hr
      exact hquiet rfl rfl rfl rfl
    · cases hr
      exact hquiet rfl rfl rfl rfl
  | timedOut now =>
    rw [sendStep] at hr
    split_ifs at hr
    cases hr
    -- the callback only prints
    have htimeout : (receiveTimedOut (remy ops.noting trainingLinkRate) s now).congctrl =
        s.congctrl := ite_self _
    exact hquiet rfl rfl (congrArg RemyCC.noted htimeout)
      (congrArg RemyCC.unacknowledgedPackets htimeout)
  | receive header now =>
    rw [sendStep] at hr
    split_ifs at hr
    have hnone := (takeAck_cases hr).2.1
    rw [SendOutcome.dataSent, hnone, List.append_nil]
    exact trainsOnce_takeAck (s := { s with buf := header }) h hr
  | receiveError now =>
    rw [sendStep] at hr
    split_ifs at hr
    have hnone := (takeAck_cases hr).2.1
    rw [SendOutcome.dataSent, hnone, List.append_nil]
    exact trainsOnce_takeAck h hr
  | finish now =>
    rw [sendStep] at hr
    split_ifs at hr
    cases hr
    exact hquiet rfl rfl rfl rfl

theorem trainsOnce_flowStep (hpos : 0 < c.trainLength)
    {f f' : Flow (RemyCC (ρ × List Packet))} {a : FlowAction}
    (h : TrainsOnce c.trainLength f.sender.congctrl f.sender.seqNum f.sent)
    (hstep : flowStep (remy ops.noting trainingLinkRate) c f a = some f') :
    TrainsOnce c.trainLength f'.sender.congctrl f'.sender.seqNum f'.sent := by
  rcases flowStep_cases hstep with
    ⟨b, r, _, hr, rfl⟩ | ⟨b, s, t, _, _, _, _, rfl⟩ | ⟨b, s, r, _, _, _, _, rfl⟩
  · exact trainsOnce_sendStep hpos h hr
  · exact h
  · exact h

end

/-- In the first flow of RemyCC, with any `Rat`, over any network and for trains of any length: the
`Rat` is handed no train twice, and each with the time at which its first packet was sent in this
flow. A train that was sent is no longer in flight if and only if it was handed to the `Rat`. -/
theorem remy_flow_trains_once {ops : RatOps ρ} {trainingLinkRate : ℚ} {c : FlowConfig}
    {f f' : Flow (RemyCC ρ)} {actions : List FlowAction} (hpos : 1 ≤ c.trainLength)
    (hseq : f.sender.seqNum = 0) (hsent : f.sent = [])
    (hfresh : ∀ k, f.sender.congctrl.unacknowledgedPackets k = none)
    (hrun : run (flowStep (remy ops trainingLinkRate) c) f actions = some f') :
    ∃ g, run (flowStep (remy ops.noting trainingLinkRate) c) (f.map RemyCC.note) actions = some g ∧
      g.map RemyCC.forget = f' ∧
      (g.sender.congctrl.noted.map Packet.seqNum).Nodup ∧
      (∀ p ∈ g.sender.congctrl.noted, ∃ h ∈ f'.sent,
        h.seqNum = p.seqNum*c.trainLength ∧ h.senderTimestamp = p.tickSent) ∧
      ∀ k, 0 ≤ k → k*c.trainLength < f'.sender.seqNum →
        (f'.sender.congctrl.unacknowledgedPackets k = none ↔
          k ∈ g.sender.congctrl.noted.map Packet.seqNum) := by
  have hmap :=
    flowRun_map (c := c) (remy_simulates ops trainingLinkRate) (f.map RemyCC.note) actions
  have hstart : (f.map RemyCC.note).map RemyCC.forget = f := rfl
  rw [hstart, hrun] at hmap
  obtain ⟨g, hg, rfl⟩ := Option.map_eq_some_iff.mp hmap.symm
  have hfirst : TrainsOnce c.trainLength (f.map RemyCC.note).sender.congctrl
      (f.map RemyCC.note).sender.seqNum (f.map RemyCC.note).sent := by
    refine ⟨hseq.ge, ?_, List.nodup_nil, ?_, fun p hp => absurd hp List.not_mem_nil, ?_⟩
    · intro h hh
      exact absurd (hsent ▸ hh) List.not_mem_nil
    · intro k t hk
      exact absurd ((hfresh k).symm.trans hk) (Option.some_ne_none t).symm
    · intro k hk hk0 _
      exact absurd (hk.trans_eq hseq) (not_lt.mpr (mul_nonneg hk0 (by omega)))
  have honce := run_invariant (flowStep (remy ops.noting trainingLinkRate) c)
    (fun g => TrainsOnce c.trainLength g.sender.congctrl g.sender.seqNum g.sent)
    (fun _ _ _ h hstep => trainsOnce_flowStep (zero_lt_one.trans_le hpos) h hstep) hfirst hg
  refine ⟨g, hg, rfl, honce.nodup, honce.handed, fun k hk hlt => ⟨honce.all k hlt hk, ?_⟩⟩
  intro hmem
  cases hflight : g.sender.congctrl.unacknowledgedPackets k with
  | none => exact hflight
  | some t => exact absurd hmem (honce.inFlight k t hflight).1

def remyBatchFlow : Flow (RemyCC RemyRat) where
  sender := ⟨remyCC (remyRat .root), 0, -1, 0, 0, 0, 0, 0, 0, handshakeHeader, .head⟩
  receiver := .batch ⟨handshakeHeader, []⟩
  toReceiver := []
  toSender := []
  sent := []
  control := []
  accepted := []

/-- Five windows of packets, and the echo of the first one, twice. -/
def echoedTwice : List FlowAction :=
  .sender (.enter 1) :: List.replicate 10 (.sender (.transmit 100)) ++
    [.sender (.stopTransmitting 110 2), .batch (.receive firstPacket),
      .batch (.endBatch (fun _ => 3) 200), .sender (.receive firstEcho 4), .sender (.enter 5),
      .sender (.stopTransmitting 120 6), .sender (.receive firstEcho 7)]

theorem remy_flow_trains_once_echo :
    ∃ f', run (flowStep (remy RemyRat.ops (8000/3)) secondFlow) remyBatchFlow echoedTwice =
        some f' ∧
      ∃ g, run (flowStep (remy RemyRat.ops.noting (8000/3)) secondFlow)
          (remyBatchFlow.map RemyCC.note) echoedTwice = some g ∧
        g.map RemyCC.forget = f' ∧
        (g.sender.congctrl.noted.map Packet.seqNum).Nodup ∧
        (∀ p ∈ g.sender.congctrl.noted, ∃ h ∈ f'.sent,
          h.seqNum = p.seqNum*secondFlow.trainLength ∧ h.senderTimestamp = p.tickSent) ∧
        ∀ k, 0 ≤ k → k*secondFlow.trainLength < f'.sender.seqNum →
          (f'.sender.congctrl.unacknowledgedPackets k = none ↔
            k ∈ g.sender.congctrl.noted.map Packet.seqNum) := by
  have hrun := (Option.some_get (x := run (flowStep (remy RemyRat.ops (8000/3)) secondFlow)
    remyBatchFlow echoedTwice) (by decide +kernel)).symm
  exact ⟨_, hrun, remy_flow_trains_once le_rfl rfl rfl (fun _ => rfl) hrun⟩

end CopaNgscope
