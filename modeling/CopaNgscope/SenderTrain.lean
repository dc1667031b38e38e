import CopaNgscope.MarkovianCCAccounting
import CopaNgscope.RemyCC

/-! The number of a train on its way from `CTCP::send_data` to the controllers and back: what
`onPktSent` records for the first packet, and what `onACK` looks for when its echo comes. -/
namespace CopaNgscope

/-! ### The numbers -/

theorem sentTrain_of_dvd {trainLength k : ℤ} (hpos : 0 < trainLength) :
    sentTrain trainLength (k*trainLength) = some k := by
  rw [sentTrain, if_pos (Int.mul_tmod_left k trainLength), Int.mul_tdiv_cancel _ hpos.ne']

/-- The ACK of a first packet. The division drops the increment, unless a train is one packet. -/
theorem ackCall_of_dvd {srcId flowId trainLength k : ℤ} {echo : TCPHeader}
    (hpos : 0 < trainLength) (hk : 0 ≤ k) (hseq : echo.seqNum = k*trainLength)
    (hsrc : echo.srcId = srcId) (hflow : echo.flowId = flowId) :
    ackCall srcId flowId trainLength echo = some {
      ack := if trainLength = 1 then k+1 else k
      receiverTimestamp := echo.receiverTimestamp
      sentTime := echo.senderTimestamp
      adjustUs := echo.adjustUs } := by
  have hids : ¬ (echo.srcId ≠ srcId ∨ echo.flowId ≠ flowId) := by
    rw [hsrc, hflow]
    simp
  have hhead : Int.tmod (echo.seqNum+1-1) trainLength = 0 := by
    rw [add_sub_cancel_right, hseq]
    exact Int.mul_tmod_left k trainLength
  have hack : Int.tdiv (echo.seqNum+1) trainLength = if trainLength = 1 then k+1 else k := by
    rw [hseq]
    split_ifs with hone
    · rw [hone, mul_one, Int.tdiv_one]
    · have hnonneg : 0 ≤ k*trainLength+1 := add_nonneg (mul_nonneg hk hpos.le) zero_le_one
      rw [Int.tdiv_eq_ediv_of_nonneg hnonneg, add_comm,
        Int.add_mul_ediv_right 1 k hpos.ne', Int.ediv_eq_zero_of_lt zero_le_one (by omega),
        zero_add]
  unfold ackCall
  simp only [if_neg hids, if_pos hhead, hack]

/-! ### The controllers -/

theorem MarkovianCC.mem_keys_onPktSent (q : MarkovianCC) (seqNum : ℤ) :
    seqNum ∈ (q.onPktSent seqNum).unacknowledgedPackets.keys := by
  obtain ⟨e, i, v, h⟩ := onPktSent_frame q seqNum
  rw [h]
  exact (OrderedMap.mem_keys_insert _ _ _ _).mpr (Or.inl rfl)

section
variable {ρ : Type*} (ops : RatOps ρ) (trainingLinkRate : ℚ)

/-- Both controllers record the train when its first packet is sent. -/
structure RecordsTrain (ρ : Type*) (train : ℤ) : Prop where
  markovianCC : ∀ q : MarkovianCC, train ∈ (q.onPktSent train).unacknowledgedPackets.keys
  remyCC : ∀ q : RemyCC ρ, (q.onPktSent train).unacknowledgedPackets train = some q.curTick

/-- Both controllers take the ACK for the one of the train: it takes the train and those before
it out of flight in the one, and is handled with the train's sending time in the other. -/
structure AcksTrain (call : AckCall) (train : ℤ) : Prop where
  seqNum_eq : call.ack-1 = train
  markovianCC : ∀ q u : MarkovianCC, q.onACK call.ack call.sentTime call.adjustUs = .ok u →
    u.unacknowledgedPackets =
      if train ∈ q.unacknowledgedPackets.keys then q.unacknowledgedPackets.eraseLE train
      else q.unacknowledgedPackets
  remyCC : ∀ (q : RemyCC ρ) sentTime, q.unacknowledgedPackets train = some sentTime →
    q.onACK ops trainingLinkRate call.ack call.receiverTimestamp =
      q.ackPacket ops trainingLinkRate train sentTime call.receiverTimestamp

/-- The train recorded for a packet is the one its echo acknowledges. -/
def TrainMatches (srcId flowId trainLength : ℤ) (echo : TCPHeader) : Prop :=
  ∃ train call, sentTrain trainLength echo.seqNum = some train ∧ RecordsTrain ρ train ∧
    ackCall srcId flowId trainLength echo = some call ∧
    AcksTrain ops trainingLinkRate call train

theorem recordsTrain (train : ℤ) : RecordsTrain ρ train :=
  ⟨fun q => q.mem_keys_onPktSent train, fun q => q.onPktSent_self train⟩

theorem acksTrain_iff (call : AckCall) (train : ℤ) :
    AcksTrain ops trainingLinkRate call train ↔ call.ack-1 = train := by
  refine ⟨AcksTrain.seqNum_eq, fun heq => ⟨heq, fun q u hu => ?_, fun q sentTime hsent => ?_⟩⟩
  · rw [← heq]
    exact MarkovianCC.unacknowledgedPackets_onACK hu
  · rw [← heq] at hsent ⊢
    exact q.onACK_of_some ops trainingLinkRate hsent _

/-- For the first packet of a train the two numbers agree exactly when trains are single packets:
longer ones are taken for the train before. -/
theorem train_matches_iff {srcId flowId trainLength : ℤ} {echo : TCPHeader}
    (hpos : 1 ≤ trainLength) (hnonneg : 0 ≤ echo.seqNum) (hhead : echo.seqNum%trainLength = 0)
    (hsrc : echo.srcId = srcId) (hflow : echo.flowId = flowId) :
    TrainMatches ops trainingLinkRate srcId flowId trainLength echo ↔ trainLength = 1 := by
  obtain ⟨k, hk⟩ := Int.dvd_of_emod_eq_zero hhead
  rw [mul_comm] at hk
  have hk0 : 0 ≤ k := by
    by_contra hneg
    have hlt : k*trainLength < 0 := mul_neg_of_neg_of_pos (not_le.mp hneg) (by omega)
    omega
  have hsent : sentTrain trainLength echo.seqNum = some k := by
    rw [hk]
    exact sentTrain_of_dvd (by omega)
  have hcall := ackCall_of_dvd (by omega : 0 < trainLength) hk0 hk hsrc hflow
  constructor
  · rintro ⟨train, call, htrain, _, hack, hmatch⟩
    rw [hsent] at htrain
    rw [hcall] at hack
    cases htrain
    cases hack
    have hseq := hmatch.seqNum_eq
    by_contra hne
    simp only [if_neg hne] at hseq
    omega
  · intro hone
    refine ⟨k, _, hsent, recordsTrain k, hcall, (acksTrain_iff ops trainingLinkRate _ k).mpr ?_⟩
    simp only [if_pos hone]
    omega

end

/-- A `Rat` that stays as it is. -/
def constantRat : RatOps Unit where
  packetsReceived := fun r _ _ => some r
  reset := fun r _ => some r
  curWindowSize := fun _ => 2
  curIntersendTime := fun _ => 0

/-- The echo of the packet `seqNum` of a flow. -/
def echoOf (seqNum flowId srcId : ℤ) : TCPHeader := ⟨seqNum, flowId, srcId, 10, 0, 12, 0⟩

theorem train_matches_single : TrainMatches constantRat 1 7 0 1 (echoOf 5 0 7) :=
  (train_matches_iff constantRat 1 le_rfl (by decide) (by decide) rfl rfl).mpr rfl

/-- With two packets a train the echo of packet 0 is taken for train -1. -/
theorem train_of_two_mismatch :
    ¬ ∀ (srcId flowId trainLength : ℤ) (echo : TCPHeader), 1 ≤ trainLength → 0 ≤ echo.seqNum →
      echo.seqNum%trainLength = 0 → echo.srcId = srcId → echo.flowId = flowId →
      TrainMatches constantRat 1 srcId flowId trainLength echo := by
  intro hall
  obtain ⟨train, call, htrain, _, hack, hmatch⟩ :=
    hall 7 0 2 (echoOf 0 0 7) (by decide) (by decide) (by decide) rfl rfl
  have hseq := hmatch.seqNum_eq
  have htrain0 : some train = some 0 := htrain.symm
  have hack0 : some call = some ⟨0, 12, 10, 0⟩ := hack.symm
  cases htrain0
  cases hack0
  exact absurd hseq (by decide)

end CopaNgscope
