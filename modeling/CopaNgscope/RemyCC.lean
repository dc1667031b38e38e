import Mathlib.Data.Rat.Defs
import Mathlib.Logic.Function.Basic

/-! RemyCC as `remycc.hh` and `remycc.cc` run it: the packets in flight and the callbacks. The
`Rat`, which learned when to send, is a parameter. -/
namespace CopaNgscope

/-- `Packet`, as `RemyCC::onACK` fills it. -/
structure Packet where
  src : ℕ
  flowId : ℤ
  tickSent : ℚ
  tickReceived : ℚ
  receiverTimestamp : ℚ
  seqNum : ℤ
deriving DecidableEq

/-- The members of `Rat` that `RemyCC` calls; `none` is a failed assertion. -/
structure RatOps (ρ : Type*) where
  packetsReceived : ρ → List Packet → ℚ → Option ρ
  reset : ρ → ℚ → Option ρ
  curWindowSize : ρ → ℤ
  curIntersendTime : ρ → ℚ

/-- The first two fields are those of `CCC`. -/
structure RemyCC (ρ : Type*) where
  intersendTime : ℚ
  theWindow : ℚ
  rat : ρ
  unacknowledgedPackets : ℤ → Option ℚ
  flowId : ℤ
  curTick : ℚ
  measuredLinkRate : ℚ

/-- The constructor. -/
def remyCC {ρ : Type*} (rat : ρ) : RemyCC ρ where
  intersendTime := 0
  theWindow := 2
  rat := rat
  unacknowledgedPackets := fun _ => none
  flowId := 0
  curTick := 0
  measuredLinkRate := -1

namespace RemyCC

variable {ρ : Type*} (ops : RatOps ρ) (trainingLinkRate : ℚ)

/-- The packets in flight are not forgotten. -/
def init (q : RemyCC ρ) : Option (RemyCC ρ) :=
  (ops.reset q.rat q.curTick).map fun rat =>
    { q with flowId := 0, rat := rat, theWindow := 2, intersendTime := 0 }

/-- What `onACK` does for a packet in flight, which was sent at `sentTime`. -/
def ackPacket (q : RemyCC ρ) (seqNum : ℤ) (sentTime receiverTimestamp : ℚ) :
    Option (RemyCC ρ) :=
  let p : Packet := ⟨0, q.flowId, sentTime, q.curTick, receiverTimestamp, seqNum⟩
  let q := { q with
    unacknowledgedPackets := Function.update q.unacknowledgedPackets seqNum none }
  if 0 < q.measuredLinkRate then
    (ops.packetsReceived q.rat [p] (1*trainingLinkRate/q.measuredLinkRate)).map fun rat =>
      { q with
        rat := rat
        theWindow := ops.curWindowSize rat*q.measuredLinkRate/trainingLinkRate
        intersendTime := ops.curIntersendTime rat*trainingLinkRate/q.measuredLinkRate }
  else
    (ops.packetsReceived q.rat [p] 1).map fun rat =>
      { q with
        rat := rat
        theWindow := ops.curWindowSize rat
        intersendTime := ops.curIntersendTime rat }

/-- An unknown ACK is only reported. No packet is in flight twice. -/
def onACK (q : RemyCC ρ) (ack : ℤ) (receiverTimestamp : ℚ) : Option (RemyCC ρ) :=
  let seqNum := ack-1
  match q.unacknowledgedPackets seqNum with
  | none => some q
  | some sentTime => q.ackPacket ops trainingLinkRate seqNum sentTime receiverTimestamp

def onLinkRateMeasurement (q : RemyCC ρ) (measuredLinkRate : ℚ) : RemyCC ρ :=
  { q with measuredLinkRate := measuredLinkRate }

def onPktSent (q : RemyCC ρ) (seqNum : ℤ) : RemyCC ρ :=
  { q with
    unacknowledgedPackets := Function.update q.unacknowledgedPackets seqNum (some q.curTick) }

def setTimestamp (q : RemyCC ρ) (curTick : ℚ) : RemyCC ρ := { q with curTick := curTick }

/-- A packet that is sent is in flight. -/
theorem onPktSent_self (q : RemyCC ρ) (seqNum : ℤ) :
    (q.onPktSent seqNum).unacknowledgedPackets seqNum = some q.curTick :=
  Function.update_self _ _ _

theorem onACK_of_some {q : RemyCC ρ} {ack : ℤ} {sentTime : ℚ}
    (h : q.unacknowledgedPackets (ack-1) = some sentTime) (receiverTimestamp : ℚ) :
    q.onACK ops trainingLinkRate ack receiverTimestamp =
      q.ackPacket ops trainingLinkRate (ack-1) sentTime receiverTimestamp := by
  rw [onACK]
  simp only [h]

end RemyCC

end CopaNgscope
