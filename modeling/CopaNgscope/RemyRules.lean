import Mathlib.Tactic.FieldSimp
import CopaNgscope.RunInvariant
import CopaNgscope.WhiskerTree

/-! `RemyCC` with its `Rat`, as `rat.hh` and `rat.cc` run it: which ACKs find a rule. -/
namespace CopaNgscope
open RunInvariant MemoryRange WhiskerTree

/-- The class `Rat`. -/
structure RemyRat where
  whiskers : WhiskerTree
  memory : Memory
  packetsSent : ℤ
  packetsReceived : ℤ
  lastSendTime : ℚ
  theWindow : ℤ
  intersendTime : ℚ
  flowId : UInt32
  largestAck : ℤ

/-- The constructor. -/
def remyRat (whiskers : WhiskerTree) : RemyRat := ⟨whiskers, memory, 0, 0, 0, 0, 0, 0, -1⟩

namespace RemyRat

/-- `none` is a failed assertion, or the end of the process without a whisker. -/
def packetsReceivedBy (q : RemyRat) (packets : List Packet) (linkRateNormalizingFactor : ℚ) :
    Option RemyRat :=
  let flowId := (packets.map Packet.flowId).getLastD (-1)
  if packets = [] ∨ flowId = -1 then none
  else
    (q.memory.packetsReceived packets flowId linkRateNormalizingFactor).bind fun memory =>
      (q.whiskers.useWhisker memory).map fun w =>
        { q with
          memory := memory
          packetsReceived := q.packetsReceived+packets.length
          theWindow := w.window q.theWindow
          intersendTime := w.intersend
          largestAck := packets.foldl (fun a p => max p.seqNum a) q.largestAck }

/-- A new flow. -/
def reset (q : RemyRat) : Option RemyRat :=
  if q.flowId+1 = 0 then none
  else some { q with
    memory := q.memory.reset
    lastSendTime := 0
    theWindow := 0
    intersendTime := 0
    flowId := q.flowId+1
    largestAck := q.packetsSent-1 }

def ops : RatOps RemyRat :=
  ⟨packetsReceivedBy, fun q _ => q.reset, RemyRat.theWindow, RemyRat.intersendTime⟩

end RemyRat

namespace RemyCC

inductive Callback
  | init
  | setTimestamp (now : ℚ)
  | onPktSent (seqNum : ℤ)
  | onACK (ack : ℤ) (receiverTimestamp : ℚ)
  | onLinkRateMeasurement (measuredLinkRate : ℚ)

section
variable (trainingLinkRate : ℚ)

def step (q : RemyCC RemyRat) : Callback → Option (RemyCC RemyRat)
  | .init => q.init RemyRat.ops
  | .setTimestamp now => some (q.setTimestamp now)
  | .onPktSent seqNum => some (q.onPktSent seqNum)
  | .onACK ack receiverTimestamp => q.onACK RemyRat.ops trainingLinkRate ack receiverTimestamp
  | .onLinkRateMeasurement measuredLinkRate => some (q.onLinkRateMeasurement measuredLinkRate)

/-- The factor that an ACK is scaled with. -/
def normalizingFactor (q : RemyCC RemyRat) : ℚ :=
  if 0 < q.measuredLinkRate then 1*trainingLinkRate/q.measuredLinkRate else 1

/-- The packet that an ACK hands to the `Rat`. -/
def ackedPacket (q : RemyCC RemyRat) : Callback → Option Packet
  | .onACK ack receiverTimestamp => (q.unacknowledgedPackets (ack-1)).map fun sentTime =>
    ⟨0, q.flowId, sentTime, q.curTick, receiverTimestamp, ack-1⟩
  | _ => none

/-- The packets of a run, up to a step that fails. -/
def ackedPackets (q : RemyCC RemyRat) : List Callback → List Packet
  | [] => []
  | c :: cs => (q.ackedPacket c).toList ++
    match step trainingLinkRate q c with
    | some u => u.ackedPackets cs
    | none => []

/-- Positive RTTs, and nondecreasing send and receiver timestamps. -/
structure Orderly (ps : List Packet) : Prop where
  rtt : ∀ p ∈ ps, p.tickSent < p.tickReceived
  times : ps.Pairwise
    (fun p p' => p.tickSent ≤ p'.tickSent ∧ p.receiverTimestamp ≤ p'.receiverTimestamp)

/-- The memory after an ACK is in the root domain, and there is a rule for it. -/
def FindsRule (q : RemyCC RemyRat) (c : Callback) : Prop :=
  ∀ p, q.ackedPacket c = some p → ∃ m w,
    q.rat.memory.packetsReceived [p] p.flowId (q.normalizingFactor trainingLinkRate) = some m ∧
      Contains ⟨memory, maxMemory⟩ m ∧ q.rat.whiskers.useWhisker m = some w

end

end RemyCC

/-! ### One ACK -/

namespace Memory

/-- There was a packet since the last reset. -/
def Started (m : Memory) : Prop := m.lastTickSent ≠ 0 ∧ m.lastTickReceived ≠ 0

instance (m : Memory) : Decidable m.Started := inferInstanceAs (Decidable (_ ∧ _))

/-- The RTT is not too large for the least one, and no average grows too large. -/
def Fits (m : Memory) (p : Packet) (factor : ℚ) : Prop :=
  m.Started →
    p.tickReceived-p.tickSent < 163840*min m.minRtt (p.tickReceived-p.tickSent) ∧
    (p.seqNum-1 = m.largestAck →
      (1-1/8)*m.recSendEwma+1/8*(p.tickSent-m.lastTickSent)*factor < 163840 ∧
      (1-1/8)*m.recRecEwma+1/8*(p.receiverTimestamp-m.lastReceiverTimestamp)*factor < 163840 ∧
      (1-1/256)*m.slowRecRecEwma+1/256*(p.receiverTimestamp-m.lastReceiverTimestamp)*factor <
        163840)

instance (m : Memory) (p : Packet) (factor : ℚ) : Decidable (m.Fits p factor) :=
  inferInstanceAs (Decidable (_ → _ ∧ (_ → _ ∧ _ ∧ _)))

/-- What holds of the memory between ACKs. -/
structure Valid (m : Memory) : Prop where
  inside : Contains ⟨memory, maxMemory⟩ m
  minRtt : m.Started → 0 < m.minRtt

/-- The packet is no older than the last one that was averaged. -/
def NotAfter (m : Memory) (p : Packet) : Prop :=
  m.Started → m.lastTickSent ≤ p.tickSent ∧ m.lastReceiverTimestamp ≤ p.receiverTimestamp

theorem contains_root_iff (m : Memory) : Contains ⟨memory, maxMemory⟩ m ↔
    (0 ≤ m.recSendEwma ∧ m.recSendEwma < 163840) ∧ (0 ≤ m.recRecEwma ∧ m.recRecEwma < 163840) ∧
      (0 ≤ m.rttRatio ∧ m.rttRatio < 163840) ∧
      (0 ≤ m.slowRecRecEwma ∧ m.slowRecRecEwma < 163840) :=
  MemoryRange.contains_iff ⟨memory, maxMemory⟩ m

theorem valid_of_not_started {m : Memory} (h : Contains ⟨memory, maxMemory⟩ m)
    (hstart : ¬ m.Started) : m.Valid := ⟨h, fun hs => absurd hs hstart⟩

theorem packetsReceived_singleton (m : Memory) (p : Packet) (flowId : ℤ) (factor : ℚ) :
    m.packetsReceived [p] flowId factor = m.packetReceived flowId factor p := by
  rw [packetsReceived, List.foldlM_cons]
  simp

/-- The average of a value and a scaled gap. -/
theorem ewma_nonneg {e gap factor a : ℚ} (he : 0 ≤ e) (hgap : 0 ≤ gap) (hfactor : 0 < factor)
    (ha : 0 ≤ a) (ha1 : a ≤ 1) : 0 ≤ (1-a)*e+a*gap*factor :=
  add_nonneg (mul_nonneg (sub_nonneg.mpr ha1) he)
    (mul_nonneg (mul_nonneg ha hgap) hfactor.le)

/-- The memory with its averages after a packet. A gap in the sequence leaves them. -/
def averaged (m : Memory) (factor : ℚ) (p : Packet) : Memory :=
  if p.seqNum-1 = m.largestAck then
    { m with
      recSendEwma := (1-1/8)*m.recSendEwma+1/8*(p.tickSent-m.lastTickSent)*factor
      recRecEwma := (1-1/8)*m.recRecEwma+1/8*(p.receiverTimestamp-m.lastReceiverTimestamp)*factor
      slowRecRecEwma := (1-1/256)*m.slowRecRecEwma+
        1/256*(p.receiverTimestamp-m.lastReceiverTimestamp)*factor
      lastTickSent := p.tickSent
      lastTickReceived := p.tickReceived
      lastReceiverTimestamp := p.receiverTimestamp }
  else m

@[simp] theorem averaged_minRtt (m : Memory) (factor : ℚ) (p : Packet) :
    (m.averaged factor p).minRtt = m.minRtt := by
  unfold averaged
  split_ifs <;> rfl

/-- The averages stay in the root domain if and only if they do not grow out of it. -/
theorem averaged_inside_iff {m : Memory} {p : Packet} {factor : ℚ}
    (hinside : Contains ⟨memory, maxMemory⟩ m) (hfactor : 0 < factor)
    (hsent : m.lastTickSent ≤ p.tickSent)
    (hrecv : m.lastReceiverTimestamp ≤ p.receiverTimestamp) (ratio : ℚ) :
    Contains ⟨memory, maxMemory⟩ { m.averaged factor p with rttRatio := ratio } ↔
      (0 ≤ ratio ∧ ratio < 163840) ∧ (p.seqNum-1 = m.largestAck →
        (1-1/8)*m.recSendEwma+1/8*(p.tickSent-m.lastTickSent)*factor < 163840 ∧
        (1-1/8)*m.recRecEwma+1/8*(p.receiverTimestamp-m.lastReceiverTimestamp)*factor < 163840 ∧
        (1-1/256)*m.slowRecRecEwma+
          1/256*(p.receiverTimestamp-m.lastReceiverTimestamp)*factor < 163840) := by
  obtain ⟨⟨h0, k0⟩, ⟨h1, k1⟩, _, h3, k3⟩ := (contains_root_iff m).mp hinside
  rw [contains_root_iff, averaged]
  by_cases hnext : p.seqNum-1 = m.largestAck
  · rw [if_pos hnext]
    have hsend := ewma_nonneg (a := 1/8) h0 (sub_nonneg.mpr hsent) hfactor (by norm_num)
      (by norm_num)
    have hrec := ewma_nonneg (a := 1/8) h1 (sub_nonneg.mpr hrecv) hfactor (by norm_num)
      (by norm_num)
    have hslow := ewma_nonneg (a := 1/256) h3 (sub_nonneg.mpr hrecv) hfactor (by norm_num)
      (by norm_num)
    constructor
    · rintro ⟨⟨_, b0⟩, ⟨_, b1⟩, hratio, _, b3⟩
      exact ⟨hratio, fun _ => ⟨b0, b1, b3⟩⟩
    · rintro ⟨hratio, hewma⟩
      obtain ⟨b0, b1, b3⟩ := hewma hnext
      exact ⟨⟨hsend, b0⟩, ⟨hrec, b1⟩, hratio, hslow, b3⟩
  · rw [if_neg hnext]
    constructor
    · rintro ⟨_, _, hratio, _⟩
      exact ⟨hratio, fun h => absurd h hnext⟩
    · rintro ⟨hratio, _⟩
      exact ⟨⟨h0, k0⟩, ⟨h1, k1⟩, hratio, h3, k3⟩

theorem packetReceived_of_not_started {m : Memory} {p : Packet} (hstart : ¬ m.Started)
    (factor : ℚ) :
    m.packetReceived p.flowId factor p = some { m with
      lastTickSent := p.tickSent
      lastTickReceived := p.tickReceived
      lastReceiverTimestamp := p.receiverTimestamp
      minRtt := p.tickReceived-p.tickSent
      rttEstimate := p.tickReceived-p.tickSent
      largestAck := max m.largestAck p.seqNum } := by
  have hcond : m.lastTickSent = 0 ∨ m.lastTickReceived = 0 := by
    by_contra h
    exact hstart (not_or.mp h)
  rw [packetReceived, if_neg (not_not.mpr rfl)]
  extract_lets rtt averages minRtt r
  have hr : r = some { m with
      lastTickSent := p.tickSent
      lastTickReceived := p.tickReceived
      lastReceiverTimestamp := p.receiverTimestamp
      minRtt := rtt
      rttEstimate := rtt } := if_pos hcond
  rw [hr]
  rfl

theorem packetReceived_of_started {m : Memory} {p : Packet} (hstart : m.Started)
    (hmin : 0 < min m.minRtt (p.tickReceived-p.tickSent)) (factor : ℚ) :
    ∃ estimate, m.packetReceived p.flowId factor p = some { m.averaged factor p with
      rttRatio := (p.tickReceived-p.tickSent)/min m.minRtt (p.tickReceived-p.tickSent)
      minRtt := min m.minRtt (p.tickReceived-p.tickSent)
      rttEstimate := estimate
      largestAck := max (m.averaged factor p).largestAck p.seqNum } := by
  have hcond : ¬ (m.lastTickSent = 0 ∨ m.lastTickReceived = 0) := not_or.mpr hstart
  -- the ratio is at least 1, as the least RTT is updated first
  have hratio : ¬ (p.tickReceived-p.tickSent)/min m.minRtt (p.tickReceived-p.tickSent) < 1 := by
    rw [not_lt, le_div_iff₀ hmin, one_mul]
    exact min_le_right _ _
  rw [packetReceived, if_neg (not_not.mpr rfl)]
  extract_lets rtt averages minRtt r
  have hminRtt : minRtt = min m.minRtt rtt :=
    congrArg (fun v => min v rtt) (averaged_minRtt m factor p)
  have hr : r = if rtt/minRtt < 1 then none else some { averages with
      minRtt := minRtt
      rttRatio := rtt/minRtt
      rttEstimate := (1-1/8)*averages.rttEstimate+1/8*rtt } := if_neg hcond
  rw [hr, hminRtt, if_neg hratio]
  exact ⟨_, rfl⟩

/-- An ACK keeps the memory in the root domain if and only if it fits. -/
theorem packetReceived_spec {m : Memory} {p : Packet} {factor : ℚ} (hvalid : m.Valid)
    (hrtt : p.tickSent < p.tickReceived) (hnot : m.NotAfter p) (hfactor : 0 < factor) :
    ∃ m', m.packetReceived p.flowId factor p = some m' ∧
      (Contains ⟨memory, maxMemory⟩ m' ↔ m.Fits p factor) ∧ 0 < m'.minRtt ∧
      ((m'.lastTickSent = p.tickSent ∧ m'.lastReceiverTimestamp = p.receiverTimestamp) ∨
        (m.Started ∧ m'.lastTickSent = m.lastTickSent ∧
          m'.lastReceiverTimestamp = m.lastReceiverTimestamp)) := by
  have hrtt' : 0 < p.tickReceived-p.tickSent := sub_pos.mpr hrtt
  by_cases hstart : m.Started
  · have hmin : 0 < min m.minRtt (p.tickReceived-p.tickSent) :=
      lt_min (hvalid.minRtt hstart) hrtt'
    obtain ⟨estimate, hreceived⟩ := packetReceived_of_started hstart hmin factor
    obtain ⟨hsent, hrecv⟩ := hnot hstart
    refine ⟨_, hreceived, ?_, hmin, ?_⟩
    · -- the other fields do not count for the domain
      have hinside := averaged_inside_iff hvalid.inside hfactor hsent hrecv
        ((p.tickReceived-p.tickSent)/min m.minRtt (p.tickReceived-p.tickSent))
      refine hinside.trans ?_
      rw [div_lt_iff₀ hmin, and_iff_right (div_nonneg hrtt'.le hmin.le)]
      exact ⟨fun h _ => h, fun h => h hstart⟩
    · dsimp only
      unfold averaged
      split_ifs
      · exact Or.inl ⟨rfl, rfl⟩
      · exact Or.inr ⟨hstart, rfl, rfl⟩
  · refine ⟨_, packetReceived_of_not_started hstart factor, ?_, hrtt', Or.inl ⟨rfl, rfl⟩⟩
    exact iff_of_true hvalid.inside (fun hs => absurd hs hstart)

end Memory

/-! ### Runs -/

namespace RemyCC

section
variable {trainingLinkRate : ℚ} {q u : RemyCC RemyRat} {c : Callback} {p : Packet}

theorem packetsReceivedBy_eq_some {r r' : RemyRat} {factor : ℚ}
    (h : r.packetsReceivedBy [p] factor = some r') :
    ∃ m w, r.memory.packetsReceived [p] p.flowId factor = some m ∧
      r.whiskers.useWhisker m = some w ∧ r'.memory = m ∧ r'.whiskers = r.whiskers := by
  unfold RemyRat.packetsReceivedBy at h
  extract_lets flowId at h
  by_cases hnone : [p] = [] ∨ flowId = -1
  · rw [if_pos hnone] at h
    cases h
  · rw [if_neg hnone] at h
    obtain ⟨m, hm, hwhisker⟩ := Option.bind_eq_some_iff.mp h
    obtain ⟨w, hw, rfl⟩ := Option.map_eq_some_iff.mp hwhisker
    exact ⟨m, w, hm, hw, rfl, rfl⟩

/-- An ACK of a packet in flight goes to the `Rat`. -/
theorem rat_of_ackedPacket (hp : q.ackedPacket c = some p)
    (h : step trainingLinkRate q c = some u) :
    q.rat.packetsReceivedBy [p] (q.normalizingFactor trainingLinkRate) = some u.rat := by
  cases c with
  | onACK ack receiverTimestamp =>
    obtain ⟨sentTime, hsent, rfl⟩ := Option.map_eq_some_iff.mp hp
    rw [step, onACK_of_some _ _ hsent, ackPacket] at h
    rw [normalizingFactor]
    dsimp only at h
    split_ifs at h with hrate
    · obtain ⟨rat, hrat, rfl⟩ := Option.map_eq_some_iff.mp h
      rw [if_pos hrate]
      exact hrat
    · obtain ⟨rat, hrat, rfl⟩ := Option.map_eq_some_iff.mp h
      rw [if_neg hrate]
      exact hrat
  | init => cases hp
  | setTimestamp now => cases hp
  | onPktSent seqNum => cases hp
  | onLinkRateMeasurement measuredLinkRate => cases hp

/-- Any other step leaves the `Rat`, or starts a new flow with an empty memory. -/
theorem rat_of_ackedPacket_none (hp : q.ackedPacket c = none)
    (h : step trainingLinkRate q c = some u) :
    u.rat.whiskers = q.rat.whiskers ∧
      (u.rat.memory = q.rat.memory ∨ u.rat.memory = q.rat.memory.reset) := by
  cases c with
  | init =>
    -- the flow identifier may wrap to 0, which is an assertion
    obtain ⟨rat, hrat, rfl⟩ := Option.map_eq_some_iff.mp h
    change q.rat.reset = some rat at hrat
    unfold RemyRat.reset at hrat
    split_ifs at hrat
    cases hrat
    exact ⟨rfl, Or.inr rfl⟩
  | onACK ack receiverTimestamp =>
    rw [ackedPacket, Option.map_eq_none_iff] at hp
    rw [step, onACK] at h
    simp only [hp] at h
    cases h
    exact ⟨rfl, Or.inl rfl⟩
  | setTimestamp now => cases h; exact ⟨rfl, Or.inl rfl⟩
  | onPktSent seqNum => cases h; exact ⟨rfl, Or.inl rfl⟩
  | onLinkRateMeasurement measuredLinkRate => cases h; exact ⟨rfl, Or.inl rfl⟩

theorem normalizingFactor_pos (htraining : 0 < trainingLinkRate) (q : RemyCC RemyRat) :
    0 < q.normalizingFactor trainingLinkRate := by
  unfold normalizingFactor
  split_ifs with hrate
  · exact div_pos (mul_pos one_pos htraining) hrate
  · exact one_pos

theorem valid_reset (m : Memory) : m.reset.Valid ∧ ¬ m.reset.Started := by
  have hstart : ¬ m.reset.Started := fun h => h.1 rfl
  refine ⟨Memory.valid_of_not_started ?_ hstart, hstart⟩
  rw [Memory.contains_root_iff]
  have h0 : (0:ℚ) ≤ 0 ∧ (0:ℚ) < 163840 := by norm_num
  exact ⟨h0, h0, h0, h0⟩

/-- The leaves of the rules partition the root domain. -/
def RootTiled (q : RemyCC RemyRat) : Prop :=
  q.rat.whiskers.Tiled ∧ q.rat.whiskers.domain = ⟨memory, maxMemory⟩

/-- The RTT and the averages of the ACK stay below the upper bound. -/
def Fits (trainingLinkRate : ℚ) (q : RemyCC RemyRat) (c : Callback) : Prop :=
  ∀ p, q.ackedPacket c = some p → q.rat.memory.Fits p (q.normalizingFactor trainingLinkRate)

theorem fits_iff_findsRule (htraining : 0 < trainingLinkRate) (htree : q.RootTiled)
    (hvalid : q.rat.memory.Valid)
    (hp : ∀ p, q.ackedPacket c = some p → p.tickSent < p.tickReceived ∧ q.rat.memory.NotAfter p) :
    q.Fits trainingLinkRate c ↔ q.FindsRule trainingLinkRate c := by
  refine forall₂_congr (fun p hpacket => ?_)
  obtain ⟨hrtt, hnot⟩ := hp p hpacket
  obtain ⟨m, hm, hiff, _⟩ := Memory.packetReceived_spec hvalid hrtt hnot
    (normalizingFactor_pos htraining q)
  rw [← hiff]
  constructor
  · intro hinside
    have hfinds := htree.1.finds m
    rw [WhiskerTree.Finds, htree.2, if_pos hinside] at hfinds
    obtain ⟨w, _, hw⟩ := hfinds
    refine ⟨m, w, ?_, hinside, ?_⟩
    · rw [Memory.packetsReceived_singleton]
      exact hm
    · rw [WhiskerTree.useWhisker, hw]
      rfl
  · rintro ⟨m', w, hm', hinside, _⟩
    rw [Memory.packetsReceived_singleton, hm] at hm'
    cases hm'
    exact hinside

/-- What the next step needs of the state. -/
theorem step_valid (htraining : 0 < trainingLinkRate) (htree : q.RootTiled)
    (hvalid : q.rat.memory.Valid)
    (hp : ∀ p, q.ackedPacket c = some p → p.tickSent < p.tickReceived ∧ q.rat.memory.NotAfter p)
    (hfinds : q.FindsRule trainingLinkRate c) (h : step trainingLinkRate q c = some u) :
    u.RootTiled ∧ u.rat.memory.Valid ∧
      ∀ p', q.rat.memory.NotAfter p' →
        (∀ p, q.ackedPacket c = some p →
          p.tickSent ≤ p'.tickSent ∧ p.receiverTimestamp ≤ p'.receiverTimestamp) →
        u.rat.memory.NotAfter p' := by
  cases hpacket : q.ackedPacket c with
  | none =>
    obtain ⟨hwhiskers, hmemory⟩ := rat_of_ackedPacket_none hpacket h
    refine ⟨⟨by rw [hwhiskers]; exact htree.1, by rw [hwhiskers]; exact htree.2⟩, ?_⟩
    rcases hmemory with heq | heq
    · rw [heq]
      exact ⟨hvalid, fun p' hnot _ => hnot⟩
    · rw [heq]
      obtain ⟨hreset, hstart⟩ := valid_reset q.rat.memory
      exact ⟨hreset, fun p' _ _ hs => absurd hs hstart⟩
  | some p =>
    obtain ⟨hrtt, hnot⟩ := hp p hpacket
    obtain ⟨m, w, hm, hw, hmemory, hwhiskers⟩ :=
      packetsReceivedBy_eq_some (rat_of_ackedPacket hpacket h)
    obtain ⟨m', _, hm', hinside, _⟩ := hfinds p hpacket
    rw [hm] at hm'
    cases hm'
    obtain ⟨m', hm', _, hmin, hlast⟩ := Memory.packetReceived_spec hvalid hrtt hnot
      (normalizingFactor_pos htraining q)
    rw [Memory.packetsReceived_singleton, hm'] at hm
    cases hm
    rw [hmemory, RootTiled, hwhiskers]
    refine ⟨htree, ⟨hinside, fun _ => hmin⟩, ?_⟩
    intro p' hnot' hlater _
    rcases hlast with ⟨hsent, hrecv⟩ | ⟨hstart, hsent, hrecv⟩
    · rw [hsent, hrecv]
      exact hlater p rfl
    · rw [hsent, hrecv]
      exact hnot' hstart

theorem ackedPackets_cons (h : step trainingLinkRate q c = some u) (cs : List Callback) :
    q.ackedPackets trainingLinkRate (c :: cs) =
      (q.ackedPacket c).toList ++ u.ackedPackets trainingLinkRate cs := by
  rw [ackedPackets, h]

theorem mem_ackedPackets_head (trainingLinkRate : ℚ) (hp : q.ackedPacket c = some p)
    (cs : List Callback) : p ∈ q.ackedPackets trainingLinkRate (c :: cs) := by
  rw [ackedPackets, hp]
  exact List.mem_append_left _ (List.mem_singleton.mpr rfl)

/-- A valid state before callbacks whose ACKs are in order, and not before what it has seen. -/
structure Ready (trainingLinkRate : ℚ) (q : RemyCC RemyRat) (cs : List Callback) : Prop where
  tree : q.RootTiled
  valid : q.rat.memory.Valid
  order : Orderly (q.ackedPackets trainingLinkRate cs)
  notAfter : ∀ p ∈ q.ackedPackets trainingLinkRate cs, q.rat.memory.NotAfter p

theorem Ready.head {cs : List Callback} (h : Ready trainingLinkRate q (c :: cs)) :
    ∀ p, q.ackedPacket c = some p → p.tickSent < p.tickReceived ∧ q.rat.memory.NotAfter p := by
  intro p hpacket
  have hmem := mem_ackedPackets_head trainingLinkRate hpacket cs
  exact ⟨h.order.rtt p hmem, h.notAfter p hmem⟩

/-- The packets of the rest stay in order and after this one. -/
theorem Ready.tail (htraining : 0 < trainingLinkRate) {cs : List Callback}
    (h : Ready trainingLinkRate q (c :: cs)) (hfits : q.Fits trainingLinkRate c)
    (hu : step trainingLinkRate q c = some u) : Ready trainingLinkRate u cs := by
  have hhead := h.head
  obtain ⟨htree, hvalid, horder, hnot⟩ := h
  obtain ⟨htree', hvalid', hlater⟩ := step_valid htraining htree hvalid hhead
    ((fits_iff_findsRule htraining htree hvalid hhead).mp hfits) hu
  rw [ackedPackets_cons hu] at horder hnot
  obtain ⟨_, htimes, hcross⟩ := List.pairwise_append.mp horder.times
  refine ⟨htree', hvalid', ⟨?_, htimes⟩, ?_⟩
  · exact fun p hp' => horder.rtt p (List.mem_append_right _ hp')
  · intro p' hp'
    refine hlater p' (hnot p' (List.mem_append_right _ hp')) ?_
    intro p hpacket
    exact hcross p (by rw [hpacket]; exact List.mem_singleton.mpr rfl) p' hp'

theorem Ready.run (htraining : 0 < trainingLinkRate) {before after : List Callback}
    (h : Ready trainingLinkRate q (before ++ after))
    (hfits : RunMeets (step trainingLinkRate) (Fits trainingLinkRate) q before)
    (hu : RunInvariant.run (step trainingLinkRate) q before = some u) :
    Ready trainingLinkRate u after := by
  induction before generalizing q with
  | nil =>
    cases hu
    exact h
  | cons c before ih =>
    obtain ⟨t, ht, hrest⟩ := Option.bind_eq_some_iff.mp hu
    exact ih (h.tail htraining hfits.1 ht) (hfits.2 t ht) hrest

/-- In an orderly run from a valid state the ACKs find rules as long as they fit. -/
theorem runMeets_fits_iff (htraining : 0 < trainingLinkRate) {cs : List Callback}
    (h : Ready trainingLinkRate q cs) :
    RunMeets (step trainingLinkRate) (FindsRule trainingLinkRate) q cs ↔
      RunMeets (step trainingLinkRate) (Fits trainingLinkRate) q cs := by
  induction cs generalizing q with
  | nil => exact Iff.rfl
  | cons c cs ih =>
    have hiff := fits_iff_findsRule htraining h.tree h.valid h.head
    refine (and_congr_left' hiff.symm).trans ?_
    refine and_congr_right (fun hfits => forall₂_congr (fun u hu => ?_))
    exact ih (h.tail htraining hfits hu)

/-- An ACK after which there is no rule for the memory. -/
def LacksRule (trainingLinkRate : ℚ) (q : RemyCC RemyRat) (c : Callback) : Prop :=
  ∃ p m, q.ackedPacket c = some p ∧
    q.rat.memory.packetsReceived [p] p.flowId (q.normalizingFactor trainingLinkRate) = some m ∧
    q.rat.whiskers.whisker m = some none

theorem lacksRule_of_not_fits (htraining : 0 < trainingLinkRate) {cs : List Callback}
    (h : Ready trainingLinkRate q (c :: cs)) (hfits : ¬ q.Fits trainingLinkRate c) :
    q.LacksRule trainingLinkRate c := by
  rw [Fits] at hfits
  push Not at hfits
  obtain ⟨p, hpacket, hlarge⟩ := hfits
  obtain ⟨hrtt, hnot⟩ := h.head p hpacket
  obtain ⟨m, hm, hiff, _⟩ := Memory.packetReceived_spec h.valid hrtt hnot
    (normalizingFactor_pos htraining q)
  have houtside : ¬ Contains ⟨memory, maxMemory⟩ m := fun hinside => hlarge (hiff.mp hinside)
  have hfinds := h.tree.1.finds m
  rw [WhiskerTree.Finds, h.tree.2, if_neg houtside] at hfinds
  refine ⟨p, m, hpacket, ?_, hfinds.2⟩
  rw [Memory.packetsReceived_singleton]
  exact hm

instance : DecidablePred (q.Fits trainingLinkRate) := fun c =>
  inferInstanceAs (Decidable (∀ p ∈ q.ackedPacket c,
    q.rat.memory.Fits p (q.normalizingFactor trainingLinkRate)))

theorem start_valid {whiskers : WhiskerTree} (htiled : whiskers.Tiled)
    (hroot : whiskers.domain = ⟨memory, maxMemory⟩) :
    (remyCC (remyRat whiskers)).RootTiled ∧ (remyCC (remyRat whiskers)).rat.memory.Valid ∧
      ¬ (remyCC (remyRat whiskers)).rat.memory.Started :=
  ⟨⟨htiled, hroot⟩, valid_reset memory⟩

theorem start_ready {whiskers : WhiskerTree} (htiled : whiskers.Tiled)
    (hroot : whiskers.domain = ⟨memory, maxMemory⟩) {cs : List Callback}
    (horder : Orderly ((remyCC (remyRat whiskers)).ackedPackets trainingLinkRate cs)) :
    Ready trainingLinkRate (remyCC (remyRat whiskers)) cs := by
  obtain ⟨htree, hvalid, hstart⟩ := start_valid htiled hroot
  exact ⟨htree, hvalid, horder, fun p _ hs => absurd hs hstart⟩

end

/-- An ACK leaves the memory in the root domain, and a rule is found for it, as long as the RTT
stays below 163840 times the least one and no average grows to 163840. The first ACK that does not
fit finds no rule. -/
theorem ack_finds_rule_iff {whiskers : WhiskerTree} (htiled : whiskers.Tiled)
    (hroot : whiskers.domain = ⟨memory, maxMemory⟩) {trainingLinkRate : ℚ}
    (htraining : 0 < trainingLinkRate) {cs : List Callback}
    (horder : Orderly ((remyCC (remyRat whiskers)).ackedPackets trainingLinkRate cs)) :
    (RunMeets (step trainingLinkRate) (FindsRule trainingLinkRate) (remyCC (remyRat whiskers)) cs ↔
      RunMeets (step trainingLinkRate) (Fits trainingLinkRate) (remyCC (remyRat whiskers)) cs) ∧
    ∀ before c after q, cs = before ++ c :: after →
      run (step trainingLinkRate) (remyCC (remyRat whiskers)) before = some q →
      RunMeets (step trainingLinkRate) (Fits trainingLinkRate) (remyCC (remyRat whiskers)) before →
      ¬ q.Fits trainingLinkRate c → q.LacksRule trainingLinkRate c := by
  have hready := start_ready htiled hroot horder
  refine ⟨runMeets_fits_iff htraining hready, ?_⟩
  rintro before c after q rfl hq hbefore hfits
  exact lacksRule_of_not_fits htraining (hready.run htraining hbefore hq) hfits

/-- Two packets with RTTs of 1 and `rtt`. -/
def twoAcks (rtt : ℚ) : List Callback :=
  [.setTimestamp 1, .onPktSent 0, .setTimestamp 2, .onACK 1 1, .onLinkRateMeasurement 1000,
    .onPktSent 1, .setTimestamp (2+rtt), .onACK 2 2]

/-- RTTs of 1 and 30 find rules, one of 163840 after that of 1 does not. -/
theorem ack_finds_rule_iff_twoAcks :
    RunMeets (step (8000/3)) (FindsRule (8000/3)) (remyCC (remyRat .root)) (twoAcks 30) ∧
    ∃ q, run (step (8000/3)) (remyCC (remyRat .root)) ((twoAcks 163840).take 7) = some q ∧
      q.LacksRule (8000/3) (.onACK 2 2) := by
  have htiled : WhiskerTree.root.Tiled := .leaf (whiskerOf ⟨memory, maxMemory⟩)
  have hrate : (0:ℚ) < 8000/3 := by norm_num
  have horder : ∀ rtt ∈ [(30:ℚ), 163840],
      Orderly ((remyCC (remyRat .root)).ackedPackets (8000/3) (twoAcks rtt)) := by
    intro rtt hrtt
    rcases List.mem_pair.mp hrtt with rfl | rfl
    · exact ⟨by decide +kernel, by decide +kernel⟩
    · exact ⟨by decide +kernel, by decide +kernel⟩
  obtain ⟨hiff, -⟩ := ack_finds_rule_iff htiled rfl hrate (horder 30 (by simp))
  obtain ⟨-, hlacks⟩ := ack_finds_rule_iff htiled rfl hrate (horder 163840 (by simp))
  have hrun := (Option.some_get (x := run (step (8000/3)) (remyCC (remyRat .root))
    ((twoAcks 163840).take 7)) (by decide +kernel)).symm
  refine ⟨hiff.mpr (by decide +kernel), _, hrun, ?_⟩
  exact hlacks _ _ [] _ rfl hrun (by decide +kernel) (by decide +kernel)

/-- After an RTT of 1 ms no rule is found for one of 163840 ms. -/
theorem not_every_ack_finds_rule :
    ¬ ∀ (whiskers : WhiskerTree) (trainingLinkRate : ℚ) (cs : List Callback), whiskers.Tiled →
      whiskers.domain = ⟨memory, maxMemory⟩ → 0 < trainingLinkRate →
      (∀ r, Callback.onLinkRateMeasurement r ∈ cs → 0 < r) →
      Orderly ((remyCC (remyRat whiskers)).ackedPackets trainingLinkRate cs) →
      RunMeets (step trainingLinkRate) (FindsRule trainingLinkRate)
        (remyCC (remyRat whiskers)) cs := by
  intro hall
  have htiled : WhiskerTree.root.Tiled := .leaf (whiskerOf ⟨memory, maxMemory⟩)
  have horder : Orderly ((remyCC (remyRat .root)).ackedPackets (8000/3) (twoAcks 163840)) :=
    ⟨by decide +kernel, by decide +kernel⟩
  have hrates : ∀ r, Callback.onLinkRateMeasurement r ∈ twoAcks 163840 → 0 < r := by
    intro r hr
    have hr : r = 1000 := by simpa [twoAcks] using hr
    rw [hr]
    norm_num
  have hfinds := hall .root (8000/3) (twoAcks 163840) htiled rfl (by norm_num) hrates horder
  have hfits := (runMeets_fits_iff (by norm_num) (start_ready htiled rfl horder)).mp hfinds
  exact absurd hfits (by decide +kernel)

end RemyCC

end CopaNgscope
