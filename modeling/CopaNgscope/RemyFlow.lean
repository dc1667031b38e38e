import CopaNgscope.CopaFlow
import CopaNgscope.SenderRemy

/-! When RemyCC aborts in a flow of `CTCP::send_data`. However ACKs are lost, repeated and
reordered, the averages of the sending times never get negative; those of the receiver's clock may,
and then there is no rule for the ACK. -/
namespace CopaNgscope
open RunInvariant MemoryRange

/-! ### One packet -/

namespace Memory

/-- The RTT is not too large for the least one, no average grows too large, and none of the
receiver's clock gets negative. -/
def Keeps (m : Memory) (p : Packet) (factor : ℚ) : Prop :=
  m.Started →
    p.tickReceived-p.tickSent < 163840*min m.minRtt (p.tickReceived-p.tickSent) ∧
    (m.averaged factor p).recSendEwma < 163840 ∧
    (0 ≤ (m.averaged factor p).recRecEwma ∧ (m.averaged factor p).recRecEwma < 163840) ∧
    (0 ≤ (m.averaged factor p).slowRecRecEwma ∧ (m.averaged factor p).slowRecRecEwma < 163840)

instance (m : Memory) (p : Packet) (factor : ℚ) : Decidable (m.Keeps p factor) :=
  inferInstanceAs (Decidable (_ → _ ∧ _ ∧ _ ∧ _))

variable {m : Memory} {p : Packet} {factor : ℚ}

theorem averaged_largestAck (m : Memory) (factor : ℚ) (p : Packet) :
    (m.averaged factor p).largestAck = m.largestAck := by
  unfold averaged
  split_ifs <;> rfl

/-- Packets without a gap between them were sent in order. -/
theorem averaged_recSendEwma_nonneg (hinside : Contains ⟨memory, maxMemory⟩ m)
    (hfactor : 0 < factor) (hsent : p.seqNum-1 = m.largestAck → m.lastTickSent ≤ p.tickSent) :
    0 ≤ (m.averaged factor p).recSendEwma := by
  have hold : 0 ≤ m.recSendEwma := ((contains_root_iff m).mp hinside).1.1
  unfold averaged
  by_cases hnext : p.seqNum-1 = m.largestAck
  · rw [if_pos hnext]
    exact ewma_nonneg hold (sub_nonneg.mpr (hsent hnext)) hfactor (by norm_num) (by norm_num)
  · rw [if_neg hnext]
    exact hold

theorem averaged_lastTickSent (m : Memory) (factor : ℚ) (p : Packet) :
    (m.averaged factor p).lastTickSent = p.tickSent ∨
      (m.averaged factor p).lastTickSent = m.lastTickSent := by
  unfold averaged
  split_ifs
  · exact Or.inl rfl
  · exact Or.inr rfl

/-- A packet leaves the memory in the root domain if and only if it keeps it there. -/
theorem packetReceived_keeps (hvalid : m.Valid) (hrtt : p.tickSent < p.tickReceived)
    (hfactor : 0 < factor)
    (hsent : m.Started → p.seqNum-1 = m.largestAck → m.lastTickSent ≤ p.tickSent) :
    ∃ m', m.packetReceived p.flowId factor p = some m' ∧
      (Contains ⟨memory, maxMemory⟩ m' ↔ m.Keeps p factor) ∧ 0 < m'.minRtt ∧
      m'.largestAck = max m.largestAck p.seqNum ∧
      (m'.lastTickSent = p.tickSent ∨ (m.Started ∧ m'.lastTickSent = m.lastTickSent)) := by
  have hrtt' : 0 < p.tickReceived-p.tickSent := sub_pos.mpr hrtt
  by_cases hstart : m.Started
  · have hmin : 0 < min m.minRtt (p.tickReceived-p.tickSent) :=
      lt_min (hvalid.minRtt hstart) hrtt'
    obtain ⟨estimate, hreceived⟩ := packetReceived_of_started hstart hmin factor
    have hsend := averaged_recSendEwma_nonneg hvalid.inside hfactor (hsent hstart)
    refine ⟨_, hreceived, ?_, hmin, ?_, ?_⟩
    · rw [contains_root_iff]
      dsimp only
      rw [div_lt_iff₀ hmin, and_iff_right (div_nonneg hrtt'.le hmin.le), and_iff_right hsend]
      constructor
      · intro h _
        exact ⟨h.2.2.1, h.1, h.2.1, h.2.2.2⟩
      · intro h
        obtain ⟨hratio, hless, hrec, hslow⟩ := h hstart
        exact ⟨hless, hrec, hratio, hslow⟩
    · exact congrArg (fun k => max k p.seqNum) (averaged_largestAck m factor p)
    · exact (averaged_lastTickSent m factor p).imp_right (fun h => ⟨hstart, h⟩)
  · refine ⟨_, packetReceived_of_not_started hstart factor, ?_, hrtt', rfl, Or.inl rfl⟩
    exact iff_of_true hvalid.inside (fun hs => absurd hs hstart)

end Memory

/-- Over rules that tile the root domain, one is found exactly inside of it. -/
theorem packetsReceivedBy_isSome_iff {r : RemyRat} (htiled : r.whiskers.Tiled)
    (hroot : r.whiskers.domain = ⟨memory, maxMemory⟩) {p : Packet} (hflow : p.flowId ≠ -1)
    {factor : ℚ} {m : Memory} (hm : r.memory.packetReceived p.flowId factor p = some m) :
    (∃ r', r.packetsReceivedBy [p] factor = some r') ↔ Contains ⟨memory, maxMemory⟩ m := by
  have hreceived : r.memory.packetsReceived [p] p.flowId factor = some m :=
    (Memory.packetsReceived_singleton _ _ _ _).trans hm
  have hfinds := htiled.finds m
  rw [WhiskerTree.Finds, hroot] at hfinds
  unfold RemyRat.packetsReceivedBy
  extract_lets flowId
  have hcond : ¬ ([p] = [] ∨ flowId = -1) := not_or.mpr ⟨List.cons_ne_nil p [], hflow⟩
  have hreceived' : r.memory.packetsReceived [p] flowId factor = some m := hreceived
  rw [if_neg hcond, hreceived', Option.bind_some, WhiskerTree.useWhisker]
  split_ifs at hfinds with hinside
  · obtain ⟨w, _, hw⟩ := hfinds
    rw [hw]
    exact iff_of_true ⟨_, rfl⟩ hinside
  · rw [hfinds.2]
    exact iff_of_false (fun h => Option.some_ne_none _ h.choose_spec.symm) hinside

/-! ### The controller -/

namespace RemyCC

/-- What an ACK hands to the `Rat`, if its packet is in flight, keeps the memory in its domain. -/
def Keeps (trainingLinkRate : ℚ) (q : RemyCC RemyRat) (ack : ℤ) (receiverTimestamp : ℚ) : Prop :=
  ∀ p ∈ q.ackedPacket (.onACK ack receiverTimestamp),
    q.rat.memory.Keeps p (q.normalizingFactor trainingLinkRate)

instance (trainingLinkRate : ℚ) (q : RemyCC RemyRat) (ack : ℤ) (receiverTimestamp : ℚ) :
    Decidable (q.Keeps trainingLinkRate ack receiverTimestamp) :=
  inferInstanceAs (Decidable (∀ p ∈ q.ackedPacket (.onACK ack receiverTimestamp),
    q.rat.memory.Keeps p (q.normalizingFactor trainingLinkRate)))

/-- RemyCC in its first flow, at time `now` with `seqNum` to send next. Trains that are in flight
were sent in their order, and those of which the number is greater than all that were acknowledged
after the packet that was averaged last. -/
structure InFirstFlow (trainLength : ℤ) (now : ℚ) (seqNum : ℤ) (q : RemyCC RemyRat) : Prop where
  tiled : q.RootTiled
  memory : q.rat.memory.Valid
  flowId : q.flowId = 0
  inFlight : ∀ k t, q.unacknowledgedPackets k = some t → k*trainLength < seqNum ∧ t ≤ now
  inOrder : ∀ k k' t t', q.unacknowledgedPackets k = some t →
    q.unacknowledgedPackets k' = some t' → k ≤ k' → t ≤ t'
  lastTickSent : q.rat.memory.Started → q.rat.memory.lastTickSent ≤ now ∧
    ∀ k t, q.unacknowledgedPackets k = some t → q.rat.memory.largestAck < k →
      q.rat.memory.lastTickSent ≤ t

variable {trainLength : ℤ} {trainingLinkRate now : ℚ} {seqNum : ℤ} {q u : RemyCC RemyRat}

/-- Time passes, and packets inside a train are sent. -/
theorem InFirstFlow.mono (h : InFirstFlow trainLength now seqNum q) {now' : ℚ} {seqNum' : ℤ}
    (hnow : now ≤ now') (hseq : seqNum ≤ seqNum') : InFirstFlow trainLength now' seqNum' q where
  tiled := h.tiled
  memory := h.memory
  flowId := h.flowId
  inFlight := by
    intro k t hk
    obtain ⟨hlt, hle⟩ := h.inFlight k t hk
    exact ⟨hlt.trans_le hseq, hle.trans hnow⟩
  inOrder := h.inOrder
  lastTickSent := by
    intro hstart
    obtain ⟨hle, hlater⟩ := h.lastTickSent hstart
    exact ⟨hle.trans hnow, hlater⟩

theorem InFirstFlow.setTimestamp (h : InFirstFlow trainLength now seqNum q) (t : ℚ) :
    InFirstFlow trainLength now seqNum (q.setTimestamp t) :=
  ⟨h.tiled, h.memory, h.flowId, h.inFlight, h.inOrder, h.lastTickSent⟩

theorem InFirstFlow.onLinkRateMeasurement (h : InFirstFlow trainLength now seqNum q) (r : ℚ) :
    InFirstFlow trainLength now seqNum (q.onLinkRateMeasurement r) :=
  ⟨h.tiled, h.memory, h.flowId, h.inFlight, h.inOrder, h.lastTickSent⟩

/-- Only the number of restarts is asserted. -/
theorem init_isSome_iff (q : RemyCC RemyRat) :
    (∃ u, q.init RemyRat.ops = some u) ↔ q.rat.flowId+1 ≠ 0 := by
  have hreset : (∃ r, q.rat.reset = some r) ↔ q.rat.flowId+1 ≠ 0 := by
    unfold RemyRat.reset
    by_cases hwrap : q.rat.flowId+1 = 0
    · rw [if_pos hwrap]
      exact iff_of_false (fun h => Option.some_ne_none _ h.choose_spec.symm) (not_not.mpr hwrap)
    · rw [if_neg hwrap]
      exact iff_of_true ⟨_, rfl⟩ hwrap
  rw [← hreset]
  constructor
  · intro h
    obtain ⟨u, hu⟩ := h
    obtain ⟨r, hr, _⟩ := Option.map_eq_some_iff.mp hu
    exact ⟨r, hr⟩
  · intro h
    obtain ⟨r, hr⟩ := h
    exact ⟨_, congrArg (Option.map _) hr⟩

/-- The memory is empty after a restart, and what is in flight stays so. -/
theorem InFirstFlow.init {trainLength : ℤ} {now : ℚ} {seqNum : ℤ} (htiled : q.RootTiled)
    (hinFlight : ∀ k t, q.unacknowledgedPackets k = some t → k*trainLength < seqNum ∧ t ≤ now)
    (hinOrder : ∀ k k' t t', q.unacknowledgedPackets k = some t →
      q.unacknowledgedPackets k' = some t' → k ≤ k' → t ≤ t')
    (hu : q.init RemyRat.ops = some u) : InFirstFlow trainLength now seqNum u := by
  obtain ⟨r, hr, rfl⟩ := Option.map_eq_some_iff.mp hu
  change q.rat.reset = some r at hr
  unfold RemyRat.reset at hr
  split_ifs at hr
  cases hr
  obtain ⟨hvalid, hstart⟩ := valid_reset q.rat.memory
  exact ⟨htiled, hvalid, rfl, hinFlight, hinOrder, fun h => absurd h hstart⟩

/-- The first packet of the next train is sent. -/
theorem InFirstFlow.onPktSent (h : InFirstFlow trainLength now seqNum q) (hpos : 0 < trainLength)
    {train : ℤ} (htrain : train*trainLength = seqNum) (htime : q.curTick = now) :
    InFirstFlow trainLength now (seqNum+1) (q.onPktSent train) := by
  -- all that is in flight was sent before this train
  have hcases {k : ℤ} {t : ℚ} (hk : (q.onPktSent train).unacknowledgedPackets k = some t) :
      (k = train ∧ t = now) ∨ (k < train ∧ t ≤ now ∧ q.unacknowledgedPackets k = some t) := by
    by_cases heq : k = train
    · rw [heq, onPktSent_self] at hk
      exact Or.inl ⟨heq, (Option.some.inj hk).symm.trans htime⟩
    · have hold : q.unacknowledgedPackets k = some t :=
        (Function.update_of_ne heq _ _).symm.trans hk
      obtain ⟨hlt, hle⟩ := h.inFlight k t hold
      rw [← htrain] at hlt
      exact Or.inr ⟨lt_of_mul_lt_mul_right hlt hpos.le, hle, hold⟩
  refine ⟨h.tiled, h.memory, h.flowId, ?_, ?_, ?_⟩
  · intro k t hk
    rcases hcases hk with ⟨rfl, rfl⟩ | ⟨_, hle, hold⟩
    · exact ⟨htrain.trans_lt (Int.lt_succ _), le_rfl⟩
    · exact ⟨(h.inFlight k t hold).1.trans (Int.lt_succ _), hle⟩
  · intro k k' t t' hk hk' hle
    rcases hcases hk with ⟨rfl, rfl⟩ | ⟨hlt, ht, hold⟩
    · rcases hcases hk' with ⟨_, rfl⟩ | ⟨hlt', _, _⟩
      · exact le_rfl
      · exact absurd hlt' hle.not_gt
    · rcases hcases hk' with ⟨_, rfl⟩ | ⟨_, _, hold'⟩
      · exact ht
      · exact h.inOrder k k' t t' hold hold' hle
  · intro hstart
    obtain ⟨hlast, hlater⟩ := h.lastTickSent hstart
    refine ⟨hlast, fun k t hk hgreater => ?_⟩
    rcases hcases hk with ⟨_, rfl⟩ | ⟨_, _, hold⟩
    · exact hlast
    · exact hlater k t hold hgreater

theorem ackPacket_isSome_iff (q : RemyCC RemyRat) (k : ℤ) (sentTime receiverTimestamp : ℚ) :
    (∃ u, q.ackPacket RemyRat.ops trainingLinkRate k sentTime receiverTimestamp = some u) ↔
      ∃ r, q.rat.packetsReceivedBy [⟨0, q.flowId, sentTime, q.curTick, receiverTimestamp, k⟩]
        (q.normalizingFactor trainingLinkRate) = some r := by
  have hmap {f : RemyRat → RemyCC RemyRat} {x : Option RemyRat} :
      (∃ u, x.map f = some u) ↔ ∃ r, x = some r := by
    cases x with
    | none => exact iff_of_false (fun h => nomatch h.choose_spec) (fun h => nomatch h.choose_spec)
    | some r => exact iff_of_true ⟨_, rfl⟩ ⟨_, rfl⟩
  unfold ackPacket normalizingFactor
  extract_lets p t
  by_cases hrate : 0 < q.measuredLinkRate
  · rw [if_pos (show 0 < t.measuredLinkRate from hrate), if_pos hrate]
    exact hmap
  · rw [if_neg (show ¬ 0 < t.measuredLinkRate from hrate), if_neg hrate]
    exact hmap

/-- What is in flight and the flow after an ACK of a packet in flight. -/
theorem ackPacket_fields {k : ℤ} {sentTime receiverTimestamp : ℚ}
    (hu : q.ackPacket RemyRat.ops trainingLinkRate k sentTime receiverTimestamp = some u) :
    u.unacknowledgedPackets = Function.update q.unacknowledgedPackets k none ∧
      u.flowId = q.flowId := by
  unfold ackPacket at hu
  dsimp only at hu
  split_ifs at hu
  · obtain ⟨r, _, rfl⟩ := Option.map_eq_some_iff.mp hu
    exact ⟨rfl, rfl⟩
  · obtain ⟨r, _, rfl⟩ := Option.map_eq_some_iff.mp hu
    exact ⟨rfl, rfl⟩

/-- The packet of an ACK, and what the memory makes of it. -/
theorem InFirstFlow.packetReceived (h : InFirstFlow trainLength now seqNum q)
    (htraining : 0 < trainingLinkRate) (hlater : now < q.curTick) {k : ℤ} {t : ℚ}
    (hk : q.unacknowledgedPackets k = some t) (receiverTimestamp : ℚ) :
    ∃ m, q.rat.memory.packetReceived q.flowId (q.normalizingFactor trainingLinkRate)
        ⟨0, q.flowId, t, q.curTick, receiverTimestamp, k⟩ = some m ∧
      (Contains ⟨CopaNgscope.memory, maxMemory⟩ m ↔ q.rat.memory.Keeps
        ⟨0, q.flowId, t, q.curTick, receiverTimestamp, k⟩
        (q.normalizingFactor trainingLinkRate)) ∧ 0 < m.minRtt ∧
      m.largestAck = max q.rat.memory.largestAck k ∧
      (m.lastTickSent = t ∨
        (q.rat.memory.Started ∧ m.lastTickSent = q.rat.memory.lastTickSent)) := by
  refine Memory.packetReceived_keeps h.memory ((h.inFlight k t hk).2.trans_lt hlater)
    (normalizingFactor_pos htraining q) ?_
  intro hstart hnext
  dsimp only at hnext
  exact (h.lastTickSent hstart).2 k t hk (by omega)

/-- An ACK fails no assertion if and only if it keeps the memory in its domain. -/
theorem InFirstFlow.onACK_isSome_iff (h : InFirstFlow trainLength now seqNum q)
    (htraining : 0 < trainingLinkRate) (hlater : now < q.curTick) (ack : ℤ)
    (receiverTimestamp : ℚ) :
    (∃ u, q.onACK RemyRat.ops trainingLinkRate ack receiverTimestamp = some u) ↔
      q.Keeps trainingLinkRate ack receiverTimestamp := by
  cases hflight : q.unacknowledgedPackets (ack-1) with
  | none =>
    have hnone : q.ackedPacket (.onACK ack receiverTimestamp) = none := by
      rw [ackedPacket, hflight]
      rfl
    refine iff_of_true ?_ (fun p hp => ?_)
    · rw [onACK]
      simp only [hflight]
      exact ⟨q, rfl⟩
    · rw [hnone] at hp
      cases hp
  | some t =>
    have hone : q.ackedPacket (.onACK ack receiverTimestamp) =
        some ⟨0, q.flowId, t, q.curTick, receiverTimestamp, ack-1⟩ := by
      rw [ackedPacket, hflight]
      rfl
    have hflow : q.flowId ≠ -1 := by
      rw [h.flowId]
      decide
    obtain ⟨m, hm, hinside, _⟩ := h.packetReceived htraining hlater hflight receiverTimestamp
    rw [onACK_of_some _ _ hflight, ackPacket_isSome_iff,
      packetsReceivedBy_isSome_iff h.tiled.1 h.tiled.2 hflow hm, hinside, Keeps, hone]
    exact ⟨fun hkeeps p hp => Option.some.inj hp ▸ hkeeps, fun hkeeps => hkeeps _ rfl⟩

theorem InFirstFlow.onACK (h : InFirstFlow trainLength now seqNum q)
    (htraining : 0 < trainingLinkRate) (hlater : now < q.curTick) {ack : ℤ}
    {receiverTimestamp : ℚ}
    (hu : q.onACK RemyRat.ops trainingLinkRate ack receiverTimestamp = some u) :
    InFirstFlow trainLength q.curTick seqNum u := by
  have hpassed := h.mono hlater.le (le_refl seqNum)
  cases hflight : q.unacknowledgedPackets (ack-1) with
  | none =>
    rw [RemyCC.onACK] at hu
    simp only [hflight] at hu
    cases hu
    exact hpassed
  | some t =>
    have hone : q.ackedPacket (.onACK ack receiverTimestamp) =
        some ⟨0, q.flowId, t, q.curTick, receiverTimestamp, ack-1⟩ := by
      rw [ackedPacket, hflight]
      rfl
    have hkeeps := (h.onACK_isSome_iff htraining hlater ack receiverTimestamp).mp ⟨u, hu⟩
    obtain ⟨m, hm, hinside, hmin, hlargest, hsent⟩ :=
      h.packetReceived htraining hlater hflight receiverTimestamp
    obtain ⟨m', w, hm', _, hmemory, hwhiskers⟩ := packetsReceivedBy_eq_some
      (rat_of_ackedPacket hone (show RemyCC.step trainingLinkRate q
        (.onACK ack receiverTimestamp) = some u from hu))
    rw [Memory.packetsReceived_singleton] at hm'
    cases hm.symm.trans hm'
    rw [onACK_of_some _ _ hflight] at hu
    obtain ⟨hunacked, hflow⟩ := ackPacket_fields hu
    -- the packet is no longer in flight
    have hold {k : ℤ} {t' : ℚ} (hk : u.unacknowledgedPackets k = some t') :
        q.unacknowledgedPackets k = some t' := by
      rw [hunacked] at hk
      by_cases heq : k = ack-1
      · rw [heq, Function.update_self] at hk
        cases hk
      · exact (Function.update_of_ne heq _ _).symm.trans hk
    refine ⟨?_, ?_, hflow.trans h.flowId, ?_, ?_, ?_⟩
    · rw [RootTiled, hwhiskers]
      exact h.tiled
    · rw [hmemory]
      exact ⟨hinside.mpr (hkeeps _ hone), fun _ => hmin⟩
    · exact fun k t' hk => hpassed.inFlight k t' (hold hk)
    · exact fun k k' t t' hk hk' => h.inOrder k k' t t' (hold hk) (hold hk')
    · intro _
      rw [hmemory, hlargest]
      rcases hsent with hthis | ⟨hstart, hlast⟩
      · rw [hthis]
        refine ⟨(hpassed.inFlight _ _ hflight).2, fun k t' hk hgreater => ?_⟩
        have hle : ack-1 ≤ k := ((le_max_right _ _).trans_lt hgreater).le
        exact h.inOrder _ k t t' hflight (hold hk) hle
      · rw [hlast]
        obtain ⟨hle, hall⟩ := hpassed.lastTickSent hstart
        exact ⟨hle, fun k t' hk hgreater =>
          hall k t' (hold hk) ((le_max_left _ _).trans_lt hgreater)⟩

end RemyCC

/-! ### The loop -/

section
variable {c : FlowConfig} {trainingLinkRate : ℚ}

/-- The header in the buffer is no ACK, or one that keeps the memory in its domain. -/
def AckKept (trainingLinkRate : ℚ) (c : FlowConfig) (s : Sender (RemyCC RemyRat)) (now : ℚ) :
    Prop :=
  ∀ call ∈ ackCall c.srcId c.flowId c.trainLength s.buf,
    ((estimateLinkRate (remy RemyRat.ops trainingLinkRate) c
      { s with curTime := now, lastAckTime := now } now).congctrl.setTimestamp now).Keeps
        trainingLinkRate call.ack call.receiverTimestamp

instance (s : Sender (RemyCC RemyRat)) (now : ℚ) : Decidable (AckKept trainingLinkRate c s now) :=
  inferInstanceAs (Decidable (∀ call ∈ ackCall c.srcId c.flowId c.trainLength s.buf,
    ((estimateLinkRate (remy RemyRat.ops trainingLinkRate) c
      { s with curTime := now, lastAckTime := now } now).congctrl.setTimestamp now).Keeps
        trainingLinkRate call.ack call.receiverTimestamp))

/-- No ACK leaves the domain of the memory, and the flows of the `Rat` can be counted. -/
def RemyKeeps (trainingLinkRate : ℚ) (c : FlowConfig) (s : Sender (RemyCC RemyRat)) :
    SendAction → Prop
  | .enter now => 2000 < now-s.lastAckTime → FlowOpen c s now → s.congctrl.rat.flowId+1 ≠ 0
  | .receive header now => AckKept trainingLinkRate c { s with buf := header } now
  | .receiveError now => AckKept trainingLinkRate c s now
  | _ => True

/-- What every state of the first flow satisfies. -/
def SendsFirstFlow (c : FlowConfig) (s : Sender (RemyCC RemyRat)) : Prop :=
  s.congctrl.InFirstFlow c.trainLength s.curTime s.seqNum

theorem inFirstFlow_estimateLinkRate {s : Sender (RemyCC RemyRat)} {t : ℚ}
    (h : s.congctrl.InFirstFlow c.trainLength t s.seqNum) (now : ℚ) :
    (estimateLinkRate (remy RemyRat.ops trainingLinkRate) c s now).congctrl.InFirstFlow
      c.trainLength t s.seqNum := by
  unfold estimateLinkRate
  extract_lets estimate
  split_ifs
  · exact h.onLinkRateMeasurement _
  · exact h
  · exact h

theorem takeAck_isSome_iff {s : Sender (RemyCC RemyRat)} {now : ℚ} (h : SendsFirstFlow c s)
    (htraining : 0 < trainingLinkRate) (hlater : s.curTime < now) :
    (∃ r, takeAck (remy RemyRat.ops trainingLinkRate) c s now = some r) ↔
      AckKept trainingLinkRate c s now := by
  by_cases hown : c.Own s.buf
  · have hids : ¬ (s.buf.srcId ≠ c.srcId ∨ s.buf.flowId ≠ c.flowId) := by
      rw [not_or, not_not, not_not]
      exact hown
    rw [takeAck, if_neg hids, AckKept]
    extract_lets call t
    have ht : t.congctrl.InFirstFlow c.trainLength s.curTime s.seqNum :=
      inFirstFlow_estimateLinkRate (s := { s with curTime := now, lastAckTime := now }) h now
    cases hcall : call with
    | none =>
      refine iff_of_true ⟨_, rfl⟩ ?_
      intro x hx
      cases hcall.symm.trans hx
    | some x =>
      have hack := (ht.setTimestamp now).onACK_isSome_iff htraining hlater x.ack
        x.receiverTimestamp
      constructor
      · intro hr y hy
        obtain ⟨r, hr⟩ := hr
        obtain ⟨u, hu, _⟩ := Option.map_eq_some_iff.mp hr
        cases hcall.symm.trans hy
        exact hack.mp ⟨u, hu⟩
      · intro hkept
        obtain ⟨u, hu⟩ := hack.mpr (hkept x hcall)
        exact ⟨_, congrArg (Option.map _) hu⟩
  · rw [takeAck_of_not_own hown, AckKept, ackCall_of_not_own hown]
    refine iff_of_true ⟨_, rfl⟩ ?_
    intro call hcall
    cases hcall

theorem sendsFirstFlow_takeAck {s : Sender (RemyCC RemyRat)} {now : ℚ}
    {r : SendOutcome (RemyCC RemyRat)} (h : SendsFirstFlow c s)
    (htraining : 0 < trainingLinkRate) (hlater : s.curTime < now)
    (hr : takeAck (remy RemyRat.ops trainingLinkRate) c s now = some r) :
    SendsFirstFlow c r.sender := by
  have hseq := (takeAck_cases hr).1
  rw [SendsFirstFlow, hseq]
  by_cases hown : c.Own s.buf
  · have hids : ¬ (s.buf.srcId ≠ c.srcId ∨ s.buf.flowId ≠ c.flowId) := by
      rw [not_or, not_not, not_not]
      exact hown
    rw [takeAck, if_neg hids] at hr
    extract_lets call t at hr
    have ht : t.congctrl.InFirstFlow c.trainLength s.curTime s.seqNum :=
      inFirstFlow_estimateLinkRate (s := { s with curTime := now, lastAckTime := now }) h now
    have htime : t.curTime = now := by
      obtain ⟨e, k, heq⟩ := estimateLinkRate_frame (remy RemyRat.ops trainingLinkRate) c
        { s with curTime := now, lastAckTime := now } now
      exact congrArg Sender.curTime heq
    obtain ⟨u, hu, rfl⟩ := Option.map_eq_some_iff.mp hr
    dsimp only
    rw [htime]
    cases hcall : call with
    | none =>
      rw [hcall] at hu
      cases hu
      exact ht.mono hlater.le le_rfl
    | some x =>
      rw [hcall] at hu
      exact (ht.setTimestamp now).onACK htraining hlater hu
  · rw [takeAck_of_not_own hown] at hr
    cases hr
    exact h

/-- A step of the loop that is defined keeps the trains in order. -/
theorem sendsFirstFlow_step (hpos : 1 ≤ c.trainLength) (htraining : 0 < trainingLinkRate)
    {s : Sender (RemyCC RemyRat)} {a : SendAction} {r : SendOutcome (RemyCC RemyRat)}
    (h : SendsFirstFlow c s) (hclock : ReadingLater s a)
    (hr : sendStep (remy RemyRat.ops trainingLinkRate) c s a = some r) :
    SendsFirstFlow c r.sender := by
  cases a with
  | enter now =>
    have hnow : s.curTime ≤ now := (hclock now rfl).1
    rw [sendStep] at hr
    split_ifs at hr
    obtain ⟨t, ht, rfl⟩ := Option.map_eq_some_iff.mp hr
    rw [enterLoop] at ht
    split_ifs at ht
    · obtain ⟨q, hq, rfl⟩ := Option.map_eq_some_iff.mp ht
      have hpassed := (h.setTimestamp now).mono hnow le_rfl
      exact RemyCC.InFirstFlow.init hpassed.tiled hpassed.inFlight hpassed.inOrder hq
    · cases ht
      exact h.mono hnow le_rfl
    · cases ht
      exact h.mono hnow le_rfl
  | transmit txTimestamp =>
    rw [sendStep] at hr
    split_ifs at hr
    cases hr
    unfold transmitPacket SendsFirstFlow
    by_cases hfirst : Int.tmod s.seqNum c.trainLength = 0
    · have htrain : sentTrain c.trainLength s.seqNum =
          some (Int.tdiv s.seqNum c.trainLength) := if_pos hfirst
      simp only [htrain]
      exact (h.setTimestamp s.curTime).onPktSent (zero_lt_one.trans_le hpos)
        (Int.tdiv_mul_cancel_of_tmod_eq_zero hfirst) rfl
    · have htrain : sentTrain c.trainLength s.seqNum = none := if_neg hfirst
      simp only [htrain]
      exact h.mono le_rfl (Int.le_add_one le_rfl)
  | stopTransmitting txTimestamp now =>
    have hnow : s.curTime ≤ now := (hclock now rfl).1
    rw [sendStep] at hr
    split_ifs at hr
    · cases hr
      exact h.mono hnow le_rfl
    · cases hr
      exact h.mono hnow le_rfl
  | timedOut now =>
    have hnow : s.curTime ≤ now := (hclock now rfl).1
    rw [sendStep] at hr
    split_ifs at hr
    cases hr
    have htimeout : (receiveTimedOut (remy RemyRat.ops trainingLinkRate) s now).congctrl =
        s.congctrl := ite_self _
    rw [SendsFirstFlow, htimeout]
    exact h.mono hnow le_rfl
  | receive header now =>
    have hlater : s.curTime < now := (hclock now rfl).2 rfl
    rw [sendStep] at hr
    split_ifs at hr
    exact sendsFirstFlow_takeAck (s := { s with buf := header }) h htraining hlater hr
  | receiveError now =>
    have hlater : s.curTime < now := (hclock now rfl).2 rfl
    rw [sendStep] at hr
    split_ifs at hr
    exact sendsFirstFlow_takeAck h htraining hlater hr
  | finish now =>
    have hnow : s.curTime ≤ now := (hclock now rfl).1
    rw [sendStep] at hr
    split_ifs at hr
    cases hr
    exact (h.setTimestamp now).mono hnow le_rfl

/-- Which steps fail an assertion. -/
theorem sendStep_isSome_iff (htraining : 0 < trainingLinkRate) {s : Sender (RemyCC RemyRat)}
    {a : SendAction} (h : SendsFirstFlow c s) (hclock : ReadingLater s a)
    (hfits : a.Fits (remy RemyRat.ops trainingLinkRate) c s) :
    (∃ r, sendStep (remy RemyRat.ops trainingLinkRate) c s a = some r) ↔
      RemyKeeps trainingLinkRate c s a := by
  cases a with
  | enter now =>
    rw [SendAction.Fits] at hfits
    rw [sendStep, if_pos hfits, enterLoop, RemyKeeps]
    split_ifs with hlate hopen
    · have hinit := (s.congctrl.setTimestamp now).init_isSome_iff
      constructor
      · intro hr _ _
        obtain ⟨r, hr⟩ := hr
        obtain ⟨t, ht, _⟩ := Option.map_eq_some_iff.mp hr
        obtain ⟨q, hq, _⟩ := Option.map_eq_some_iff.mp ht
        exact hinit.mp ⟨q, hq⟩
      · intro hcount
        obtain ⟨q, hq⟩ := hinit.mpr (hcount hlate hopen)
        exact ⟨_, congrArg (Option.map _) (congrArg (Option.map _) hq)⟩
    · exact iff_of_true ⟨_, rfl⟩ (fun _ hopen' => absurd hopen' hopen)
    · exact iff_of_true ⟨_, rfl⟩ (fun hlate' => absurd hlate' hlate)
  | transmit txTimestamp =>
    rw [SendAction.Fits] at hfits
    rw [sendStep, if_pos hfits]
    exact iff_of_true ⟨_, rfl⟩ trivial
  | stopTransmitting txTimestamp now =>
    rw [SendAction.Fits] at hfits
    rw [sendStep, if_pos hfits]
    split_ifs
    · exact iff_of_true ⟨_, rfl⟩ trivial
    · exact iff_of_true ⟨_, rfl⟩ trivial
  | timedOut now =>
    rw [SendAction.Fits] at hfits
    rw [sendStep, if_pos hfits]
    exact iff_of_true ⟨_, rfl⟩ trivial
  | receive header now =>
    have hlater : s.curTime < now := (hclock now rfl).2 rfl
    rw [SendAction.Fits] at hfits
    rw [sendStep, if_pos hfits]
    exact takeAck_isSome_iff (s := { s with buf := header }) h htraining hlater
  | receiveError now =>
    have hlater : s.curTime < now := (hclock now rfl).2 rfl
    rw [SendAction.Fits] at hfits
    rw [sendStep, if_pos hfits]
    exact takeAck_isSome_iff h htraining hlater
  | finish now =>
    rw [SendAction.Fits] at hfits
    rw [sendStep, if_pos hfits]
    exact iff_of_true ⟨_, rfl⟩ trivial

/-- RemyCC with rules that tile the root domain starts its first flow. -/
structure RemyStart (trainingLinkRate : ℚ) (f : Flow (RemyCC RemyRat)) : Prop where
  started : ∃ q buf start now, q.RootTiled ∧ (∀ k, q.unacknowledgedPackets k = none) ∧
    senderInit (remy RemyRat.ops trainingLinkRate) q buf start now = some f.sender

theorem sendsFirstFlow_start {f : Flow (RemyCC RemyRat)} (h : RemyStart trainingLinkRate f) :
    SendsFirstFlow c f.sender := by
  obtain ⟨q, buf, start, now, htiled, hfresh, hinit⟩ := h.started
  obtain ⟨u, hu, hsender⟩ := Option.map_eq_some_iff.mp hinit
  rw [SendsFirstFlow, ← hsender]
  refine RemyCC.InFirstFlow.init (q := q.setTimestamp now) htiled ?_ ?_ hu
  · intro k t hk
    exact absurd ((hfresh k).symm.trans hk) (Option.some_ne_none t).symm
  · intro k k' t t' hk
    exact absurd ((hfresh k).symm.trans hk) (Option.some_ne_none t).symm

/-- In every run of the first flow of RemyCC, over any network and either receiver and for trains of
any length, as long as the clock moves on while the sender waits, a step ends the process exactly
when its ACK would take the memory out of the root domain, where no rule is found, or the flows of
the `Rat` would wrap, which fails an assertion. -/
theorem remy_flow_aborts_iff {f f' : Flow (RemyCC RemyRat)} {actions : List FlowAction}
    (hpos : 1 ≤ c.trainLength) (htraining : 0 < trainingLinkRate)
    (hstart : RemyStart trainingLinkRate f)
    (hclock : RunMeets (flowStep (remy RemyRat.ops trainingLinkRate) c) (OnSender ReadingLater) f
      actions)
    (hrun : run (flowStep (remy RemyRat.ops trainingLinkRate) c) f actions = some f')
    {a : SendAction} (hfits : a.Fits (remy RemyRat.ops trainingLinkRate) c f'.sender)
    (hlater : ReadingLater f'.sender a) :
    (∃ r, sendStep (remy RemyRat.ops trainingLinkRate) c f'.sender a = some r) ↔
      RemyKeeps trainingLinkRate c f'.sender a :=
  sendStep_isSome_iff htraining
    (flow_sender_invariant ReadingLater (SendsFirstFlow c)
      (fun _ _ _ h hok hr => sendsFirstFlow_step hpos htraining h hok hr)
      (sendsFirstFlow_start hstart) hclock hrun)
    hlater hfits

end

/-- The flow after `init`. -/
def remyFirstFlow : Flow (RemyCC RemyRat) :=
  { remyBatchFlow with
    sender := { remyBatchFlow.sender with
      congctrl := { remyCC (remyRat .root) with rat := { remyRat .root with flowId := 1 } } } }

theorem remyStart_remyFirstFlow : RemyStart (8000/3) remyFirstFlow :=
  ⟨remyCC (remyRat .root), handshakeHeader, 0, 0,
    (RemyCC.start_valid (.leaf (whiskerOf ⟨memory, maxMemory⟩)) rfl).1, fun _ => rfl, rfl⟩

/-- The second packet overtakes the first one on its way, and its ACK comes after the other. -/
def overtaking : List FlowAction :=
  echoedTwice.take 12 ++ [.batch (.receive { firstPacket with seqNum := 1 }),
    .batch (.endBatch (fun _ => 3) 200), .batch (.receive firstPacket),
    .batch (.endBatch (fun _ => 5) 300), .sender (.receive (batchEcho firstPacket 5 300) 6),
    .sender (.enter 7), .sender (.stopTransmitting 120 8)]

/-- The ACK of the first packet of ten is taken. One that shows the receiver's clock going back
ends the process. -/
theorem remy_flow_aborts_iff_echo :
    (∃ f', run (flowStep (remy RemyRat.ops (8000/3)) secondFlow) remyFirstFlow
        (echoedTwice.take 14) = some f' ∧
      ∃ r, sendStep (remy RemyRat.ops (8000/3)) secondFlow f'.sender (.receive firstEcho 4) =
        some r) ∧
    ∃ f', run (flowStep (remy RemyRat.ops (8000/3)) secondFlow) remyFirstFlow overtaking =
        some f' ∧
      ¬ ∃ r, sendStep (remy RemyRat.ops (8000/3)) secondFlow f'.sender
        (.receive (batchEcho { firstPacket with seqNum := 1 } 3 200) 9) = some r := by
  have htaken := (Option.some_get (x := run (flowStep (remy RemyRat.ops (8000/3)) secondFlow)
    remyFirstFlow (echoedTwice.take 14)) (by decide +kernel)).symm
  have hovertaken := (Option.some_get (x := run (flowStep (remy RemyRat.ops (8000/3)) secondFlow)
    remyFirstFlow overtaking) (by decide +kernel)).symm
  refine ⟨⟨_, htaken, ?_⟩, _, hovertaken, ?_⟩
  · refine (remy_flow_aborts_iff le_rfl (by norm_num) remyStart_remyFirstFlow (by decide +kernel)
      htaken ?_ (by decide +kernel)).mpr ?_
    · change Sender.phase _ = SendPhase.receiving
      decide +kernel
    · change AckKept _ _ _ _
      decide +kernel
  · refine (remy_flow_aborts_iff le_rfl (by norm_num) remyStart_remyFirstFlow (by decide +kernel)
      hovertaken ?_ (by decide +kernel)).not.mpr ?_
    · change Sender.phase _ = SendPhase.receiving
      decide +kernel
    · change ¬ AckKept _ _ _ _
      decide +kernel

end CopaNgscope
