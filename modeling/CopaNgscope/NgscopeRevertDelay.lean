import CopaNgscope.NgscopeReorderingBuf
import CopaNgscope.Drain

/-! What `ngscope_list_revert_delay` does to the packet list: the buffer is drained by the packets
from the burst's start on, each is charged once, and the walk can be resumed later. -/
namespace CopaNgscope
open Drain

/-- The bits a packet takes from the buffer, as the 32-bit product of the code. -/
def nodeBits (p : PacketNode) : ℕ := (p.recvLenByte*8).toNat

/-- Its bits as such. -/
def packetBits (p : PacketNode) : ℕ := 8*p.recvLenByte.toNat

/-- The packet came at or after the start of the burst and was not rewritten before. -/
def isRevertible (q : NgscopeReorderingBuf) (p : PacketNode) : Bool :=
  decide (q.startPktT ≤ p.recvTUs) && !p.revertFlag

/-- The packet as the walk leaves it, where the walk charges it. -/
def rewriteNode (q : NgscopeReorderingBuf) (p : PacketNode) : PacketNode :=
  if isRevertible q p then
    { p with
      onewayUsNew := q.refOneway
      revertFlag := true
      burstStart := p.burstStart || decide (p.recvTUs = q.startPktT) }
  else p

/-- The buffer after `n` bits have left it. -/
def chargeBuf (q : NgscopeReorderingBuf) (n : ℕ) : NgscopeReorderingBuf :=
  if q.bufSize ≤ n then ngscopeReTxResetBuf q else { q with bufSize := q.bufSize-n }

/-- Packets of fewer than `2 ^ 29` bytes are charged all their bits. -/
theorem nodeBits_of_lt {p : PacketNode} (h : p.recvLenByte.toNat < 2 ^ 29) :
    nodeBits p = packetBits p := by
  rw [packetBits]
  have hmul : nodeBits p = p.recvLenByte.toNat*8%2 ^ 32 := UInt32.toNat_mul p.recvLenByte 8
  omega

/-! ### One packet -/

section
variable {p : PacketNode} {q : NgscopeReorderingBuf}

theorem rewriteNode_of_not (h : isRevertible q p = false) : rewriteNode q p = p := by
  rw [rewriteNode, if_neg (by rw [h]; decide)]

theorem isRevertible_rewriteNode : isRevertible q (rewriteNode q p) = false := by
  rcases Bool.eq_false_or_eq_true (isRevertible q p) with h | h
  · rw [rewriteNode, if_pos h, isRevertible, Bool.not_true, Bool.and_false]
  · rw [rewriteNode_of_not h, h]

/-- The body for a packet that the first block passes over. -/
theorem revertBody_of_not
    (h : ¬ (p.recvTUs = q.startPktT ∧ p.revertFlag = false ∧ q.bufferActive = true)) :
    revertBody p q =
      if q.startPktT < p.recvTUs ∧ p.revertFlag = false ∧ q.bufferActive then
        revertNode p q p.burstStart else (p, q) := by
  rw [revertBody, if_neg h]

/-- The first block sets the flag that the second asks for. -/
theorem revertBody_of_eq (heq : p.recvTUs = q.startPktT) (hflag : p.revertFlag = false)
    (hactive : q.bufferActive = true) : revertBody p q = revertNode p q true := by
  rw [revertBody, if_pos (⟨heq, hflag, hactive⟩ : _ ∧ _ ∧ _)]
  exact if_neg (fun hp => Bool.noConfusion hp.2.1)

theorem revertBody_inactive (h : q.bufferActive = false) : revertBody p q = (p, q) := by
  have hnot : ¬ q.bufferActive = true := by
    rw [h]
    decide
  rw [revertBody_of_not (fun hp => hnot hp.2.2), if_neg (fun hp => hnot hp.2.2)]

/-- The two blocks of the body together charge a packet at most once. -/
theorem revertBody_active (h : q.bufferActive = true) :
    revertBody p q = (rewriteNode q p,
      if isRevertible q p then { q with bufSize := q.bufSize-nodeBits p } else q) := by
  rcases Bool.eq_false_or_eq_true p.revertFlag with hflag | hflag
  · -- already rewritten: neither block applies
    have hnot : isRevertible q p = false := by
      rw [isRevertible, hflag, Bool.not_true, Bool.and_false]
    have hset : ¬ p.revertFlag = false := by
      rw [hflag]
      decide
    rw [rewriteNode_of_not hnot, hnot, revertBody_of_not (fun hp => hset hp.2.1),
      if_neg (fun hp => hset hp.2.1)]
    rfl
  · have hiff : isRevertible q p = decide (q.startPktT ≤ p.recvTUs) := by
      rw [isRevertible, hflag, Bool.not_false, Bool.and_true]
    by_cases heq : p.recvTUs = q.startPktT
    · rw [decide_eq_true (UInt64.le_of_eq heq.symm)] at hiff
      rw [rewriteNode, hiff, revertBody_of_eq heq hflag h, if_pos rfl, if_pos rfl,
        decide_eq_true heq, Bool.or_true]
      rfl
    · rw [revertBody_of_not (fun hp => heq hp.1)]
      rcases UInt64.lt_or_lt_of_ne heq with hlt | hgt
      · rw [decide_eq_false (UInt64.not_le.mpr hlt)] at hiff
        rw [rewriteNode_of_not hiff, hiff, if_neg (fun hp => UInt64.lt_asymm hlt hp.1)]
        rfl
      · rw [decide_eq_true (UInt64.le_of_lt hgt)] at hiff
        rw [rewriteNode, hiff, if_pos ⟨hgt, hflag, h⟩, if_pos rfl, if_pos rfl,
          decide_eq_false heq, Bool.or_false]
        rfl

end

/-! ### The walk -/

section
variable {q : NgscopeReorderingBuf}

theorem chargeBuf_zero (hpos : 0 < q.bufSize) : chargeBuf q 0 = q := by
  rw [chargeBuf, if_neg (by omega)]
  have hzero : q.bufSize-(0:ℕ) = q.bufSize := by omega
  rw [hzero]

/-- Bits taken one after the other leave the same buffer as all at once. -/
theorem chargeBuf_add (a b : ℕ) :
    chargeBuf { q with bufSize := q.bufSize-a } b = chargeBuf q (a+b) := by
  rw [chargeBuf, chargeBuf]
  have hle : q.bufSize-a ≤ b ↔ q.bufSize ≤ (a+b : ℕ) := by omega
  by_cases h : q.bufSize ≤ (a+b : ℕ)
  · rw [if_pos h, if_pos (hle.mpr h)]
    rfl
  · rw [if_neg h, if_neg (fun hb => h (hle.mp hb))]
    have hsub : q.bufSize-a-b = q.bufSize-(a+b : ℕ) := by omega
    rw [hsub]

/-- The walk goes over `pre`, whose revertible packets of size `bits` drain the buffer, and
stops there. -/
structure WalkStops (bits : PacketNode → ℕ) (q : NgscopeReorderingBuf)
    (ps pre post : List PacketNode) : Prop where
  split : ps = pre ++ post
  drains : Drains bits q.bufSize (ps.filter (isRevertible q)) (pre.filter (isRevertible q))
  list : (ngscopeListRevertDelay ps q).1 = pre.map (rewriteNode q) ++ post
  buf : (ngscopeListRevertDelay ps q).2 = chargeBuf q (total bits (pre.filter (isRevertible q)))

theorem exists_walkStops (ps : List PacketNode) (hactive : q.bufferActive = true)
    (hpos : 0 < q.bufSize) : ∃ pre post, WalkStops nodeBits q ps pre post := by
  induction ps generalizing q with
  | nil => exact ⟨[], [], rfl, Drains.nil, rfl, (chargeBuf_zero hpos).symm⟩
  | cons p ps ih =>
    have hbody := revertBody_active (p := p) hactive
    rcases Bool.eq_false_or_eq_true (isRevertible q p) with hp | hp
    · rw [if_pos hp] at hbody
      by_cases hempty : q.bufSize ≤ nodeBits p
      · -- the buffer is drained by this packet
        refine ⟨[p], ps, rfl, ?_, ?_, ?_⟩
        · rw [List.filter_cons_of_pos hp, List.filter_cons_of_pos hp, List.filter_nil]
          exact Drains.last hpos hempty
        · rw [ngscopeListRevertDelay_cons, hbody, if_pos (by dsimp only; omega)]
          rfl
        · rw [ngscopeListRevertDelay_cons, hbody, if_pos (by dsimp only; omega),
            List.filter_cons_of_pos hp, List.filter_nil, total_cons, total_nil, Nat.add_zero,
            chargeBuf, if_pos hempty]
          rfl
      · -- it takes its bits, and the walk goes on with what is left
        have hrest : 0 < q.bufSize-nodeBits p := by omega
        obtain ⟨pre, post, h⟩ := ih (q := { q with bufSize := q.bufSize-nodeBits p }) hactive hrest
        refine ⟨p :: pre, post, ?_, ?_, ?_, ?_⟩
        · rw [h.split, List.cons_append]
        · rw [List.filter_cons_of_pos hp, List.filter_cons_of_pos hp]
          exact Drains.cons (by omega) h.drains
        · rw [ngscopeListRevertDelay_cons, hbody, if_neg (by dsimp only; omega)]
          exact congrArg _ h.list
        · rw [ngscopeListRevertDelay_cons, hbody, if_neg (by dsimp only; omega),
            List.filter_cons_of_pos hp, total_cons, ← chargeBuf_add]
          exact h.buf
    · -- the packet is passed over, with the buffer as it was
      have hneg : ¬ isRevertible q p = true := by
        rw [hp]
        decide
      rw [if_neg hneg, rewriteNode_of_not hp] at hbody
      obtain ⟨pre, post, h⟩ := ih hactive hpos
      refine ⟨p :: pre, post, ?_, ?_, ?_, ?_⟩
      · rw [h.split, List.cons_append]
      · rw [List.filter_cons_of_neg hneg, List.filter_cons_of_neg hneg]
        exact h.drains
      · rw [ngscopeListRevertDelay_cons, hbody, if_neg (by dsimp only; omega), List.map_cons,
          rewriteNode_of_not hp]
        exact congrArg _ h.list
      · rw [ngscopeListRevertDelay_cons, hbody, if_neg (by dsimp only; omega),
          List.filter_cons_of_neg hneg]
        exact h.buf

theorem WalkStops.congr {bits bits' : PacketNode → ℕ} {ps pre post : List PacketNode}
    (h : WalkStops bits q ps pre post) (hbits : ∀ p ∈ ps, bits p = bits' p) :
    WalkStops bits' q ps pre post := by
  have hpre : ∀ p ∈ pre.filter (isRevertible q), bits p = bits' p := by
    intro p hp
    apply hbits
    rw [h.split]
    exact List.mem_append_left post (List.mem_filter.mp hp).1
  refine ⟨h.split, ?_, h.list, ?_⟩
  · exact h.drains.congr fun p hp => hbits p (List.mem_filter.mp hp).1
  · rw [h.buf, total_congr hpre]

/-! ### Resuming the walk -/

/-- A buffer that was reset is left alone, and so is the list. -/
theorem ngscopeListRevertDelay_reset (ps : List PacketNode) :
    ngscopeListRevertDelay ps (ngscopeReTxResetBuf q) = (ps, ngscopeReTxResetBuf q) := by
  cases ps with
  | nil => rfl
  | cons p ps =>
    have hbody := revertBody_inactive (p := p) (q := ngscopeReTxResetBuf q) rfl
    rw [ngscopeListRevertDelay_cons, hbody]
    exact if_pos (le_refl (0 : ℤ))

/-- A later walk passes over a packet that was rewritten or is too early. -/
theorem ngscopeListRevertDelay_skip {p : PacketNode} (hactive : q.bufferActive = true)
    (hp : isRevertible q p = false) (n : ℕ) (ps : List PacketNode) :
    ngscopeListRevertDelay (p :: ps) (chargeBuf q n) =
      (p :: (ngscopeListRevertDelay ps (chargeBuf q n)).1,
        (ngscopeListRevertDelay ps (chargeBuf q n)).2) := by
  by_cases hempty : q.bufSize ≤ n
  · rw [chargeBuf, if_pos hempty, ngscopeListRevertDelay_reset, ngscopeListRevertDelay_reset]
  · rw [chargeBuf, if_neg hempty]
    have hbody := revertBody_active (p := p) (q := { q with bufSize := q.bufSize-n }) hactive
    have hp' : isRevertible { q with bufSize := q.bufSize-n } p = false := hp
    rw [rewriteNode_of_not hp', hp', if_neg (by decide)] at hbody
    rw [ngscopeListRevertDelay_cons, hbody]
    exact if_neg (by dsimp only; omega)

/-- Walking, appending packets and walking again is walking once over all of them. -/
theorem ngscopeListRevertDelay_resume (ps qs : List PacketNode) (hactive : q.bufferActive = true)
    (hpos : 0 < q.bufSize) :
    ngscopeListRevertDelay ((ngscopeListRevertDelay ps q).1 ++ qs)
        (ngscopeListRevertDelay ps q).2 =
      ngscopeListRevertDelay (ps ++ qs) q := by
  induction ps generalizing q with
  | nil => rfl
  | cons p ps ih =>
    have hbody := revertBody_active (p := p) hactive
    generalize hq' : (if isRevertible q p then { q with bufSize := q.bufSize-nodeBits p } else q) =
      q' at hbody
    have hactive' : q'.bufferActive = true := by
      rw [← hq']
      split_ifs <;> exact hactive
    have hstart : q'.startPktT = q.startPktT := by
      rw [← hq']
      split_ifs <;> rfl
    rw [List.cons_append, ngscopeListRevertDelay_cons, ngscopeListRevertDelay_cons, hbody]
    dsimp only
    by_cases hempty : q'.bufSize ≤ 0
    · rw [if_pos hempty, if_pos hempty]
      exact ngscopeListRevertDelay_reset _
    · rw [if_neg hempty, if_neg hempty, ← ih hactive' (by omega)]
      -- the second walk meets `p` with the buffer that the first one left, and passes over it
      obtain ⟨pre, post, hwalk⟩ := exists_walkStops ps hactive' (by omega)
      have hdone : isRevertible q' (rewriteNode q p) = false := by
        rw [isRevertible, hstart]
        exact isRevertible_rewriteNode
      rw [hwalk.buf, List.cons_append]
      exact ngscopeListRevertDelay_skip hactive' hdone _ _

end

/-! ### The result -/

/-- The packets that drain the buffer are rewritten and no others, whatever was appended in
between; only packets of `2 ^ 29` bytes and more are charged less than their bits. -/
theorem ngscope_list_revert_delay_drains (ps qs : List PacketNode) (q : NgscopeReorderingBuf)
    (hactive : q.bufferActive = true) (hpos : 0 < q.bufSize) :
    (∃ pre post, WalkStops nodeBits q ps pre post) ∧
      ngscopeListRevertDelay ((ngscopeListRevertDelay ps q).1 ++ qs)
          (ngscopeListRevertDelay ps q).2 =
        ngscopeListRevertDelay (ps ++ qs) q ∧
      ((∀ p ∈ ps, p.recvLenByte.toNat < 2 ^ 29) →
        ∃ pre post, WalkStops packetBits q ps pre post) := by
  obtain ⟨pre, post, hwalk⟩ := exists_walkStops ps hactive hpos
  refine ⟨⟨pre, post, hwalk⟩, ngscopeListRevertDelay_resume ps qs hactive hpos, ?_⟩
  intro hlt
  exact ⟨pre, post, hwalk.congr fun p hp => nodeBits_of_lt (hlt p hp)⟩

/-- A packet of `len` bytes received at `t`. -/
def drainPacket (len : UInt32) (t : UInt64) : PacketNode where
  node := t.toNat
  recvLenByte := len
  tcpHeader := ⟨0, 1, 1, 0, 0, 0, 0⟩
  onewayUs := 30000
  recvTUs := t
  onewayUsNew := 30000
  revertFlag := false
  acked := false
  burstStart := false

/-- An active buffer of `size` bits whose burst starts at 20. -/
def drainBuf (size : ℤ) : NgscopeReorderingBuf :=
  { ngscopeReTxInitBuf with
    ready := true
    startPktT := 20
    startPktFound := true
    bufferActive := true
    bufSize := size
    refOneway := 20000 }

/-- The second of three packets starts the burst, and the one appended drains the buffer. -/
theorem ngscope_list_revert_delay_drains_appended :
    (∃ pre post, WalkStops nodeBits (drainBuf 30000)
      [drainPacket 1500 10, drainPacket 1500 20, drainPacket 1500 30] pre post) ∧
    ngscopeListRevertDelay
        ((ngscopeListRevertDelay
          [drainPacket 1500 10, drainPacket 1500 20, drainPacket 1500 30] (drainBuf 30000)).1 ++
            [drainPacket 1500 40])
        (ngscopeListRevertDelay
          [drainPacket 1500 10, drainPacket 1500 20, drainPacket 1500 30] (drainBuf 30000)).2 =
      ngscopeListRevertDelay
        ([drainPacket 1500 10, drainPacket 1500 20, drainPacket 1500 30] ++
          [drainPacket 1500 40]) (drainBuf 30000) ∧
    ∃ pre post, WalkStops packetBits (drainBuf 30000)
      [drainPacket 1500 10, drainPacket 1500 20, drainPacket 1500 30] pre post := by
  have h := ngscope_list_revert_delay_drains
    [drainPacket 1500 10, drainPacket 1500 20, drainPacket 1500 30] [drainPacket 1500 40]
    (drainBuf 30000) rfl (by decide)
  exact ⟨h.1, h.2.1, h.2.2 (by decide)⟩
/-- The 32-bit product of a packet of `2 ^ 29` bytes is zero, so the buffer stays active. -/
theorem not_drains_hugePacket :
    ¬ ∀ (ps : List PacketNode) (q : NgscopeReorderingBuf), q.bufferActive = true →
      0 < q.bufSize → ∃ pre post, WalkStops packetBits q ps pre post := by
  intro h
  obtain ⟨pre, post, hwalk⟩ := h [drainPacket 536870912 20] (drainBuf 1) rfl (by decide)
  have hactive : (ngscopeListRevertDelay [drainPacket 536870912 20]
      (drainBuf 1)).2.bufferActive = true := by decide +kernel
  have htotal : total packetBits ([drainPacket 536870912 20].filter
      (isRevertible (drainBuf 1))) = 4294967296 := by decide +kernel
  have hdrained : (drainBuf 1).bufSize ≤
      total packetBits (pre.filter (isRevertible (drainBuf 1))) := by
    by_contra hlt
    have hsize : (drainBuf 1).bufSize = 1 := rfl
    have hall := hwalk.drains.all (by omega)
    rw [hall, htotal, hsize] at hlt
    exact hlt (by decide)
  rw [hwalk.buf, chargeBuf, if_pos hdrained] at hactive
  exact Bool.noConfusion hactive

end CopaNgscope
