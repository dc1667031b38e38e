import CopaNgscope.NgscopeClientEcho
import CopaNgscope.NgscopeRevertDelay
import CopaNgscope.RunTotal

/-! What the client rewrites over a whole run. Retransmissions add bits to the reordering buffer,
rewritten packets take them out again, and a burst that is given up loses what is left. -/
namespace CopaNgscope
open Drain RunInvariant RunTotal

/-- The bits of the packets whose delay was rewritten. -/
def rewrittenBits (ps : List PacketNode) : ℕ := total nodeBits (ps.filter PacketNode.revertFlag)

/-! ### The books of the client -/

/-- The states in the middle of `pkt_handling`: after the buffer was updated, and after the first
packet of the burst was looked for. -/
def handleParts (s : ClientState) (dciAll : ℕ → NgscopeDci) (newDlReTx : Bool) (nofCell : ℕ) :
    Option (ClientState × ClientState) :=
  let nofPkt := ngscopeListLength s.pktList
  let offset := dciPktOffset (ngscopeListGetReTx s.pktList nofPkt) dciAll newDlReTx nofCell
  let dciAll := ngscopeDciSyncMultiCell dciAll nofCell offset
  (handleReTx s dciAll newDlReTx nofCell).bind fun t =>
    (handleBurstStart t (pktRxTUs s.pktList nofPkt) (pktOnewayUs s.pktList nofPkt)
      (dciAll 0).caHeader).map fun u => (t, u)

theorem pktHandling_eq (s : ClientState) (dciAll : ℕ → NgscopeDci) (newDlReTx : Bool)
    (nofCell : ℕ) : pktHandling s dciAll newDlReTx nofCell =
      (handleParts s dciAll newDlReTx nofCell).map fun r => handleRevert r.2 := by
  rw [pktHandling, handleParts]
  simp only [Option.map_bind, Option.map_map, Function.comp_def]

/-- What an action adds up to, from the states in the middle of the handling. -/
def onHandle (f : ClientState → ClientState → ClientState → ℤ) (s : ClientState) :
    ClientAction → ℤ
  | .handle dciAll newDlReTx nofCell =>
    (handleParts s dciAll newDlReTx nofCell).elim 0 fun r => f s r.1 r.2
  | .enqueue _ _ _ | .send _ _ _ => 0

/-- The bits that retransmissions add to the buffer. -/
def bitsGranted : ClientState → ClientAction → ℤ :=
  onHandle fun s t _ => t.reTxBuffer.bufSize-s.reTxBuffer.bufSize

/-- The bits that are lost when the first packet of a burst is not found. -/
def bitsLost : ClientState → ClientAction → ℤ :=
  onHandle fun _ t u => t.reTxBuffer.bufSize-u.reTxBuffer.bufSize

/-- The bursts that the packets have drained. -/
def burstsDrained : ClientState → ClientAction → ℤ :=
  onHandle fun _ _ u =>
    if u.reTxBuffer.bufferActive ∧ (handleRevert u).reTxBuffer.bufferActive = false then 1 else 0

/-! ### The walk over the list -/

theorem rewrittenBits_append (ps qs : List PacketNode) :
    rewrittenBits (ps ++ qs) = rewrittenBits ps+rewrittenBits qs := by
  rw [rewrittenBits, List.filter_append, total_append, rewrittenBits, rewrittenBits]

theorem rewrittenBits_perm {ps qs : List PacketNode} (h : ps.Perm qs) :
    rewrittenBits ps = rewrittenBits qs := ((h.filter _).map _).sum_eq

/-- Only the flags and the lengths matter. -/
theorem rewrittenBits_eq_map (ps : List PacketNode) : rewrittenBits ps =
    (((ps.map fun p => (p.revertFlag, nodeBits p)).filter Prod.fst).map Prod.snd).sum := by
  simp [rewrittenBits, total, List.filter_map, Function.comp_def]

theorem nodeBits_rewriteNode (q : NgscopeReorderingBuf) (p : PacketNode) :
    nodeBits (rewriteNode q p) = nodeBits p := by
  rw [rewriteNode]
  split_ifs
  · rfl
  · rfl

/-- The walk adds the bits of those it rewrites. -/
theorem rewrittenBits_rewriteNode (q : NgscopeReorderingBuf) (ps : List PacketNode) :
    rewrittenBits (ps.map (rewriteNode q)) =
      rewrittenBits ps+total nodeBits (ps.filter (isRevertible q)) := by
  induction ps with
  | nil => rfl
  | cons p ps ih =>
    have hcons (x : PacketNode) (xs : List PacketNode) : rewrittenBits (x :: xs) =
        (if x.revertFlag then nodeBits x else 0)+rewrittenBits xs := by
      rw [rewrittenBits, List.filter_cons]
      split_ifs
      · rw [total_cons, rewrittenBits]
      · rw [rewrittenBits, Nat.zero_add]
    rw [List.map_cons, hcons, hcons, ih, nodeBits_rewriteNode, List.filter_cons]
    by_cases hp : isRevertible q p = true
    · -- it was not rewritten before
      have hbefore : p.revertFlag = false := by
        rw [isRevertible, Bool.and_eq_true, Bool.not_eq_true'] at hp
        exact hp.2
      have hafter : (rewriteNode q p).revertFlag = true := by rw [rewriteNode, if_pos hp]
      rw [if_pos hp, if_pos hafter, total_cons, hbefore, if_neg Bool.false_ne_true]
      omega
    · rw [if_neg hp, rewriteNode_of_not (Bool.not_eq_true _ ▸ hp)]
      omega

/-- The bits that the walk takes out, and by how much it takes too many. -/
theorem revertDelay_bits {q : NgscopeReorderingBuf} (ps : List PacketNode)
    (hactive : q.bufferActive = true) (hpos : 0 < q.bufSize) {most : ℕ}
    (hmost : ∀ p ∈ ps, nodeBits p ≤ most) :
    let r := ngscopeListRevertDelay ps q
    let drained : ℤ := if r.2.bufferActive = false then 1 else 0
    (rewrittenBits ps:ℤ)+q.bufSize ≤ rewrittenBits r.1+r.2.bufSize ∧
      rewrittenBits r.1+r.2.bufSize ≤ rewrittenBits ps+q.bufSize+(most-1 : ℕ)*drained := by
  intro r drained
  obtain ⟨pre, post, hwalk⟩ := exists_walkStops ps hactive hpos
  have hlist : rewrittenBits r.1 =
      rewrittenBits ps+total nodeBits (pre.filter (isRevertible q)) := by
    rw [show r.1 = _ from hwalk.list, rewrittenBits_append, rewrittenBits_rewriteNode,
      hwalk.split, rewrittenBits_append]
    omega
  have htotal : (total nodeBits (pre.filter (isRevertible q)):ℤ) ≤ q.bufSize+(most-1 : ℕ) :=
    hwalk.drains.total_le hpos (fun p hp => hmost p (List.mem_of_mem_filter hp))
  have hbuf : r.2 = chargeBuf q (total nodeBits (pre.filter (isRevertible q))) := hwalk.buf
  rw [chargeBuf] at hbuf
  by_cases hall : q.bufSize ≤ total nodeBits (pre.filter (isRevertible q))
  · rw [if_pos hall] at hbuf
    have hone : drained = 1 := if_pos (by rw [hbuf]; rfl)
    have hzero : r.2.bufSize = 0 := by rw [hbuf]; rfl
    rw [hone, hzero, hlist]
    push_cast
    omega
  · rw [if_neg hall] at hbuf
    have hnone : drained = 0 := if_neg (by rw [hbuf, hactive]; decide)
    have hsize : r.2.bufSize =
        q.bufSize-total nodeBits (pre.filter (isRevertible q)) := by rw [hbuf]
    rw [hnone, hsize, hlist]
    push_cast
    omega

/-! ### Steps -/

/-- What the books balance: the bits rewritten so far and those in the buffer. -/
def bitsBooked (s : ClientState) : ℤ := rewrittenBits s.packets+s.reTxBuffer.bufSize

/-- A packet that is handed to the client has at most `m` bytes. -/
def ClientAction.Within (m : ℕ) : ClientAction → Prop
  | .enqueue _ received _ => received.toNat ≤ m
  | _ => True

instance (m : ℕ) : DecidablePred (ClientAction.Within m)
  | .enqueue _ received _ => inferInstanceAs (Decidable (received.toNat ≤ m))
  | .handle _ _ _ | .send _ _ _ => isTrue trivial

structure BooksInv (m : ℕ) (s : ClientState) : Prop where
  echoInv : EchoInv s
  consistent : s.reTxBuffer.Consistent
  within : ∀ p ∈ s.packets, p.recvLenByte.toNat ≤ m

variable {m : ℕ} {s t : ClientState}

theorem BooksInv.nodeBits_le (h : BooksInv m s) {p : PacketNode} (hp : p ∈ s.packets) :
    nodeBits p ≤ 8*m := by
  have hmul : nodeBits p = p.recvLenByte.toNat*8%2^32 := UInt32.toNat_mul p.recvLenByte 8
  have hlen := h.within p hp
  have hmod := Nat.mod_le (p.recvLenByte.toNat*8) (2^32)
  omega

theorem booksInv_init (lastTxPktTUs : UInt64) : BooksInv m (clientInit lastTxPktTUs) where
  echoInv := echoInv_init lastTxPktTUs
  consistent := consistent_initBuf
  within := fun _ hp => absurd hp List.not_mem_nil

/-- A new packet was not rewritten yet. -/
theorem bitsBooked_enqueue (h : BooksInv m s) (header : TCPHeader) (received : UInt32)
    (recvTimeNs : UInt64) :
    bitsBooked (enqueuePkt s header received recvTimeNs) = bitsBooked s := by
  have hbuf : (enqueuePkt s header received recvTimeNs).reTxBuffer = s.reTxBuffer := by
    rw [enqueuePkt]
    split
    · rfl
    · rfl
  have hnew : rewrittenBits [packetNode s.nextNode header received recvTimeNs] = 0 := rfl
  rw [bitsBooked, bitsBooked, hbuf,
    rewrittenBits_perm (enqueuePkt_packets h.echoInv header received recvTimeNs),
    rewrittenBits_append, hnew, Nat.add_zero]

theorem sendPktList_packets_map {β : Type*} (f : PacketNode → β)
    (hf : ∀ p header, f { p with tcpHeader := header, acked := true } = f p) (s : ClientState)
    (currTUs : UInt64) (goExit : ℕ → Bool) (stale : TCPHeader) :
    (sendPktList s currTUs goExit stale).packets.map f = s.packets.map f := by
  have hevicted : (sendPktList s currTUs goExit stale).evicted = s.evicted :=
    sendPktList_filterMap _ (fun _ _ => rfl) (fun _ _ => rfl) (fun _ => rfl) s currTUs goExit stale
  have hdropped : (sendPktList s currTUs goExit stale).dropped = s.dropped :=
    sendPktList_filterMap _ (fun _ _ => rfl) (fun _ _ => rfl) (fun _ => rfl) s currTUs goExit stale
  rw [ClientState.packets, ClientState.packets, hevicted, hdropped,
    (sendPktList_pktList s currTUs goExit stale).2]
  simp only [List.map_append, sendPktLoop_map _ _ _ f hf]

theorem bitsBooked_send (s : ClientState) (currTUs : UInt64) (goExit : ℕ → Bool)
    (stale : TCPHeader) : bitsBooked (sendPktList s currTUs goExit stale) = bitsBooked s := by
  have hbuf : (sendPktList s currTUs goExit stale).reTxBuffer = s.reTxBuffer := by
    rw [sendPktList]
    split
    · rfl
    · extract_lets r lastTx
      split
      · rfl
      · rfl
  rw [bitsBooked, bitsBooked, hbuf, rewrittenBits_eq_map, rewrittenBits_eq_map,
    sendPktList_packets_map _ (fun _ _ => rfl)]

/-- The parts before the walk leave the list and the events as they are. -/
theorem handleParts_frame {dciAll : ℕ → NgscopeDci} {newDlReTx : Bool} {nofCell : ℕ}
    {u v : ClientState} (h : handleParts s dciAll newDlReTx nofCell = some (u, v))
    (hs : s.reTxBuffer.Consistent) : v.packets = s.packets ∧ v.reTxBuffer.Consistent := by
  obtain ⟨t, ht, hrest⟩ := Option.bind_eq_some_iff.mp h
  obtain ⟨w, hw, heq⟩ := Option.map_eq_some_iff.mp hrest
  obtain ⟨rfl, rfl⟩ := Prod.mk.inj heq
  obtain ⟨as, has⟩ := handleReTx_bufStep ht
  obtain ⟨bs, hbs⟩ := handleBurstStart_bufStep hw
  have hpackets : t.packets = s.packets := by
    rw [handleReTx] at ht
    split at ht
    · obtain ⟨r, _, rfl⟩ := Option.map_eq_some_iff.mp ht
      rfl
    · cases ht
      rfl
  refine ⟨?_, ?_⟩
  · rw [← hpackets]
    unfold handleBurstStart at hw
    extract_lets index at hw
    split_ifs at hw
    · obtain ⟨r, _, rfl⟩ := Option.map_eq_some_iff.mp hw
      rfl
    · cases hw
      rfl
    · cases hw
      rfl
    · cases hw
      rfl
  · rw [hbs, has]
    exact consistent_foldl_bufStep bs (consistent_foldl_bufStep as hs)

/-- What the walk takes out of the buffer is what the packets are rewritten for. -/
theorem bitsBooked_handleRevert (h : s.reTxBuffer.Consistent) {most : ℕ}
    (hmost : ∀ p ∈ s.packets, nodeBits p ≤ most) :
    let drained : ℤ := if s.reTxBuffer.bufferActive ∧
      (handleRevert s).reTxBuffer.bufferActive = false then 1 else 0
    bitsBooked s ≤ bitsBooked (handleRevert s) ∧
      bitsBooked (handleRevert s) ≤ bitsBooked s+(most-1 : ℕ)*drained := by
  intro drained
  by_cases hguard : s.reTxBuffer.ready ∧ s.reTxBuffer.bufferActive ∧ s.reTxBuffer.startPktFound
  · have hactive : s.reTxBuffer.bufferActive = true := hguard.2.1
    have hrevert : handleRevert s = { s with
        pktList := (ngscopeListRevertDelay s.pktList s.reTxBuffer).1
        reTxBuffer := (ngscopeListRevertDelay s.pktList s.reTxBuffer).2 } := if_pos hguard
    obtain ⟨hlow, hhigh⟩ := revertDelay_bits s.pktList hactive (h.size_pos hactive)
      (fun p hp => hmost p (List.mem_append_left _ (List.mem_append_left _ hp)))
    have hdrained : drained =
        if (ngscopeListRevertDelay s.pktList s.reTxBuffer).2.bufferActive = false then 1
        else 0 := by
      apply if_congr _ rfl rfl
      rw [hrevert]
      exact and_iff_right hactive
    have hbits (x : ClientState) : bitsBooked x = rewrittenBits x.pktList+
        rewrittenBits (x.evicted ++ x.dropped)+x.reTxBuffer.bufSize := by
      rw [bitsBooked, ClientState.packets, List.append_assoc, rewrittenBits_append, Nat.cast_add]
    have hother :
        (handleRevert s).evicted ++ (handleRevert s).dropped = s.evicted ++ s.dropped := by
      rw [hrevert]
      rfl
    rw [hdrained, hbits (handleRevert s), hbits s, hother, hrevert]
    dsimp only
    constructor
    · omega
    · omega
  · have hsame : handleRevert s = s := if_neg hguard
    have hnone : drained = 0 := by
      apply if_neg
      rw [hsame]
      intro hboth
      exact absurd (hboth.1.symm.trans hboth.2) (by decide)
    rw [hsame, hnone, mul_zero, add_zero]
    exact ⟨le_rfl, le_rfl⟩

/-- One step changes what is booked by what it grants, less what it loses, and by what the packet
that drains a burst takes too much. -/
theorem bitsBooked_step (h : BooksInv m s) {a : ClientAction} (ht : clientStep s a = some t) :
    bitsBooked s+(bitsGranted s a+(-1)*bitsLost s a) ≤ bitsBooked t ∧
      bitsBooked t ≤ bitsBooked s+
        (bitsGranted s a+(-1)*bitsLost s a+(8*m-1 : ℕ)*burstsDrained s a) := by
  cases a with
  | enqueue header received recvTimeNs =>
    cases ht
    rw [bitsBooked_enqueue h, bitsGranted, bitsLost, burstsDrained, onHandle, onHandle, onHandle]
    omega
  | send currTUs goExit stale =>
    cases ht
    rw [bitsBooked_send, bitsGranted, bitsLost, burstsDrained, onHandle, onHandle, onHandle]
    omega
  | handle dciAll newDlReTx nofCell =>
    have hparts := ht
    rw [clientStep, pktHandling_eq] at hparts
    obtain ⟨⟨u, v⟩, huv, rfl⟩ := Option.map_eq_some_iff.mp hparts
    obtain ⟨hpackets, hconsistent⟩ := handleParts_frame huv h.consistent
    obtain ⟨hlow, hhigh⟩ := bitsBooked_handleRevert hconsistent
      (fun p hp => h.nodeBits_le (hpackets ▸ hp))
    have hv : bitsBooked v = bitsBooked s+
        (u.reTxBuffer.bufSize-s.reTxBuffer.bufSize)-
          (u.reTxBuffer.bufSize-v.reTxBuffer.bufSize) := by
      rw [bitsBooked, bitsBooked, hpackets]
      omega
    rw [bitsGranted, bitsLost, burstsDrained, onHandle, onHandle, onHandle, huv]
    simp only [Option.elim_some]
    constructor
    · omega
    · omega

theorem booksInv_step (h : BooksInv m s) {a : ClientAction} (ha : a.Within m)
    (ht : clientStep s a = some t) : BooksInv m t := by
  obtain ⟨as, has⟩ := clientStep_bufStep ht
  refine ⟨(echoInv_step h.echoInv ht).1, ?_, ?_⟩
  · rw [has]
    exact consistent_foldl_bufStep as h.consistent
  -- no step changes the length of a packet
  have hwithin : ∀ n ∈ t.packets.map PacketNode.recvLenByte, n.toNat ≤ m := by
    have hs : ∀ n ∈ s.packets.map PacketNode.recvLenByte, n.toNat ≤ m :=
      List.forall_mem_map.mpr h.within
    cases a with
    | enqueue header received recvTimeNs =>
      cases ht
      intro n hn
      have hperm := (enqueuePkt_packets h.echoInv header received recvTimeNs).map
        PacketNode.recvLenByte
      rcases List.mem_append.mp (List.map_append ▸ hperm.subset hn) with hold | hnew
      · exact hs n hold
      · rw [List.mem_singleton.mp hnew]
        exact ha
    | send currTUs goExit stale =>
      cases ht
      rw [sendPktList_packets_map _ (fun _ _ => rfl)]
      exact hs
    | handle dciAll newDlReTx nofCell =>
      obtain ⟨hevents, _, hlist⟩ := pktHandling_frame ht
      have hmap : t.pktList.map PacketNode.recvLenByte =
          s.pktList.map PacketNode.recvLenByte := by
        rcases hlist with hsame | ⟨q, hwalk⟩
        · rw [hsame]
        · rw [hwalk, revertDelay_map _ (fun _ _ _ => rfl)]
      have hpackets : t.packets.map PacketNode.recvLenByte =
          s.packets.map PacketNode.recvLenByte := by
        rw [ClientState.packets, ClientState.packets, ClientState.evicted, ClientState.dropped,
          hevents, List.map_append, List.map_append, hmap, ← List.map_append, ← List.map_append]
        rfl
      rw [hpackets]
      exact hs
  exact List.forall_mem_map.mp hwithin

/-! ### Runs -/

/-- In every run of the client the packets are rewritten for what retransmissions have added to the
buffer, less what is still in it and what was lost with bursts given up; only the packet that drains
a burst may take more. -/
theorem client_rewrites_what_is_granted {lastTxPktTUs : UInt64} {as : List ClientAction}
    (hwithin : ∀ a ∈ as, a.Within m) (h : run clientStep (clientInit lastTxPktTUs) as = some s) :
    let sum cost := runTotal clientStep cost (clientInit lastTxPktTUs) as
    sum bitsGranted ≤ rewrittenBits s.packets+s.reTxBuffer.bufSize+sum bitsLost ∧
      rewrittenBits s.packets+s.reTxBuffer.bufSize+sum bitsLost ≤
        sum bitsGranted+(8*m-1 : ℕ)*sum burstsDrained := by
  intro sum
  have hmeets := (runMeets_actions_iff clientStep (ClientAction.Within m) h).mpr hwithin
  have hstep : ∀ s a t, BooksInv m s → a.Within m → clientStep s a = some t →
      bitsBooked s+(bitsGranted s a+(-1)*bitsLost s a) ≤ bitsBooked t ∧
        bitsBooked t ≤ bitsBooked s+
          (bitsGranted s a+(-1)*bitsLost s a+(8*m-1 : ℕ)*burstsDrained s a) :=
    fun _ _ _ hs _ ht => bitsBooked_step hs ht
  have hbooks := potential_between clientStep (fun _ _ _ hs ha ht => booksInv_step hs ha ht) hstep
    (booksInv_init lastTxPktTUs) hmeets h
  have hstart : bitsBooked (clientInit lastTxPktTUs) = 0 := rfl
  rw [hstart, zero_add, zero_add, runTotal_add_mul, runTotal_add_mul, runTotal_add_mul,
    bitsBooked] at hbooks
  obtain ⟨hlow, hhigh⟩ := hbooks
  simp only [sum]
  constructor
  · omega
  · omega

/-- Six packets, of which the last four come 10 ms later and with 10 ms more delay, and a
retransmission at that time. -/
def burstActions : List ClientAction :=
  let packet (recvTUs delayUs : UInt64) : ClientAction :=
    .enqueue { plainHeader with txTimestamp := (recvTUs-delayUs)*1000 } 1500 (recvTUs*1000)
  [packet 1000000 20000, packet 1000100 20000, packet 1010000 30000, packet 1010100 30000,
    packet 1010200 30000, packet 1010300 30000, .handle (fun _ => reTxDci) true 1]

/-- Four packets are rewritten for the 46080 bits of one retransmission. -/
theorem client_rewrites_what_is_granted_burstActions :
    ∃ s, run clientStep (clientInit 0) burstActions = some s ∧
      rewrittenBits s.packets = 48000 ∧
      runTotal clientStep bitsGranted (clientInit 0) burstActions = 46080 ∧
      rewrittenBits s.packets+s.reTxBuffer.bufSize+
          runTotal clientStep bitsLost (clientInit 0) burstActions ≤
        runTotal clientStep bitsGranted (clientInit 0) burstActions+
          (8*1500-1 : ℕ)*runTotal clientStep burstsDrained (clientInit 0) burstActions := by
  have hbits : (run clientStep (clientInit 0) burstActions).map
      (fun s => rewrittenBits s.packets) = some 48000 := by decide +kernel
  obtain ⟨s, hrun, hs⟩ := Option.map_eq_some_iff.mp hbits
  have hwithin : ∀ a ∈ burstActions, a.Within 1500 := by decide +kernel
  exact ⟨s, hrun, hs, by decide +kernel, (client_rewrites_what_is_granted hwithin hrun).2⟩

end CopaNgscope
