import Mathlib.Data.List.Pairwise
import Mathlib.Data.List.Nodup
import Mathlib.Data.List.Perm.Basic
import CopaNgscope.NgscopeClient

/-! What the client loop does to every packet: each packet is listed, evicted or left out, and
its echo is sent at most once. A packet that goes without an echo was held back. -/
namespace CopaNgscope
open RunInvariant

/-! ### What was echoed, evicted and left out -/

def ClientEvent.echoedNode : ClientEvent → Option ℕ
  | .echo n _ => some n
  | _ => none

def ClientEvent.evictedNode : ClientEvent → Option PacketNode
  | .evict p _ => some p
  | _ => none

def ClientEvent.droppedNode : ClientEvent → Option PacketNode
  | .drop p _ => some p
  | _ => none

def ClientState.echoed (s : ClientState) : List ℕ := s.events.filterMap ClientEvent.echoedNode

def ClientState.evicted (s : ClientState) : List PacketNode :=
  s.events.filterMap ClientEvent.evictedNode

def ClientState.dropped (s : ClientState) : List PacketNode :=
  s.events.filterMap ClientEvent.droppedNode

/-- All packets handed to `enqueue_pkt`. -/
def ClientState.packets (s : ClientState) : List PacketNode := s.pktList ++ s.evicted ++ s.dropped

def ackedNodes (ps : List PacketNode) : List ℕ := (ps.filter PacketNode.acked).map PacketNode.node

@[simp] theorem ackedNodes_append (ps qs : List PacketNode) :
    ackedNodes (ps ++ qs) = ackedNodes ps ++ ackedNodes qs := by
  simp [ackedNodes]

/-- Why a packet was held back, left out or freed. -/
def ClientEvent.Justified : ClientEvent → Prop
  | .echo _ _ => True
  | .hold p q => q.ready = true ∧ p.revertFlag = false ∧
      p.recvTUs.toNat ≤ q.bufLastT.toNat+10000
  | .filler _ => True
  | .drop p last => p.recvTUs < last.recvTUs
  | .evict p currTUs => p.recvTUs.toNat+1000000 < currTUs.toNat

/-- Every packet is in one place, the echoes are those of the nodes marked as acked, and the
list is in receive order. -/
structure EchoInv (s : ClientState) : Prop where
  nodes_perm : (s.packets.map PacketNode.node).Perm (List.range s.nextNode)
  echoed_perm : s.echoed.Perm (ackedNodes s.packets)
  sorted : (s.pktList.map PacketNode.recvTUs).Pairwise (· ≤ ·)
  justified : ∀ e ∈ s.events, e.Justified

theorem echoInv_init (t : UInt64) : EchoInv (clientInit t) where
  nodes_perm := List.Perm.refl []
  echoed_perm := List.Perm.refl []
  sorted := List.Pairwise.nil
  justified := by simp [clientInit]

theorem EchoInv.nodes_nodup {s : ClientState} (h : EchoInv s) :
    (s.packets.map PacketNode.node).Nodup :=
  h.nodes_perm.nodup_iff.mpr List.nodup_range

theorem EchoInv.echoed_nodup {s : ClientState} (h : EchoInv s) : s.echoed.Nodup := by
  have hsub : (ackedNodes s.packets).Sublist (s.packets.map PacketNode.node) :=
    List.filter_sublist.map _
  exact h.echoed_perm.nodup_iff.mpr (h.nodes_nodup.sublist hsub)

/-- No two packets are the same node, so the mark tells whether the packet was echoed. -/
theorem EchoInv.mem_echoed_iff {s : ClientState} (h : EchoInv s) {p : PacketNode}
    (hp : p ∈ s.packets) : p.node ∈ s.echoed ↔ p.acked = true := by
  rw [h.echoed_perm.mem_iff]
  constructor
  · intro hmem
    obtain ⟨q, hq, hnode⟩ := List.mem_map.mp hmem
    obtain ⟨hqmem, hacked⟩ := List.mem_filter.mp hq
    have hqp : q = p := List.inj_on_of_nodup_map h.nodes_nodup hqmem hp hnode
    exact hqp ▸ hacked
  · exact fun hacked => List.mem_map.mpr ⟨p, List.mem_filter.mpr ⟨hp, hacked⟩, rfl⟩

/-! ### Eviction -/

/-- The freed nodes are a prefix of the list. -/
theorem checkTimeDelay_append (currTUs : UInt64) (ps : List PacketNode) :
    (ngscopeListCheckTimeDelayWTime currTUs ps).2 ++
      (ngscopeListCheckTimeDelayWTime currTUs ps).1 = ps := by
  fun_induction ngscopeListCheckTimeDelayWTime currTUs ps with
  | case1 p q rest hold r ih => simpa using ih
  | case2 p q rest hold => rfl
  | case3 ps hne => rfl

theorem checkTimeDelay_freed {currTUs : UInt64} {ps : List PacketNode} {p : PacketNode}
    (hp : p ∈ (ngscopeListCheckTimeDelayWTime currTUs ps).2) :
    delayThdUs < currTUs-p.recvTUs := by
  fun_induction ngscopeListCheckTimeDelayWTime currTUs ps with
  | case1 x q rest hold r ih =>
    rcases List.mem_cons.mp hp with rfl | hp
    · exact hold
    · exact ih hp
  | case2 x q rest hold => cases hp
  | case3 ps hne => cases hp

/-- For a packet that was not received later the difference does not wrap. -/
theorem recvT_lt_of_delayThd {currTUs recvTUs : UInt64} (hle : recvTUs ≤ currTUs)
    (h : delayThdUs < currTUs-recvTUs) : recvTUs.toNat+1000000 < currTUs.toNat := by
  have hlt := UInt64.lt_iff_toNat_lt.mp h
  rw [UInt64.toNat_sub_of_le _ _ hle] at hlt
  change 1000000 < currTUs.toNat-recvTUs.toNat at hlt
  omega

/-! ### Insertion -/

theorem le_getLast_recvT {ps : List PacketNode} {last p : PacketNode}
    (hs : (ps.map PacketNode.recvTUs).Pairwise (· ≤ ·)) (hlast : ps.getLast? = some last)
    (hp : p ∈ ps) : p.recvTUs ≤ last.recvTUs := by
  obtain ⟨qs, rfl⟩ := List.getLast?_eq_some_iff.mp hlast
  rcases List.mem_append.mp hp with hp | hp
  · rw [List.map_append, List.pairwise_append] at hs
    exact hs.2.2 _ (List.mem_map_of_mem hp) _ (by simp)
  · rw [List.mem_singleton.mp hp]
    exact UInt64.le_refl _

theorem sorted_concat {ps : List PacketNode} {x : PacketNode}
    (hs : (ps.map PacketNode.recvTUs).Pairwise (· ≤ ·))
    (hx : ∀ p ∈ ps, p.recvTUs ≤ x.recvTUs) :
    ((ps ++ [x]).map PacketNode.recvTUs).Pairwise (· ≤ ·) := by
  rw [List.map_append, List.pairwise_append]
  refine ⟨hs, by simp, ?_⟩
  intro a ha b hb
  obtain ⟨p, hp, rfl⟩ := List.mem_map.mp ha
  obtain rfl : b = x.recvTUs := by simpa using hb
  exact hx p hp

/-- Insertion into a list in receive order: the node is left out because it is earlier than the
last one, or the nodes are split into those freed for their age and those that stay. -/
theorem insertNode_cases {ps : List PacketNode}
    (hs : (ps.map PacketNode.recvTUs).Pairwise (· ≤ ·)) (x : PacketNode) :
    (∃ last, ngscopeListInsertNodeCheckTime ps x = .dropped last ∧ x.recvTUs < last.recvTUs) ∨
    ∃ stay freed, ngscopeListInsertNodeCheckTime ps x = .inserted stay freed ∧
      freed ++ stay = ps ++ [x] ∧ (stay.map PacketNode.recvTUs).Pairwise (· ≤ ·) ∧
      ∀ p ∈ freed, p.recvTUs.toNat+1000000 < x.recvTUs.toNat := by
  cases hlast : ps.getLast? with
  | none =>
    right
    obtain rfl := List.getLast?_eq_none_iff.mp hlast
    exact ⟨[x], [], rfl, rfl, by simp, by simp⟩
  | some last =>
    by_cases hlt : x.recvTUs < last.recvTUs
    · left
      exact ⟨last, by simp [ngscopeListInsertNodeCheckTime, hlast, hlt], hlt⟩
    · right
      -- the list is in receive order, so no age difference wraps
      have hxlast : last.recvTUs ≤ x.recvTUs := UInt64.not_lt.mp hlt
      have hle : ∀ p ∈ ps, p.recvTUs ≤ x.recvTUs := fun p hp =>
        UInt64.le_trans (le_getLast_recvT hs hlast hp) hxlast
      have hsplit := checkTimeDelay_append x.recvTUs (ps ++ [x])
      have hsorted := sorted_concat hs hle
      refine ⟨_, _, by simp [ngscopeListInsertNodeCheckTime, hlast, hlt], hsplit, ?_, ?_⟩
      · rw [← hsplit, List.map_append, List.pairwise_append] at hsorted
        exact hsorted.2.1
      · intro p hp
        have hmem : p ∈ ps ++ [x] := hsplit ▸ List.mem_append_left _ hp
        have hpx : p.recvTUs ≤ x.recvTUs := by
          rcases List.mem_append.mp hmem with hps | hx
          · exact hle p hps
          · rw [List.mem_singleton.mp hx]
            exact UInt64.le_refl _
        exact recvT_lt_of_delayThd hpx (checkTimeDelay_freed hp)

theorem enqueuePkt_nextNode (s : ClientState) (header : TCPHeader) (received : UInt32)
    (recvTimeNs : UInt64) :
    (enqueuePkt s header received recvTimeNs).nextNode = s.nextNode+1 := by
  unfold enqueuePkt
  extract_lets p
  split <;> rfl

/-- The new packet joins the others, whichever way the insertion goes. -/
theorem enqueuePkt_packets {s : ClientState} (h : EchoInv s) (header : TCPHeader)
    (received : UInt32) (recvTimeNs : UInt64) :
    (enqueuePkt s header received recvTimeNs).packets.Perm
      (s.packets ++ [packetNode s.nextNode header received recvTimeNs]) := by
  rcases insertNode_cases h.sorted (packetNode s.nextNode header received recvTimeNs) with
    ⟨last, hins, _⟩ | ⟨stay, freed, hins, hsplit, _, _⟩
  · have hdropped : (enqueuePkt s header received recvTimeNs).packets =
        s.pktList ++ s.evicted ++
          (s.dropped ++ [packetNode s.nextNode header received recvTimeNs]) := by
      simp [enqueuePkt, hins, ClientState.packets, ClientState.evicted, ClientState.dropped,
        List.filterMap_cons, ClientEvent.evictedNode, ClientEvent.droppedNode]
    rw [hdropped, ← List.append_assoc]
    exact List.Perm.refl _
  · have hinserted : (enqueuePkt s header received recvTimeNs).packets =
        stay ++ (s.evicted ++ freed) ++ s.dropped := by
      simp [enqueuePkt, hins, ClientState.packets, ClientState.evicted, ClientState.dropped,
        ClientEvent.evictedNode, ClientEvent.droppedNode, List.filterMap_map, Function.comp_def]
    -- freed nodes move from the list to the evicted ones
    rw [hinserted, List.perm_iff_count]
    intro p
    have hcount := congrArg (List.count p) hsplit
    simp only [ClientState.packets, List.count_append] at hcount ⊢
    omega

theorem ackedNodes_perm {ps qs : List PacketNode} (h : ps.Perm qs) :
    (ackedNodes ps).Perm (ackedNodes qs) :=
  (h.filter _).map _

theorem echoInv_enqueue {s : ClientState} (h : EchoInv s) (header : TCPHeader)
    (received : UInt32) (recvTimeNs : UInt64) :
    EchoInv (enqueuePkt s header received recvTimeNs) := by
  have hpackets := enqueuePkt_packets h header received recvTimeNs
  set x := packetNode s.nextNode header received recvTimeNs with hx
  set t := enqueuePkt s header received recvTimeNs with ht
  have hnext : t.nextNode = s.nextNode+1 := enqueuePkt_nextNode _ _ _ _
  -- an insertion records drops and evictions only
  have hechoed : t.echoed = s.echoed := by
    rcases insertNode_cases h.sorted x with ⟨last, hins, _⟩ | ⟨stay, freed, hins, _⟩ <;>
      simp [ht, enqueuePkt, ← hx, hins, ClientState.echoed, List.filterMap_cons,
        ClientEvent.echoedNode, List.filterMap_map, Function.comp_def]
  refine ⟨?_, ?_, ?_, ?_⟩
  · rw [hnext, List.range_succ]
    refine (hpackets.map _).trans ?_
    rw [List.map_append]
    exact h.nodes_perm.append_right _
  · -- the new node is not acked
    rw [hechoed]
    refine h.echoed_perm.trans ?_
    have hnew : ackedNodes (s.packets ++ [x]) = ackedNodes s.packets := by
      simp [ackedNodes, hx, packetNode]
    rw [← hnew]
    exact (ackedNodes_perm hpackets).symm
  · rcases insertNode_cases h.sorted x with ⟨last, hins, _⟩ | ⟨stay, freed, hins, _, hstay, _⟩
    · simpa [ht, enqueuePkt, ← hx, hins] using h.sorted
    · simpa [ht, enqueuePkt, ← hx, hins] using hstay
  · intro e he
    rcases insertNode_cases h.sorted x with
      ⟨last, hins, hlt⟩ | ⟨stay, freed, hins, _, _, hfreed⟩
    · have hmem : e ∈ s.events ∨ e = .drop x last := by
        simpa [ht, enqueuePkt, ← hx, hins] using he
      rcases hmem with hold | rfl
      · exact h.justified e hold
      · exact hlt
    · have hmem : e ∈ s.events ∨ ∃ p ∈ freed, ClientEvent.evict p x.recvTUs = e := by
        simpa [ht, enqueuePkt, ← hx, hins] using he
      rcases hmem with hold | ⟨p, hp, rfl⟩
      · exact h.justified e hold
      · exact hfreed p hp

/-! ### Sending -/

/-- A packet is held only while the buffer is ready, if its delay was not rewritten, and if it
came at most 10 ms after the last retransmission. -/
theorem hold_justified {q : NgscopeReorderingBuf} {p : PacketNode} (h : txPktOrnot q p = false) :
    (ClientEvent.hold p q).Justified := by
  unfold txPktOrnot at h
  split at h
  · cases h
  next hready =>
  split at h
  · cases h
  next hrevert =>
  refine ⟨by simpa using hready, by simpa using hrevert, ?_⟩
  split at h
  · have hle : ¬q.bufLastT < p.recvTUs := of_decide_eq_false h
    rw [UInt64.lt_iff_toNat_lt] at hle
    omega
  · have hle : ¬10000 < p.recvTUs-q.bufLastT := of_decide_eq_false h
    rw [UInt64.lt_iff_toNat_lt, UInt64.toNat_sub] at hle
    have hp := p.recvTUs.toNat_lt
    have hq := q.bufLastT.toNat_lt
    change ¬10000 < _ at hle
    omega

section
variable (reTxBuffer : NgscopeReorderingBuf) (currTUs : UInt64) (goExit : ℕ → Bool)

/-- The loop writes the header and the mark only. -/
theorem sendPktLoop_map {β : Type*} (f : PacketNode → β)
    (hf : ∀ p header, f { p with tcpHeader := header, acked := true } = f p)
    (k : ℕ) (ps : List PacketNode) :
    (sendPktLoop reTxBuffer currTUs goExit k ps).1.map f = ps.map f := by
  fun_induction sendPktLoop reTxBuffer currTUs goExit k ps with
  | case1 k => rfl
  | case2 k p ps hexit => rfl
  | case3 k p ps hexit rest hacked ih => exact congrArg (f p :: ·) ih
  | case4 k p ps hexit rest hacked hsend ih => exact congrArg₂ List.cons (hf p _) ih
  | case5 k p ps hexit rest hacked hhold ih => exact congrArg (f p :: ·) ih

/-- The nodes echoed are those that the loop marks. -/
theorem sendPktLoop_acked (k : ℕ) (ps : List PacketNode) :
    (ackedNodes (sendPktLoop reTxBuffer currTUs goExit k ps).1).Perm
      (ackedNodes ps ++
        (sendPktLoop reTxBuffer currTUs goExit k ps).2.filterMap ClientEvent.echoedNode) := by
  fun_induction sendPktLoop reTxBuffer currTUs goExit k ps with
  | case1 k => exact List.Perm.refl _
  | case2 k p ps hexit => simp
  | case3 k p ps hexit rest hacked ih =>
    simpa [ackedNodes, hacked] using ih.cons p.node
  | case4 k p ps hexit rest hacked hsend ih =>
    have hmiddle : (ackedNodes (p :: ps) ++
        (ClientEvent.echo p.node (echoHeader p currTUs) :: rest.2).filterMap
          ClientEvent.echoedNode) =
        ackedNodes ps ++ p.node :: rest.2.filterMap ClientEvent.echoedNode := by
      simp [ackedNodes, hacked, ClientEvent.echoedNode]
    rw [hmiddle]
    exact (List.Perm.cons p.node ih).trans List.perm_middle.symm
  | case5 k p ps hexit rest hacked hhold ih =>
    simpa [ackedNodes, hacked, ClientEvent.echoedNode, List.filterMap_cons] using ih

/-- The loop only echoes and holds. -/
theorem sendPktLoop_events {e : ClientEvent} (k : ℕ) (ps : List PacketNode)
    (he : e ∈ (sendPktLoop reTxBuffer currTUs goExit k ps).2) :
    ∃ p ∈ ps, e = .echo p.node (echoHeader p currTUs) ∨
      e = .hold p reTxBuffer ∧ txPktOrnot reTxBuffer p = false := by
  fun_induction sendPktLoop reTxBuffer currTUs goExit k ps with
  | case1 k => cases he
  | case2 k p ps hexit => cases he
  | case3 k p ps hexit rest hacked ih =>
    obtain ⟨x, hx, hcases⟩ := ih he
    exact ⟨x, List.mem_cons_of_mem _ hx, hcases⟩
  | case4 k p ps hexit rest hacked hsend ih =>
    rcases List.mem_cons.mp he with rfl | he
    · exact ⟨p, List.mem_cons_self, .inl rfl⟩
    · obtain ⟨x, hx, hcases⟩ := ih he
      exact ⟨x, List.mem_cons_of_mem _ hx, hcases⟩
  | case5 k p ps hexit rest hacked hhold ih =>
    rcases List.mem_cons.mp he with rfl | he
    · exact ⟨p, List.mem_cons_self, .inr ⟨rfl, by simpa using hhold⟩⟩
    · obtain ⟨x, hx, hcases⟩ := ih he
      exact ⟨x, List.mem_cons_of_mem _ hx, hcases⟩

end

theorem sendPktList_pktList (s : ClientState) (currTUs : UInt64) (goExit : ℕ → Bool)
    (stale : TCPHeader) :
    (sendPktList s currTUs goExit stale).nextNode = s.nextNode ∧
      (sendPktList s currTUs goExit stale).pktList =
        (sendPktLoop s.reTxBuffer currTUs goExit 0 s.pktList).1 := by
  unfold sendPktList
  split
  next hempty => simp [hempty, sendPktLoop]
  · extract_lets r lastTx
    split <;> exact ⟨rfl, rfl⟩

/-- After the loop comes at most a filler packet. -/
theorem sendPktList_events (s : ClientState) (currTUs : UInt64) (goExit : ℕ → Bool)
    (stale : TCPHeader) :
    ∃ es, (sendPktList s currTUs goExit stale).events =
        s.events ++ ((sendPktLoop s.reTxBuffer currTUs goExit 0 s.pktList).2 ++ es) ∧
      ∀ e ∈ es, ∃ header, e = .filler header := by
  unfold sendPktList
  split
  next hempty => exact ⟨[], by simp [hempty, sendPktLoop]⟩
  · extract_lets r lastTx
    split
    · exact ⟨_, rfl, fun e he => ⟨_, List.mem_singleton.mp he⟩⟩
    · exact ⟨[], by rw [List.append_nil], by simp⟩

/-- The new events of a send. -/
theorem sendPktList_new_event {s : ClientState} {currTUs : UInt64} {goExit : ℕ → Bool}
    {stale : TCPHeader} {e : ClientEvent} (he : e ∈ (sendPktList s currTUs goExit stale).events) :
    e ∈ s.events ∨ e ∈ (sendPktLoop s.reTxBuffer currTUs goExit 0 s.pktList).2 ∨
      ∃ header, e = .filler header := by
  obtain ⟨es, hevents, hfiller⟩ := sendPktList_events s currTUs goExit stale
  rw [hevents, List.mem_append, List.mem_append] at he
  exact he.imp_right (Or.imp_right (hfiller e))

/-- A send keeps every list that no echo, hold or filler enters. -/
theorem sendPktList_filterMap {β : Type*} (f : ClientEvent → Option β)
    (hecho : ∀ n header, f (.echo n header) = none) (hhold : ∀ p q, f (.hold p q) = none)
    (hfiller : ∀ header, f (.filler header) = none) (s : ClientState) (currTUs : UInt64)
    (goExit : ℕ → Bool) (stale : TCPHeader) :
    (sendPktList s currTUs goExit stale).events.filterMap f = s.events.filterMap f := by
  obtain ⟨es, hevents, hes⟩ := sendPktList_events s currTUs goExit stale
  rw [hevents, List.filterMap_append, List.append_right_eq_self, List.filterMap_eq_nil_iff]
  intro e he
  rcases List.mem_append.mp he with he | he
  · obtain ⟨p, _, rfl | ⟨rfl, _⟩⟩ := sendPktLoop_events _ _ _ _ _ he
    · exact hecho _ _
    · exact hhold _ _
  · obtain ⟨header, rfl⟩ := hes e he
    exact hfiller header

theorem echoInv_send {s : ClientState} (h : EchoInv s) (currTUs : UInt64) (goExit : ℕ → Bool)
    (stale : TCPHeader) : EchoInv (sendPktList s currTUs goExit stale) := by
  obtain ⟨hnext, hlist⟩ := sendPktList_pktList s currTUs goExit stale
  obtain ⟨es, hevents, hfiller⟩ := sendPktList_events s currTUs goExit stale
  have hevicted : (sendPktList s currTUs goExit stale).evicted = s.evicted :=
    sendPktList_filterMap _ (fun _ _ => rfl) (fun _ _ => rfl) (fun _ => rfl) s currTUs goExit stale
  have hdropped : (sendPktList s currTUs goExit stale).dropped = s.dropped :=
    sendPktList_filterMap _ (fun _ _ => rfl) (fun _ _ => rfl) (fun _ => rfl) s currTUs goExit stale
  set t := sendPktList s currTUs goExit stale
  set ps := (sendPktLoop s.reTxBuffer currTUs goExit 0 s.pktList).1
  -- the fillers sent after the loop carry no packet
  have hechoes : es.filterMap ClientEvent.echoedNode = [] := by
    refine List.filterMap_eq_nil_iff.mpr fun e he => ?_
    obtain ⟨header, rfl⟩ := hfiller e he
    rfl
  have hpackets : t.packets = ps ++ s.evicted ++ s.dropped := by
    rw [ClientState.packets, hlist, hevicted, hdropped]
  refine ⟨?_, ?_, ?_, ?_⟩
  -- the loop keeps the nodes and their order
  · have hnodes := h.nodes_perm
    rw [ClientState.packets, List.map_append, List.map_append] at hnodes
    rwa [hnext, hpackets, List.map_append, List.map_append,
      sendPktLoop_map _ _ _ _ (fun _ _ => rfl)]
  -- what it newly echoes is what it newly marks
  · have hacked : (ackedNodes ps).Perm _ :=
      sendPktLoop_acked s.reTxBuffer currTUs goExit 0 s.pktList
    have hold := h.echoed_perm
    rw [ClientState.packets] at hold
    rw [ClientState.echoed, hevents, List.filterMap_append, List.filterMap_append, hechoes,
      List.append_nil, hpackets, List.perm_iff_count]
    intro n
    have hcount := hacked.count_eq n
    have hcountOld := hold.count_eq n
    simp only [ClientState.echoed, ackedNodes_append, List.count_append] at hcount hcountOld ⊢
    omega
  · rw [hlist, sendPktLoop_map _ _ _ _ (fun _ _ => rfl)]
    exact h.sorted
  · intro e he
    rcases sendPktList_new_event he with hold | hloop | ⟨header, rfl⟩
    · exact h.justified e hold
    · obtain ⟨p, _, rfl | ⟨rfl, hrefused⟩⟩ := sendPktLoop_events _ _ _ _ _ hloop
      · trivial
      · exact hold_justified hrefused
    · trivial

/-- The header of an echo is made from the packet as it is in the list. -/
theorem header_eq_echoHeader {s : ClientState} (h : EchoInv s) {currTUs : UInt64}
    {goExit : ℕ → Bool} {stale header : TCPHeader} {p : PacketNode} (hp : p ∈ s.pktList)
    (hacked : p.acked = false)
    (hecho : .echo p.node header ∈ (sendPktList s currTUs goExit stale).events) :
    header = echoHeader p currTUs := by
  have hmem : p ∈ s.packets := List.mem_append_left _ (List.mem_append_left _ hp)
  rcases sendPktList_new_event hecho with hold | hloop | ⟨_, heq⟩
  · have hechoed : p.node ∈ s.echoed := List.mem_filterMap.mpr ⟨_, hold, rfl⟩
    rw [h.mem_echoed_iff hmem, hacked] at hechoed
    cases hechoed
  · obtain ⟨x, hx, heq | ⟨heq, _⟩⟩ := sendPktLoop_events _ _ _ _ _ hloop
    · injection heq with hnode hheader
      have hxmem : x ∈ s.packets := List.mem_append_left _ (List.mem_append_left _ hx)
      rw [hheader, List.inj_on_of_nodup_map h.nodes_nodup hmem hxmem hnode]
    · cases heq
  · cases heq

/-- A send that runs to the end of the list comes to every packet. -/
theorem sendPktLoop_visits (reTxBuffer : NgscopeReorderingBuf) (currTUs : UInt64)
    {goExit : ℕ → Bool} (hgo : ∀ k, goExit k = false) (k : ℕ) {ps : List PacketNode}
    {x : PacketNode} (hx : x ∈ ps) :
    x.acked = true ∨
      .echo x.node (echoHeader x currTUs) ∈ (sendPktLoop reTxBuffer currTUs goExit k ps).2 ∨
      .hold x reTxBuffer ∈ (sendPktLoop reTxBuffer currTUs goExit k ps).2 := by
  fun_induction sendPktLoop reTxBuffer currTUs goExit k ps with
  | case1 k => cases hx
  | case2 k p ps hexit => simp [hgo] at hexit
  | case3 k p ps hexit rest hacked ih =>
    rcases List.mem_cons.mp hx with rfl | hx
    · exact .inl hacked
    · exact ih hx
  | case4 k p ps hexit rest hacked hsend ih =>
    rcases List.mem_cons.mp hx with rfl | hx
    · exact .inr (.inl List.mem_cons_self)
    · exact (ih hx).imp_right
        (Or.imp (List.mem_cons_of_mem _) (List.mem_cons_of_mem _))
  | case5 k p ps hexit rest hacked hhold ih =>
    rcases List.mem_cons.mp hx with rfl | hx
    · exact .inr (.inr List.mem_cons_self)
    · exact (ih hx).imp_right
        (Or.imp (List.mem_cons_of_mem _) (List.mem_cons_of_mem _))

/-! ### Rewriting delays -/

theorem revertDelay_map {β : Type*} (f : PacketNode → β)
    (hf : ∀ p q burst, f (revertNode p q burst).1 = f p) (ps : List PacketNode)
    (q : NgscopeReorderingBuf) : (ngscopeListRevertDelay ps q).1.map f = ps.map f := by
  -- one `if` block, whatever its condition
  have hstep (c : Prop) [Decidable c] (p : PacketNode) (q : NgscopeReorderingBuf) (burst : Bool) :
      f (if c then revertNode p q burst else (p, q)).1 = f p := by
    split
    · exact hf p q burst
    · rfl
  induction ps generalizing q with
  | nil => rfl
  | cons p ps ih =>
    unfold ngscopeListRevertDelay
    extract_lets r1 r2
    have hhead : f r2.1 = f p := by
      rw [show f r2.1 = f r1.1 from hstep _ _ _ _]
      exact hstep _ _ _ _
    split
    · exact congrArg (· :: ps.map f) hhead
    · exact congrArg₂ List.cons hhead (ih _)

/-- The handling touches no mark, no node and no event. -/
theorem pktHandling_frame {s t : ClientState} {dciAll : ℕ → NgscopeDci} {newDlReTx : Bool}
    {nofCell : ℕ} (h : pktHandling s dciAll newDlReTx nofCell = some t) :
    t.events = s.events ∧ t.nextNode = s.nextNode ∧
      (t.pktList = s.pktList ∨ ∃ q, t.pktList = (ngscopeListRevertDelay s.pktList q).1) := by
  unfold pktHandling at h
  obtain ⟨u, hu, hrest⟩ := Option.bind_eq_some_iff.mp h
  obtain ⟨v, hv, rfl⟩ := Option.map_eq_some_iff.mp hrest
  have hreTx : u.events = s.events ∧ u.nextNode = s.nextNode ∧ u.pktList = s.pktList := by
    unfold handleReTx at hu
    split at hu
    · obtain ⟨r, _, rfl⟩ := Option.map_eq_some_iff.mp hu
      exact ⟨rfl, rfl, rfl⟩
    · cases hu
      exact ⟨rfl, rfl, rfl⟩
  have hstart : v.events = u.events ∧ v.nextNode = u.nextNode ∧ v.pktList = u.pktList := by
    unfold handleBurstStart at hv
    split at hv
    · extract_lets index at hv
      split at hv
      · obtain ⟨r, _, rfl⟩ := Option.map_eq_some_iff.mp hv
        exact ⟨rfl, rfl, rfl⟩
      · split at hv <;> cases hv <;> exact ⟨rfl, rfl, rfl⟩
    · cases hv
      exact ⟨rfl, rfl, rfl⟩
  rw [hreTx.1, hreTx.2.1, hreTx.2.2] at hstart
  unfold handleRevert
  split
  · exact ⟨hstart.1, hstart.2.1, .inr ⟨v.reTxBuffer, by rw [← hstart.2.2]⟩⟩
  · exact ⟨hstart.1, hstart.2.1, .inl hstart.2.2⟩

theorem ackedNodes_eq_map (ps : List PacketNode) :
    ackedNodes ps = ((ps.map fun p => (p.acked, p.node)).filter Prod.fst).map Prod.snd := by
  simp [ackedNodes, List.filter_map, Function.comp_def]

theorem echoInv_handle {s t : ClientState} (h : EchoInv s) {dciAll : ℕ → NgscopeDci}
    {newDlReTx : Bool} {nofCell : ℕ} (ht : pktHandling s dciAll newDlReTx nofCell = some t) :
    EchoInv t := by
  obtain ⟨hevents, hnext, hlist⟩ := pktHandling_frame ht
  have hmap {β : Type} (f : PacketNode → β)
      (hf : ∀ p q burst, f (revertNode p q burst).1 = f p) :
      t.pktList.map f = s.pktList.map f := by
    rcases hlist with hlist | ⟨q, hlist⟩
    · rw [hlist]
    · rw [hlist, revertDelay_map f hf]
  have hacked : ackedNodes t.pktList = ackedNodes s.pktList := by
    rw [ackedNodes_eq_map, ackedNodes_eq_map, hmap _ (fun _ _ _ => rfl)]
  have hechoed : t.echoed = s.echoed := congrArg (List.filterMap _) hevents
  have hevicted : t.evicted = s.evicted := congrArg (List.filterMap _) hevents
  have hdropped : t.dropped = s.dropped := congrArg (List.filterMap _) hevents
  refine ⟨?_, ?_, ?_, ?_⟩
  · have hnodes := h.nodes_perm
    rw [ClientState.packets, List.map_append, List.map_append] at hnodes ⊢
    rwa [hnext, hmap _ (fun _ _ _ => rfl), hevicted, hdropped]
  · have hold := h.echoed_perm
    rw [ClientState.packets, ackedNodes_append, ackedNodes_append] at hold ⊢
    rwa [hechoed, hacked, hevicted, hdropped]
  · rw [hmap _ (fun _ _ _ => rfl)]
    exact h.sorted
  · rw [hevents]
    exact h.justified

/-! ### Runs -/

def ClientAction.isEnqueue : ClientAction → Bool
  | .enqueue _ _ _ => true
  | _ => false

/-- One step of the client keeps the invariant, and counts the packets enqueued. -/
theorem echoInv_step {s t : ClientState} (h : EchoInv s) {a : ClientAction}
    (ht : clientStep s a = some t) :
    EchoInv t ∧ t.nextNode = s.nextNode+[a].countP ClientAction.isEnqueue := by
  cases a with
  | enqueue header received recvTimeNs =>
    cases ht
    exact ⟨echoInv_enqueue h header received recvTimeNs, enqueuePkt_nextNode _ _ _ _⟩
  | handle dciAll newDlReTx nofCell =>
    exact ⟨echoInv_handle h ht, (pktHandling_frame ht).2.1⟩
  | send currTUs goExit stale =>
    cases ht
    exact ⟨echoInv_send h currTUs goExit stale, (sendPktList_pktList _ _ _ _).1⟩

theorem echoInv_run {actions : List ClientAction} {t : UInt64} {s : ClientState}
    (hrun : run clientStep (clientInit t) actions = some s) :
    EchoInv s ∧ s.nextNode = actions.countP ClientAction.isEnqueue := by
  refine run_history_invariant clientStep (clientInit t)
    (fun as s => EchoInv s ∧ s.nextNode = as.countP ClientAction.isEnqueue)
    ⟨echoInv_init t, rfl⟩ ?_ actions s hrun
  intro pre a u v _ hu hstep
  obtain ⟨hinv, hnext⟩ := echoInv_step hu.1 hstep
  exact ⟨hinv, by rw [hnext, hu.2, List.countP_append]⟩

theorem events_prefix_step {s t : ClientState} {a : ClientAction} (ht : clientStep s a = some t) :
    s.events <+: t.events := by
  cases a with
  | enqueue header received recvTimeNs =>
    cases ht
    unfold enqueuePkt
    extract_lets p
    split <;> exact List.prefix_append _ _
  | handle dciAll newDlReTx nofCell =>
    have hevents := (pktHandling_frame ht).1
    exact hevents ▸ List.prefix_rfl
  | send currTUs goExit stale =>
    cases ht
    obtain ⟨es, hevents, _⟩ := sendPktList_events s currTUs goExit stale
    rw [hevents]
    exact List.prefix_append _ _

theorem events_prefix_run {actions : List ClientAction} {s t : ClientState}
    (hrun : run clientStep s actions = some t) : s.events <+: t.events :=
  run_invariant clientStep (fun u => s.events <+: u.events)
    (fun _ _ _ hu hstep => hu.trans (events_prefix_step hstep)) List.prefix_rfl hrun

/-- A packet without an echo at the end was held back by every send that came to it. -/
theorem held_of_not_echoed {pre post : List ClientAction} {t currTUs : UInt64}
    {goExit : ℕ → Bool} (hgo : ∀ k, goExit k = false) {stale : TCPHeader} {s u : ClientState}
    (hrun : run clientStep (clientInit t) (pre ++ .send currTUs goExit stale :: post) = some s)
    (hpre : run clientStep (clientInit t) pre = some u) {x : PacketNode} (hx : x ∈ u.pktList)
    (hnot : x.node ∉ s.echoed) : .hold x u.reTxBuffer ∈ s.events := by
  obtain ⟨v, hv, hrest⟩ := (run_append_eq_some clientStep).mp hrun
  obtain rfl : u = v := Option.some_inj.mp (hpre.symm.trans hv)
  have hpost : run clientStep (sendPktList u currTUs goExit stale) post = some s := hrest
  have hsend := events_prefix_run hpost
  have hbefore : u.events <+: s.events :=
    (events_prefix_step (a := .send currTUs goExit stale) rfl).trans hsend
  have hloop : ∀ e ∈ (sendPktLoop u.reTxBuffer currTUs goExit 0 u.pktList).2,
      e ∈ s.events := by
    intro e he
    obtain ⟨es, hevents, _⟩ := sendPktList_events u currTUs goExit stale
    refine hsend.subset ?_
    rw [hevents]
    exact List.mem_append_right _ (List.mem_append_left _ he)
  have hecho : ∀ header, ClientEvent.echo x.node header ∉ s.events := fun header hmem =>
    hnot (List.mem_filterMap.mpr ⟨_, hmem, rfl⟩)
  -- an acked or echoed packet would be among the echoed nodes at the end
  rcases sendPktLoop_visits u.reTxBuffer currTUs hgo 0 hx with hacked | hmem | hmem
  · have hu : x.node ∈ u.echoed :=
      ((echoInv_run hpre).1.mem_echoed_iff (List.mem_append_left _
        (List.mem_append_left _ hx))).mpr hacked
    exact absurd ((hbefore.filterMap _).subset hu) hnot
  · exact absurd (hloop _ hmem) (hecho _)
  · exact hloop _ hmem

/-- In every run no packet is echoed twice; every packet is listed, evicted or left out; a packet
left out was earlier than the end of the list, an evicted one over a second old. An evicted packet
without an echo was held back by every send that ran over the list, for the reasons given. -/
theorem client_echoes_at_most_once (actions : List ClientAction) (t : UInt64) (s : ClientState)
    (hrun : run clientStep (clientInit t) actions = some s) :
    s.echoed.Nodup ∧
    ((s.pktList ++ s.evicted ++ s.dropped).map PacketNode.node).Perm
      (List.range (actions.countP ClientAction.isEnqueue)) ∧
    (∀ p ∈ s.pktList ++ s.evicted ++ s.dropped, p.node ∈ s.echoed ↔ p.acked = true) ∧
    (∀ p last, .drop p last ∈ s.events → p.recvTUs < last.recvTUs) ∧
    (∀ p currTUs, .evict p currTUs ∈ s.events → p.recvTUs.toNat+1000000 < currTUs.toNat) ∧
    (∀ pre currTUs goExit stale post u,
      actions = pre ++ .send currTUs goExit stale :: post → (∀ k, goExit k = false) →
      run clientStep (clientInit t) pre = some u →
      ∀ x ∈ u.pktList, ∀ p ∈ s.evicted, x.node = p.node → p.acked = false →
        .hold x u.reTxBuffer ∈ s.events) ∧
    (∀ p q, .hold p q ∈ s.events → q.ready = true ∧ p.revertFlag = false ∧
      p.recvTUs.toNat ≤ q.bufLastT.toNat+10000) := by
  obtain ⟨hinv, hnext⟩ := echoInv_run hrun
  refine ⟨hinv.echoed_nodup, hnext ▸ hinv.nodes_perm, fun p hp => hinv.mem_echoed_iff hp,
    fun p last hp => hinv.justified _ hp, fun p currTUs hp => hinv.justified _ hp, ?_,
    fun p q hp => hinv.justified _ hp⟩
  rintro pre currTUs goExit stale post u rfl hgo hpre x hx p hp hnode hunacked
  refine held_of_not_echoed hgo hrun hpre hx ?_
  rw [hnode, hinv.mem_echoed_iff (List.mem_append_left _ (List.mem_append_right _ hp)), hunacked]
  exact Bool.false_ne_true

def plainHeader : TCPHeader := ⟨1, 0, 0, 0, 0, 0, 0⟩

/-- One cell with two DCIs, the first of which is a retransmission. -/
def reTxDci : NgscopeDci where
  nofDci := 2
  caHeader := 1
  caTail := 0
  timeStampUs := fun i => if i = 0 then 1010000 else 1011000
  tti := fun i => UInt16.ofNat i
  currTime := 1011000
  dlDci := { UeLinkDci.zero with
    tbs := fun _ => 20000
    reTx := fun i => if i = 0 then 1 else 0
    nofReTx := 1
    reTxTUs := fun _ => 1010000 }
  ulDci := UeLinkDci.zero

/-- The retransmission makes the client hold packet 0 twice. Packet 1 comes 1 ms before it and
is left out, packet 2 comes two seconds after it. -/
def heldActions : List ClientAction :=
  [.enqueue plainHeader 1500 1000000000, .handle (fun _ => reTxDci) true 1,
    .send 1000100 (fun _ => false) plainHeader,
    .enqueue plainHeader 1500 999000000, .handle (fun _ => reTxDci) false 1,
    .send 1000200 (fun _ => false) plainHeader,
    .enqueue plainHeader 1500 3000000000]

/-- Packet 0 is freed and packet 1 left out without an echo. -/
theorem held_packet_evicted_without_echo :
    (run clientStep (clientInit 1000000) heldActions).map (fun s =>
      (s.evicted.map (fun p => (p.node, p.acked)), s.dropped.map (fun p => (p.node, p.acked)),
        s.echoed)) = some ([(0, false)], [(1, false)], []) := by
  decide +kernel

/-- The packet that came last is sent. -/
def heldThenEchoed : List ClientAction :=
  heldActions ++ [.send 3000200 (fun _ => false) plainHeader]

/-- Of the three packets one is held and evicted, one left out and one echoed. -/
theorem client_echoes_at_most_once_heldThenEchoed : ∃ s buf,
    run clientStep (clientInit 1000000) heldThenEchoed = some s ∧ s.echoed.Nodup ∧
    ((s.pktList ++ s.evicted ++ s.dropped).map PacketNode.node).Perm [0, 1, 2] ∧
    (∀ p ∈ s.pktList ++ s.evicted ++ s.dropped, p.node ∈ s.echoed ↔ p.node = 2) ∧
    (∃ p last, .drop p last ∈ s.events ∧ p.recvTUs < last.recvTUs) ∧
    (∃ p currTUs, .evict p currTUs ∈ s.events ∧ p.recvTUs.toNat+1000000 < currTUs.toNat) ∧
    .hold (packetNode 0 plainHeader 1500 1000000000) buf ∈ s.events ∧ buf.ready = true ∧
    1000000 ≤ buf.bufLastT.toNat+10000 := by
  have hrun := (Option.some_get (x := run clientStep (clientInit 1000000) heldThenEchoed)
    (by decide +kernel)).symm
  have hpre := (Option.some_get (x := run clientStep (clientInit 1000000) (heldActions.take 2))
    (by decide +kernel)).symm
  obtain ⟨hnodup, hperm, hacked, hdrop, hevict, hheld, hreasons⟩ :=
    client_echoes_at_most_once heldThenEchoed 1000000 _ hrun
  set s := (run clientStep (clientInit 1000000) heldThenEchoed).get (by decide +kernel)
  have hhold := hheld (heldActions.take 2) 1000100 (fun _ => false) plainHeader
    ((heldActions.drop 3) ++ [.send 3000200 (fun _ => false) plainHeader]) _ rfl (fun _ => rfl) hpre
    (packetNode 0 plainHeader 1500 1000000000) (by decide +kernel)
    (packetNode 0 plainHeader 1500 1000000000) (by decide +kernel) rfl rfl
  obtain ⟨hready, -, hsoon⟩ := hreasons _ _ hhold
  have hleftOut : ClientEvent.drop (packetNode 1 plainHeader 1500 999000000)
      (packetNode 0 plainHeader 1500 1000000000) ∈ s.events := by decide +kernel
  have hfreed : ClientEvent.evict (packetNode 0 plainHeader 1500 1000000000) 3000000 ∈
      s.events := by decide +kernel
  refine ⟨s, _, hrun, hnodup, hperm, ?_, ⟨_, _, hleftOut, hdrop _ _ hleftOut⟩,
    ⟨_, _, hfreed, hevict _ _ hfreed⟩, hhold, hready, hsoon⟩
  intro p hp
  rw [hacked p hp]
  have hlast : ∀ q ∈ s.pktList ++ s.evicted ++ s.dropped, q.acked = true ↔ q.node = 2 := by
    decide +kernel
  exact hlast p hp

end CopaNgscope
