import CopaNgscope.MarkovianCCCases

/-! The packet counters of Copa. An acknowledgement erases the packets before its own as lost, and
is itself counted whether or not its packet was still there. -/
namespace CopaNgscope
open RunInvariant

namespace MarkovianCC

/-! ### One acknowledgement -/

/-- The packets an ACK counts as lost and its own are the ones it erases. -/
theorem ackLoop_numPktsLost {seqNum : ℤ} {xs : List (ℤ × PacketData)}
    (hsorted : xs.Pairwise (fun x y => x.1 < y.1)) {tmp : ℤ} {r s : MarkovianCC × Bool × Bool}
    (h : ackLoop seqNum xs tmp r = .ok s) :
    s.1.numPktsLost+(if seqNum ∈ xs.map Prod.fst then 1 else 0) =
      r.1.numPktsLost+(xs.takeWhile (fun x => x.1 ≤ seqNum)).length := by
  induction xs generalizing tmp r with
  | nil =>
    cases h
    rfl
  | cons x xs ih =>
    obtain ⟨hx, hxs⟩ := List.pairwise_cons.mp hsorted
    rw [ackLoop] at h
    split_ifs at h with htmp hgt
    · -- the loop stops before the first larger number, so nothing is erased any more
      cases h
      have hnot : seqNum ∉ (x :: xs).map Prod.fst := by
        intro hmem
        rcases List.mem_cons.mp hmem with heq | hmem
        · omega
        · obtain ⟨y, hy, rfl⟩ := List.mem_map.mp hmem
          exact absurd (hx y hy) (by omega)
      rw [if_neg hnot, List.takeWhile_cons_of_neg (by simpa using hgt)]
      rfl
    · have hrest := ih hxs h
      rw [List.takeWhile_cons_of_pos (by simpa using hgt), List.length_cons]
      -- an entry before `seqNum` is lost, the one with `seqNum` is not
      rcases Int.lt_or_eq_of_le (not_lt.mp hgt) with hlt | heq
      · have hmem : seqNum ∈ (x :: xs).map Prod.fst ↔ seqNum ∈ xs.map Prod.fst := by
          rw [List.map_cons, List.mem_cons, or_iff_right (by omega)]
        have hlost : (ackVisit r x.2 (x.1 < seqNum)).1.numPktsLost = r.1.numPktsLost+1 := by
          rw [decide_eq_true hlt]
          rfl
        simp only [hmem]
        omega
      · have hnot : seqNum ∉ xs.map Prod.fst := by
          intro hmem
          obtain ⟨y, hy, hyx⟩ := List.mem_map.mp hmem
          exact absurd (hx y hy) (by omega)
        have hlost : (ackVisit r x.2 (x.1 < seqNum)).1.numPktsLost = r.1.numPktsLost := by
          rw [decide_eq_false (by omega)]
          rfl
        rw [if_neg hnot, hlost] at hrest
        rw [if_pos (by rw [← heq]; exact List.mem_map_of_mem List.mem_cons_self)]
        omega

/-- The packets counted: acknowledged, lost and in flight. -/
def counted (q : MarkovianCC) : ℕ :=
  q.numPktsAcked+q.numPktsLost+q.unacknowledgedPackets.size

def Accounted (q : MarkovianCC) : Prop := q.counted = q.numPktsSent

instance (q : MarkovianCC) : Decidable q.Accounted := inferInstanceAs (Decidable (_ = _))

theorem eraseAcked_counted {q : MarkovianCC} {seqNum : ℤ} {r : MarkovianCC × Bool × Bool}
    (h : q.eraseAcked seqNum = .ok r) :
    r.1.counted+(if seqNum ∈ q.unacknowledgedPackets.keys then 1 else 0) = q.counted ∧
      r.1.numPktsSent = q.numPktsSent := by
  rcases eraseAcked_eq_ok h with ⟨hmem, rfl⟩ | ⟨t, hmem, ht, rfl⟩
  · rw [if_neg hmem]
    exact ⟨rfl, rfl⟩
  · have hlost := ackLoop_numPktsLost q.unacknowledgedPackets.sorted ht
    have hsize := q.unacknowledgedPackets.length_takeWhile_add_size_eraseLE seqNum
    obtain ⟨a, b, c, d, e, n, l, hframe⟩ := ackLoop_frame ht
    rw [if_pos (show seqNum ∈ q.unacknowledgedPackets.entries.map Prod.fst from hmem)] at hlost
    rw [if_pos hmem]
    have hacked : t.1.numPktsAcked = q.numPktsAcked := by rw [hframe]
    have hsent : t.1.numPktsSent = q.numPktsSent := by rw [hframe]
    refine ⟨?_, hsent⟩
    dsimp only [counted] at hlost ⊢
    omega

/-- What the counts are made of. -/
def ledger (q : MarkovianCC) : OrderedMap ℤ PacketData × ℕ × ℕ × ℕ :=
  (q.unacknowledgedPackets, q.numPktsLost, q.numPktsAcked, q.numPktsSent)

theorem ledger_updateDelta (q : MarkovianCC) (pktLost : Bool) (curRtt : ℚ) :
    (q.updateDelta pktLost curRtt).ledger = q.ledger := by
  obtain ⟨i, o, d, t, t', h⟩ := updateDelta_frame q pktLost curRtt
  rw [h]
  rfl

theorem ledger_reduceWindow (q : MarkovianCC) (reduce : Bool) :
    (q.reduceWindow reduce).ledger = q.ledger := by
  obtain ⟨l, w, i, j, h⟩ := reduceWindow_frame q reduce
  rw [h]
  rfl

theorem ledger_of_ackEntry {q e : MarkovianCC} {sentTime : ℚ} {adjustUs : ℤ}
    (h : q.AckEntry sentTime adjustUs e) : e.ledger = q.ledger := by
  obtain ⟨f, i, t, rfl⟩ := ackEntry_frame h
  rw [ledger_updateDelta]
  rfl

theorem ledger_updateIntersendTime {q r : MarkovianCC} (h : q.updateIntersendTime = .ok r) :
    r.ledger = q.ledger := by
  obtain ⟨w, s, a, p, l, c, d, i, j, rfl⟩ := updateIntersendTime_frame h
  rfl

/-- The end of `onACK` leaves the ledger as the loop over the packets in flight left it. -/
theorem ledger_reduceWindow_updateDelta (q : MarkovianCC) (pktLost reduce : Bool) :
    ((if pktLost then q.updateDelta true 0 else q).reduceWindow reduce).ledger = q.ledger := by
  rw [ledger_reduceWindow]
  split_ifs
  · exact ledger_updateDelta _ _ _
  · rfl

theorem counted_congr {q r : MarkovianCC} (h : r.ledger = q.ledger) :
    r.counted = q.counted ∧ r.numPktsSent = q.numPktsSent ∧
      r.unacknowledgedPackets = q.unacknowledgedPackets := by
  simp only [ledger, Prod.mk.injEq] at h
  obtain ⟨h1, h2, h3, h4⟩ := h
  exact ⟨by rw [counted, counted, h1, h2, h3], h4, h1⟩

/-- An ACK is counted as acknowledged in any case, so it counts one packet too many when its own
is no longer in flight. -/
theorem onACK_counted {q u : MarkovianCC} {ack : ℤ} {sentTime : ℚ} {adjustUs : ℤ}
    (h : q.onACK ack sentTime adjustUs = .ok u) :
    u.counted = q.counted+(if ack-1 ∈ q.unacknowledgedPackets.keys then 0 else 1) ∧
      u.numPktsSent = q.numPktsSent := by
  obtain ⟨e, r, hentry, hr, htail⟩ := onACK_eq_ok h
  -- nothing is counted before the loop over the packets in flight
  obtain ⟨hcount, hsent, hmap⟩ :=
    counted_congr ((ledger_updateIntersendTime hr).trans (ledger_of_ackEntry hentry))
  obtain ⟨t, ht, rfl⟩ := ackTail_eq_ok htail
  obtain ⟨herase, herased⟩ := eraseAcked_counted ht
  -- nor after it, up to the increment at the end
  have hlast := ledger_reduceWindow_updateDelta t.1 t.2.1 t.2.2
  generalize (if t.2.1 then t.1.updateDelta true 0 else t.1).reduceWindow t.2.2 = v at hlast ⊢
  obtain ⟨hcountv, hsentv, _⟩ := counted_congr hlast
  rw [hmap] at herase
  refine ⟨?_, hsentv.trans (herased.trans hsent)⟩
  simp only [counted] at hcount herase hcountv ⊢
  split_ifs at herase ⊢ <;> omega

/-- A new packet is sent and in flight. -/
theorem onPktSent_counted {q : MarkovianCC} {seqNum : ℤ}
    (hnew : seqNum ∉ q.unacknowledgedPackets.keys) :
    (q.onPktSent seqNum).counted = q.counted+1 ∧
      (q.onPktSent seqNum).numPktsSent = q.numPktsSent+1 := by
  obtain ⟨e, i, v, h⟩ := onPktSent_frame q seqNum
  have hsize := q.unacknowledgedPackets.size_insert_of_not_mem q.packetData hnew
  rw [h]
  refine ⟨?_, rfl⟩
  dsimp only [counted]
  omega

/-! ### Runs -/

/-- The callbacks of one flow after `init`. -/
def Callback.OfFlow : Callback → Prop
  | .init | .setMinRtt _ => False
  | _ => True

/-- The sequence numbers sent, in order. -/
def sentSeqs (cs : List Callback) : List ℤ :=
  cs.filterMap fun
    | .onPktSent seqNum => some seqNum
    | _ => none

/-- The packet of an ACK is in flight. -/
def AckInFlight (q : MarkovianCC) (c : Callback) : Prop :=
  ∀ ack sentTime adjustUs, c = .onACK ack sentTime adjustUs →
    ack-1 ∈ q.unacknowledgedPackets.keys

/-- An ACK takes the packets up to its own out of flight, or none when its own is not in flight. -/
theorem unacknowledgedPackets_onACK {q u : MarkovianCC} {ack : ℤ} {sentTime : ℚ} {adjustUs : ℤ}
    (h : q.onACK ack sentTime adjustUs = .ok u) :
    u.unacknowledgedPackets =
      if ack-1 ∈ q.unacknowledgedPackets.keys then q.unacknowledgedPackets.eraseLE (ack-1)
      else q.unacknowledgedPackets := by
  obtain ⟨e, r, hentry, hr, htail⟩ := onACK_eq_ok h
  obtain ⟨_, _, hmap⟩ :=
    counted_congr ((ledger_updateIntersendTime hr).trans (ledger_of_ackEntry hentry))
  obtain ⟨t, ht, rfl⟩ := ackTail_eq_ok htail
  have hlast := ledger_reduceWindow_updateDelta t.1 t.2.1 t.2.2
  rw [← hmap]
  refine (counted_congr hlast).2.2.trans ?_
  rcases eraseAcked_eq_ok ht with ⟨hmem, rfl⟩ | ⟨v, hmem, _, rfl⟩
  · exact (if_neg hmem).symm
  · exact (if_pos hmem).symm

theorem mem_keys_onACK {q u : MarkovianCC} {ack : ℤ} {sentTime : ℚ} {adjustUs k : ℤ}
    (h : q.onACK ack sentTime adjustUs = .ok u) (hk : k ∈ u.unacknowledgedPackets.keys) :
    k ∈ q.unacknowledgedPackets.keys := by
  rw [unacknowledgedPackets_onACK h] at hk
  split_ifs at hk
  · exact ((OrderedMap.mem_keys_eraseLE _ _ _).mp hk).1
  · exact hk

/-- Only sending puts a number in flight. -/
theorem mem_keys_step {q u : MarkovianCC} {c : Callback} (hc : c.OfFlow) (h : q.step c = some u)
    {k : ℤ} (hk : k ∈ u.unacknowledgedPackets.keys) :
    k ∈ q.unacknowledgedPackets.keys ∨ c = .onPktSent k := by
  cases c with
  | init => exact hc.elim
  | setMinRtt x => exact hc.elim
  | setTimestamp now => cases h; exact Or.inl hk
  | onTimeout => cases h; exact Or.inl hk
  | onPktSent seqNum =>
    cases h
    obtain ⟨e, i, v, h⟩ := onPktSent_frame q seqNum
    rw [h] at hk
    exact ((OrderedMap.mem_keys_insert _ _ _ _).mp hk).symm.imp_right (fun h => by rw [h])
  | onACK ack sentTime adjustUs =>
    exact Or.inl (mem_keys_onACK (toOption_eq_some h) hk)

/-- What the claim's runs may do: callbacks of a flow, none failing, each packet new. -/
def Sends (q : MarkovianCC) (c : Callback) : Prop :=
  c.OfFlow ∧ (∃ u, q.step c = some u) ∧
    ∀ seqNum, c = .onPktSent seqNum → seqNum ∉ q.unacknowledgedPackets.keys

theorem runMeets_sends {cs : List Callback} {q u : MarkovianCC} (hflow : ∀ c ∈ cs, c.OfFlow)
    (hnew : ∀ k ∈ q.unacknowledgedPackets.keys, k ∉ sentSeqs cs) (hnodup : (sentSeqs cs).Nodup)
    (hrun : run step q cs = some u) : RunMeets step Sends q cs := by
  induction cs generalizing q with
  | nil => trivial
  | cons c cs ih =>
    obtain ⟨v, hv, hrest⟩ := Option.bind_eq_some_iff.mp hrun
    have hc := hflow c List.mem_cons_self
    refine ⟨⟨hc, ⟨v, hv⟩, ?_⟩, fun w hw => ?_⟩
    · rintro seqNum rfl hmem
      exact hnew seqNum hmem (by simp [sentSeqs])
    · cases hv.symm.trans hw
      refine ih (fun d hd => hflow d (List.mem_cons_of_mem c hd)) (fun k hk => ?_) ?_ hrest
      · rcases mem_keys_step hc hv hk with hold | rfl
        · intro hsent
          refine hnew k hold ?_
          unfold sentSeqs at hsent ⊢
          rw [List.filterMap_cons]
          split
          · exact hsent
          · exact List.mem_cons_of_mem _ hsent
        · rw [sentSeqs, List.filterMap_cons] at hnodup
          exact (List.nodup_cons.mp hnodup).1
      · unfold sentSeqs at hnodup ⊢
        rw [List.filterMap_cons] at hnodup
        split at hnodup
        · exact hnodup
        · exact (List.nodup_cons.mp hnodup).2

/-- One callback keeps the account exactly when it is no ACK of a packet that is gone. -/
theorem accounted_step_iff {q : MarkovianCC} {c : Callback} (hq : q.Accounted)
    (hc : q.Sends c) : (∃ u, q.step c = some u ∧ u.Accounted) ↔ q.AckInFlight c := by
  obtain ⟨hflow, ⟨u, hu⟩, hnew⟩ := hc
  have hiff : (∃ v, q.step c = some v ∧ v.Accounted) ↔ u.Accounted :=
    ⟨fun ⟨v, hv, hacc⟩ => by cases hu.symm.trans hv; exact hacc, fun h => ⟨u, hu, h⟩⟩
  rw [hiff]
  unfold Accounted at hq ⊢
  cases c with
  | init => exact hflow.elim
  | setMinRtt x => exact hflow.elim
  | setTimestamp now => cases hu; exact iff_of_true hq (fun _ _ _ h => nomatch h)
  | onTimeout => cases hu; exact iff_of_true hq (fun _ _ _ h => nomatch h)
  | onPktSent seqNum =>
    cases hu
    obtain ⟨hcount, hsent⟩ := onPktSent_counted (hnew seqNum rfl)
    exact iff_of_true (by rw [hcount, hsent, hq]) (fun _ _ _ h => nomatch h)
  | onACK ack sentTime adjustUs =>
    obtain ⟨hcount, hsent⟩ := onACK_counted (toOption_eq_some hu)
    have hflight : q.AckInFlight (.onACK ack sentTime adjustUs) ↔
        ack-1 ∈ q.unacknowledgedPackets.keys :=
      ⟨fun h => h _ _ _ rfl, fun h _ _ _ heq => by cases heq; exact h⟩
    rw [hcount, hsent, hflight, hq]
    split_ifs with hmem
    · exact iff_of_true rfl hmem
    · exact iff_of_false (by omega) hmem

/-- In every flow that sends each sequence number once, the three counts add up to the number of
packets sent after every callback exactly when every ACK finds its packet in flight. -/
theorem packets_accounted_iff {cs : List Callback} {q u : MarkovianCC}
    (hflow : ∀ c ∈ cs, c.OfFlow) (hfresh : (sentSeqs cs).Nodup)
    (hrun : run step q.init cs = some u) :
    (∀ pre t, pre <+: cs → run step q.init pre = some t → t.Accounted) ↔
      RunMeets step AckInFlight q.init cs := by
  have hinit : q.init.Accounted := rfl
  have hsends := runMeets_sends hflow (q := q.init) (fun k hk => absurd hk List.not_mem_nil)
    hfresh hrun
  rw [← runShows_iff_reached step Accounted hinit hrun]
  refine runShows_iff_runMeets step Sends AckInFlight _ Accounted
    (fun q c => accounted_step_iff) (fun q c t _ _ _ h => h) cs q.init hinit hsends

instance (q : MarkovianCC) : DecidablePred q.AckInFlight
  | .onACK ack _ _ => decidable_of_iff (ack-1 ∈ q.unacknowledgedPackets.keys)
    ⟨fun h _ _ _ heq => by cases heq; exact h, fun h => h _ _ _ rfl⟩
  | .init | .setMinRtt _ | .setTimestamp _ | .onTimeout | .onPktSent _ =>
    isTrue fun _ _ _ heq => by cases heq

/-- Two packets sent, acknowledged in order. -/
def inOrderFlow : List Callback :=
  [.setTimestamp 1, .onPktSent 0, .onPktSent 1, .setTimestamp 2, .onACK 1 1 0, .onACK 2 1 0]

/-- The same flow with its ACKs in the other order. -/
def lateAckFlow : List Callback :=
  [.setTimestamp 1, .onPktSent 0, .onPktSent 1, .setTimestamp 2, .onACK 2 1 0, .onACK 1 1 0]

theorem packets_accounted_iff_in_order :
    (∀ pre t, pre <+: inOrderFlow → run step (markovianCC 1 0).init pre = some t →
      t.Accounted) ∧
    ¬ ∀ pre t, pre <+: lateAckFlow → run step (markovianCC 1 0).init pre = some t →
      t.Accounted := by
  have hinOrder := (Option.some_get (x := run step (markovianCC 1 0).init inOrderFlow)
    (by decide +kernel)).symm
  have hlate := (Option.some_get (x := run step (markovianCC 1 0).init lateAckFlow)
    (by decide +kernel)).symm
  refine ⟨?_, ?_⟩
  · apply (packets_accounted_iff (by simp [inOrderFlow, Callback.OfFlow]) (by decide) hinOrder).mpr
    decide +kernel
  · rw [packets_accounted_iff (by simp [lateAckFlow, Callback.OfFlow]) (by decide) hlate]
    decide +kernel

/-- The ACK of packet 1 counts packet 0 as lost, and its own ACK counts it once more. -/
theorem late_ack_counted_twice :
    sentSeqs lateAckFlow = [0, 1] ∧
    (run step (markovianCC 1 0).init lateAckFlow).map
      (fun q => (q.numPktsAcked, q.numPktsLost, q.unacknowledgedPackets.size, q.numPktsSent)) =
        some (2, 1, 0, 2) ∧
    (run step (markovianCC 1 0).init lateAckFlow).map (fun q => decide q.Accounted) =
      some false := by
  refine ⟨by decide, by decide +kernel, by decide +kernel⟩

end MarkovianCC

end CopaNgscope
