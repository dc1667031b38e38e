import Mathlib.Algebra.Order.BigOperators.Group.List
import CopaNgscope.RttCorrection

/-! The packet arrays of `pkt_handling`: their length, what the fill loop of
`ngscope_list_get_reTx` writes into them, and the mean of the delays before a burst. -/
namespace CopaNgscope

/-! ### The fill loop -/

/-- What one round writes into `recv_t_us`, `oneway_us` and `delay_diff_ms`. -/
structure FillWrite where
  index : ℕ
  recvTUs : UInt64
  onewayUs : UInt64
  delayDiffMs : ℤ
deriving DecidableEq

/-- `delay_diff_ms` of two neighbours. -/
def delayDiff (lastOneway nextOneway : UInt64) : ℤ :=
  Int.tdiv (toInt (UInt64.ofNat (toLong nextOneway-toLong lastOneway).natAbs)) 1000

/-- The loop from entry `i` on, over the nodes that are left. -/
def fillLoop (listLen : ℕ) : ℕ → UInt64 → List PacketNode → List FillWrite
  | _, _, [] => []
  | i, lastOneway, p :: ps =>
    if i < listLen then
      ⟨i, p.recvTUs, p.onewayUs, delayDiff lastOneway p.onewayUs⟩ ::
        fillLoop listLen (i+1) p.onewayUs ps
    else []

/-- The writes of `ngscope_list_get_reTx`. The first node is written without a look at the
length. -/
def fillWrites (ps : List PacketNode) (listLen : ℕ) : List FillWrite :=
  match ps with
  | [] => []
  | p :: ps => ⟨0, p.recvTUs, p.onewayUs, 0⟩ :: fillLoop listLen 1 p.onewayUs ps

def getNofReTxPkt (delayDiffMs : List ℤ) : ℕ := delayDiffMs.countP (fun d => reTxDelayThd ≤ d)

theorem fillLoop_eq (listLen : ℕ) (ps : List PacketNode) (i : ℕ) (lastOneway : UInt64) :
    (fillLoop listLen i lastOneway ps).map FillWrite.index =
      List.range' i (min ps.length (listLen-i)) ∧
    (fillLoop listLen i lastOneway ps).map FillWrite.recvTUs =
      (ps.take (listLen-i)).map PacketNode.recvTUs ∧
    (fillLoop listLen i lastOneway ps).map FillWrite.onewayUs =
      (ps.take (listLen-i)).map PacketNode.onewayUs := by
  induction ps generalizing i lastOneway with
  | nil => simp [fillLoop]
  | cons p ps ih =>
    rw [fillLoop]
    split_ifs with hi
    · obtain ⟨hindex, hrecv, honeway⟩ := ih (i+1) p.onewayUs
      have hlen : listLen-i = listLen-(i+1)+1 := by omega
      rw [hlen]
      refine ⟨?_, ?_, ?_⟩
      · rw [List.map_cons, hindex, List.length_cons, Nat.add_min_add_right, List.range'_succ]
      · rw [List.map_cons, hrecv, List.take_succ_cons, List.map_cons]
      · rw [List.map_cons, honeway, List.take_succ_cons, List.map_cons]
    · have hzero : listLen-i = 0 := by omega
      simp [hzero]

/-- The indices written: the first one in any case, then as far as both the list and the length
reach. -/
theorem index_fillWrites {ps : List PacketNode} (h : ps ≠ []) (listLen : ℕ) :
    (fillWrites ps listLen).map FillWrite.index =
      0 :: List.range' 1 (min (ps.length-1) (listLen-1)) := by
  cases ps with
  | nil => exact absurd rfl h
  | cons p ps =>
    rw [fillWrites, List.map_cons, (fillLoop_eq listLen ps 1 p.onewayUs).1]
    rfl

/-- With room for one entry or more, what is written is what the arrays hold. -/
theorem fillWrites_arrays (ps : List PacketNode) {listLen : ℕ} (hlen : 0 < listLen) :
    (fillWrites ps listLen).map FillWrite.recvTUs = pktRxTUs ps listLen ∧
      (fillWrites ps listLen).map FillWrite.onewayUs = pktOnewayUs ps listLen := by
  cases ps with
  | nil => simp [fillWrites, pktRxTUs, pktOnewayUs]
  | cons p ps =>
    obtain ⟨_, hrecv, honeway⟩ := fillLoop_eq listLen ps 1 p.onewayUs
    obtain ⟨n, rfl⟩ : ∃ n, listLen = n+1 := ⟨listLen-1, by omega⟩
    rw [Nat.add_sub_cancel] at hrecv honeway
    refine ⟨?_, ?_⟩
    · rw [fillWrites, List.map_cons, hrecv, pktRxTUs, List.take_succ_cons, List.map_cons]
    · rw [fillWrites, List.map_cons, honeway, pktOnewayUs, List.take_succ_cons, List.map_cons]

/-! ### The packets taken for retransmissions -/

/-- Receive times of the nodes whose delay is 7 ms or more away from their predecessor's. -/
def reTxTimes : List PacketNode → List UInt64
  | p :: q :: ps =>
    if 7000 ≤ ((q.onewayUs.toNat:ℤ)-p.onewayUs.toNat).natAbs then q.recvTUs :: reTxTimes (q :: ps)
    else reTxTimes (q :: ps)
  | _ => []

theorem toInt_ofNat {n : ℕ} (h : n < 2147483648) : toInt (UInt64.ofNat n) = n := by
  have hfits : FitsInt (n:ℤ) := by
    constructor
    · exact le_trans (by norm_num) (Int.natCast_nonneg n)
    · norm_num
      exact_mod_cast h
  have hsize : n < UInt64.size := h.trans (by norm_num)
  unfold toInt
  rw [UInt64.toNat_ofNat_of_lt' hsize]
  exact bmod_of_fitsInt hfits

/-- Below 2^31 µs neither conversion changes the difference, and the division by 1000 keeps the
order to the threshold. -/
theorem le_delayDiff_iff {a b : UInt64} (ha : a.toNat < 2147483648) (hb : b.toNat < 2147483648) :
    reTxDelayThd ≤ delayDiff a b ↔ 7000 ≤ ((b.toNat:ℤ)-a.toNat).natAbs := by
  have hlong {x : UInt64} (hx : x.toNat < 2147483648) : toLong x = x.toNat :=
    toLong_of_lt (lt_trans hx (by decide))
  rw [delayDiff, hlong ha, hlong hb, toInt_ofNat (by omega), reTxDelayThd,
    Int.tdiv_eq_ediv_of_nonneg (Int.natCast_nonneg _)]
  omega

/-- A round of `extract_reTx_from_pkt`. -/
def takeReTxPkt (x : UInt64 × ℤ) : Option UInt64 := if reTxDelayThd ≤ x.2 then some x.1 else none

theorem takeReTxPkt_of_le {t : UInt64} {d : ℤ} (h : reTxDelayThd ≤ d) :
    takeReTxPkt (t, d) = some t :=
  if_pos h

theorem takeReTxPkt_of_not_le {t : UInt64} {d : ℤ} (h : ¬ reTxDelayThd ≤ d) :
    takeReTxPkt (t, d) = none :=
  if_neg h

/-- From the second packet on: each packet with its predecessor. -/
theorem filterMap_takeReTxPkt {p : PacketNode} {ps : List PacketNode}
    (h : ∀ x ∈ p :: ps, x.onewayUs.toNat < 2147483648) :
    ((ps.map PacketNode.recvTUs).zip
      ((((p :: ps).map PacketNode.onewayUs).zip (ps.map PacketNode.onewayUs)).map
        (fun x => delayDiff x.1 x.2))).filterMap takeReTxPkt = reTxTimes (p :: ps) := by
  induction ps generalizing p with
  | nil => rfl
  | cons q ps ih =>
    have hstep := le_delayDiff_iff (h p List.mem_cons_self)
      (h q (List.mem_cons_of_mem p List.mem_cons_self))
    have hrest := ih (fun x hx => h x (List.mem_cons_of_mem p hx))
    rw [List.map_cons, List.map_cons, List.map_cons, List.zip_cons_cons, List.map_cons,
      List.zip_cons_cons]
    by_cases hd : 7000 ≤ ((q.onewayUs.toNat:ℤ)-p.onewayUs.toNat).natAbs
    · rw [List.filterMap_cons_some (takeReTxPkt_of_le (hstep.mpr hd)), reTxTimes, if_pos hd,
        ← hrest, List.map_cons]
    · rw [List.filterMap_cons_none (takeReTxPkt_of_not_le (fun hc => hd (hstep.mp hc))),
        reTxTimes, if_neg hd, ← hrest, List.map_cons]

/-- The retransmissions found are those among the nodes the length counts. -/
theorem ngscopeListGetReTx_eq {ps : List PacketNode} (listLen : ℕ)
    (h : ∀ p ∈ ps, p.onewayUs.toNat < 2147483648) :
    ngscopeListGetReTx ps listLen = reTxTimes (ps.take listLen) := by
  have hsome : ∀ p ∈ ps.take listLen, p.onewayUs.toNat < 2147483648 :=
    fun p hp => h p (List.mem_of_mem_take hp)
  change ((((ps.take listLen).map PacketNode.recvTUs).zip
    (delayDiffMs ((ps.take listLen).map PacketNode.onewayUs))).filterMap takeReTxPkt) = _
  cases hps : ps.take listLen with
  | nil => rfl
  | cons p qs =>
    rw [hps] at hsome
    -- the first packet has no predecessor and gets difference 0
    rw [List.map_cons, List.map_cons, delayDiffMs, List.zip_cons_cons,
      List.filterMap_cons_none (takeReTxPkt_of_not_le (by decide)), ← filterMap_takeReTxPkt hsome,
      List.map_cons]
    rfl

theorem length_filterMap_takeReTxPkt {ts : List UInt64} {ds : List ℤ}
    (h : ts.length = ds.length) :
    ((ts.zip ds).filterMap takeReTxPkt).length = getNofReTxPkt ds := by
  induction ds generalizing ts with
  | nil => simp [getNofReTxPkt]
  | cons d ds ih =>
    cases ts with
    | nil => cases h
    | cons t ts =>
      have hrest := ih (Nat.succ.inj h)
      rw [getNofReTxPkt] at hrest
      rw [getNofReTxPkt, List.countP_cons, ← hrest, List.zip_cons_cons]
      by_cases hd : reTxDelayThd ≤ d
      · rw [List.filterMap_cons_some (takeReTxPkt_of_le hd), List.length_cons,
          if_pos (decide_eq_true hd)]
      · rw [List.filterMap_cons_none (takeReTxPkt_of_not_le hd),
          if_neg (fun hc => hd (of_decide_eq_true hc))]
        rfl

/-- The extraction writes as many entries as the count allocates. -/
theorem length_ngscopeListGetReTx (ps : List PacketNode) (listLen : ℕ) :
    (ngscopeListGetReTx ps listLen).length =
      getNofReTxPkt (delayDiffMs (pktOnewayUs ps listLen)) := by
  refine length_filterMap_takeReTxPkt ?_
  unfold pktRxTUs pktOnewayUs
  cases ps.take listLen with
  | nil => rfl
  | cons p qs => simp [delayDiffMs]

/-! ### The arrays of one packet -/

/-- What the arrays of `pkt_handling` are meant to be. -/
structure PacketArraysMatch (ps : List PacketNode) : Prop where
  length_eq : ngscopeListLength ps = ps.length
  inBounds : ∀ w ∈ fillWrites ps (ngscopeListLength ps), w.index < ngscopeListLength ps
  recv_eq : (fillWrites ps (ngscopeListLength ps)).map FillWrite.recvTUs =
    ps.map PacketNode.recvTUs
  oneway_eq : (fillWrites ps (ngscopeListLength ps)).map FillWrite.onewayUs =
    ps.map PacketNode.onewayUs
  reTx_eq : ngscopeListGetReTx ps (ngscopeListLength ps) = reTxTimes ps
  nofReTx_eq : getNofReTxPkt (delayDiffMs (pktOnewayUs ps (ngscopeListLength ps))) =
    (reTxTimes ps).length

/-- The length leaves the last node out, so the property fails for every list; with a single
node the first write is already outside the arrays. -/
theorem packet_arrays_never_match {ps : List PacketNode} (h : ps ≠ []) :
    ¬ PacketArraysMatch ps ∧ ngscopeListLength ps+1 = ps.length ∧
      ((∀ w ∈ fillWrites ps (ngscopeListLength ps), w.index < ngscopeListLength ps) ↔
        2 ≤ ps.length) ∧
      pktRxTUs ps (ngscopeListLength ps) = ps.dropLast.map PacketNode.recvTUs ∧
      pktOnewayUs ps (ngscopeListLength ps) = ps.dropLast.map PacketNode.onewayUs := by
  have hpos : 0 < ps.length := List.length_pos_iff.mpr h
  have hlen : ngscopeListLength ps+1 = ps.length := by
    unfold ngscopeListLength
    omega
  have htake : ps.take (ngscopeListLength ps) = ps.dropLast := List.dropLast_eq_take.symm
  refine ⟨fun hmatch => ?_, hlen, ?_, ?_, ?_⟩
  · have heq := hmatch.length_eq
    omega
  · have hindex := index_fillWrites h (ngscopeListLength ps)
    constructor
    · intro hall
      have hmem : 0 ∈ (fillWrites ps (ngscopeListLength ps)).map FillWrite.index := by
        rw [hindex]
        exact List.mem_cons_self
      obtain ⟨w, hw, hzero⟩ := List.mem_map.mp hmem
      have hlt := hall w hw
      omega
    · intro htwo w hw
      have hmem := List.mem_map_of_mem (f := FillWrite.index) hw
      rw [hindex, List.mem_cons, List.mem_range'_1] at hmem
      omega
  · rw [pktRxTUs, htake]
  · rw [pktOnewayUs, htake]

/-- The header of a packet with sequence number 0. -/
def firstHeader : TCPHeader := ⟨0, 0, 7, 0, 1000000, 0, 0⟩

theorem packet_arrays_never_match_one :
    ¬ PacketArraysMatch [packetNode 0 firstHeader 1440 3000000] ∧
      ngscopeListLength [packetNode 0 firstHeader 1440 3000000]+1 = 1 ∧
      ((∀ w ∈ fillWrites [packetNode 0 firstHeader 1440 3000000]
          (ngscopeListLength [packetNode 0 firstHeader 1440 3000000]),
        w.index < ngscopeListLength [packetNode 0 firstHeader 1440 3000000]) ↔ 2 ≤ 1) ∧
      pktRxTUs [packetNode 0 firstHeader 1440 3000000]
        (ngscopeListLength [packetNode 0 firstHeader 1440 3000000]) = [] ∧
      pktOnewayUs [packetNode 0 firstHeader 1440 3000000]
        (ngscopeListLength [packetNode 0 firstHeader 1440 3000000]) = [] :=
  packet_arrays_never_match (List.cons_ne_nil _ _)

/-- The list of the first packet has one node and length 0. -/
theorem packet_arrays_first_packet :
    ¬ ∀ pkts : List (TCPHeader × UInt32 × UInt64),
      (pkts.foldl (fun s x => enqueuePkt s x.1 x.2.1 x.2.2) (clientInit 0)).pktList ≠ [] →
        PacketArraysMatch
          (pkts.foldl (fun s x => enqueuePkt s x.1 x.2.1 x.2.2) (clientInit 0)).pktList := by
  intro hall
  have hmatch := hall [(firstHeader, 1440, 3000000)] (List.cons_ne_nil _ _)
  exact absurd hmatch.length_eq (by decide)

/-! ### The reference delay -/

/-- The delays immediately before `index`, at most `len` of them. -/
def delaysBefore (oneway : List UInt64) (index len : ℕ) : List ℕ :=
  ((oneway.take index).drop (index-len)).map UInt64.toNat

/-- The mean is computed, and it is the floored mean of the delays before `index`. -/
def RefDelayRight (oneway : List UInt64) (index len : ℕ) : Prop :=
  ∃ r, ngscopeListAveOneway oneway index len = some r ∧
    r.toNat = (delaysBefore oneway index len).sum/min len index

/-- Both loops stop one element early: they add up the delays before `index` but the last. -/
theorem ngscopeListAveOneway_eq {oneway : List UInt64} {index len : ℕ} (hlen : 0 < len)
    (h : index ≤ oneway.length) :
    ngscopeListAveOneway oneway index len =
      if min len index ≤ 1 then none
      else some (sumArrayUint64 ((oneway.take (index-1)).drop (index-len))/
        UInt64.ofNat (min len index-1)) := by
  have hread (i n : ℕ) (hin : i+n ≤ oneway.length) :
      (List.range n).map (fun k => oneway.getD (i+k) 0) = (oneway.drop i).take n := by
    apply List.ext_getElem
    · simp only [List.length_map, List.length_range, List.length_take, List.length_drop]
      omega
    · intro k hk _
      rw [List.length_map, List.length_range] at hk
      simp [List.getD_eq_getElem?_getD,
        List.getElem?_eq_getElem (show i+k < oneway.length by omega)]
  have hdrop : (oneway.take (index-1)).drop (index-len) =
      (oneway.drop (index-len)).take (min len index-1) := by
    rw [List.drop_take]
    congr 1
    omega
  rw [hdrop, ← hread _ _ (by omega)]
  unfold ngscopeListAveOneway
  extract_lets is
  have his : is = (List.range (min len index-1)).map (fun k => index-len+k) := by
    unfold is
    split_ifs with hlt
    · rw [show min len index-1 = index-1 by omega, show index-len = 0 by omega]
      simp
    · rw [show min len index-1 = len-1 by omega]
  have hcount : is.length = min len index-1 := by
    rw [his, List.length_map, List.length_range]
  rw [hcount, his, List.map_map]
  split_ifs with h0 h1 h1
  · rfl
  · omega
  · omega
  · rfl

/-- One more number leaves a floored mean unchanged when it makes up for the remainder without
adding a whole unit for each. -/
theorem div_eq_add_div_iff {n : ℕ} (hn : 0 < n) (s a : ℕ) :
    s/n = (s+a)/(n+1) ↔ s/n ≤ s%n+a ∧ s%n+a < s/n+n+1 := by
  have hs := Nat.div_add_mod s n
  have hlow : s/n*(n+1) = n*(s/n)+s/n := by ring
  rw [eq_comm, Nat.div_eq_iff (Nat.succ_pos n), Nat.succ_eq_add_one, hlow]
  omega

/-- After a wrap the sum is too small for the mean of at most four delays to come out right. -/
theorem mod_div_ne_of_wrap {n : ℕ} (hn : 0 < n) (hn4 : n ≤ 4) {s : ℕ} (hs : s ≤ n*(2^64-1))
    (hwrap : 2^64 ≤ s) (a : ℕ) : s%2^64/n ≠ (s+a)/(n+1) := by
  obtain rfl | rfl | rfl | rfl : n = 1 ∨ n = 2 ∨ n = 3 ∨ n = 4 := by omega
  all_goals omega

/-- `s` adds up the delays before `index` but the last, and `last` is that one: there are two
packets before the burst, the sum does not wrap, and the mean of the others stays the mean
with the last delay. -/
def RefDelayOk (oneway : List UInt64) (index : ℕ) : Prop :=
  let n := min 5 index-1
  let s := (delaysBefore oneway index 5).dropLast.sum
  let last := (oneway.getD (index-1) 0).toNat
  2 ≤ index ∧ s < 2^64 ∧ s/n ≤ s%n+last ∧ s%n+last < s/n+n+1

theorem dropLast_delaysBefore {oneway : List UInt64} {index : ℕ} (h : index ≤ oneway.length) :
    (delaysBefore oneway index 5).dropLast =
      ((oneway.take (index-1)).drop (index-5)).map UInt64.toNat := by
  unfold delaysBefore
  rw [← List.map_dropLast, List.dropLast_eq_take, List.length_drop, List.length_take,
    Nat.min_eq_left h, List.drop_take, List.drop_take, List.take_take]
  congr 2
  omega

theorem sum_delaysBefore {oneway : List UInt64} {index : ℕ} (h0 : 0 < index)
    (h : index ≤ oneway.length) :
    (delaysBefore oneway index 5).sum =
      (delaysBefore oneway index 5).dropLast.sum+(oneway.getD (index-1) 0).toNat := by
  have hlast : (oneway.getD (index-1) 0).toNat ∈ (delaysBefore oneway index 5).getLast? := by
    unfold delaysBefore
    rw [List.getLast?_map, List.getLast?_drop, List.length_take, if_neg (by omega),
      List.getLast?_take, if_neg (by omega), List.getElem?_eq_getElem (by omega),
      List.getD_eq_getElem?_getD, List.getElem?_eq_getElem (by omega)]
    rfl
  obtain ⟨xs, hxs⟩ := List.getLast?_eq_some_iff.mp hlast
  rw [hxs, List.dropLast_concat, List.sum_append, List.sum_singleton]

theorem sum_dropLast_delaysBefore_le {oneway : List UInt64} {index : ℕ}
    (h : index ≤ oneway.length) :
    (delaysBefore oneway index 5).dropLast.sum ≤ (min 5 index-1)*(2^64-1) := by
  have hdrop := dropLast_delaysBefore h
  have hcard : (delaysBefore oneway index 5).dropLast.length = min 5 index-1 := by
    rw [hdrop, List.length_map, List.length_drop, List.length_take]
    omega
  have hbound : ∀ x ∈ (delaysBefore oneway index 5).dropLast, x ≤ 2^64-1 := by
    intro x hx
    rw [hdrop] at hx
    obtain ⟨y, _, rfl⟩ := List.mem_map.mp hx
    have hlt := y.toNat_lt
    omega
  have hcount := List.sum_le_card_nsmul _ _ hbound
  rwa [hcard, nsmul_eq_mul, Nat.cast_id] at hcount

/-- The quotient that is returned, with the wrap of the sum. -/
theorem toNat_aveOneway {oneway : List UInt64} {index : ℕ} (h : index ≤ oneway.length) :
    (sumArrayUint64 ((oneway.take (index-1)).drop (index-5))/
        UInt64.ofNat (min 5 index-1)).toNat =
      (delaysBefore oneway index 5).dropLast.sum%2^64/(min 5 index-1) := by
  have hcount : min 5 index-1 < 2^64 := by omega
  rw [UInt64.toNat_div, sumArrayUint64, toNat_foldl_add, UInt64.toNat_zero, Nat.zero_add,
    ← dropLast_delaysBefore h, UInt64.toNat_ofNat_of_lt' hcount]

/-- For every index that `find_burst_start` can give, the mean is right exactly under the
condition. -/
theorem ref_delay_right_iff {oneway : List UInt64} {index : ℕ} (h0 : 0 < index)
    (h : index < oneway.length) : RefDelayRight oneway index 5 ↔ RefDelayOk oneway index := by
  unfold RefDelayRight RefDelayOk
  extract_lets n s last
  rw [ngscopeListAveOneway_eq (by decide) h.le, sum_delaysBefore h0 h.le]
  by_cases hone : min 5 index ≤ 1
  · -- right after the first packet the count is 0
    rw [if_pos hone]
    constructor
    · intro hright
      obtain ⟨r, hr, _⟩ := hright
      cases hr
    · intro hok
      have htwo := hok.1
      omega
  · rw [if_neg hone]
    have hn : min 5 index = n+1 := by omega
    have hpos : 0 < n := by omega
    have hsum : s ≤ n*(2^64-1) := sum_dropLast_delaysBefore_le h.le
    have hvalue : (sumArrayUint64 ((oneway.take (index-1)).drop (index-5))/
        UInt64.ofNat n).toNat = s%2^64/n := toNat_aveOneway h.le
    rw [hn, Nat.add_sub_cancel]
    have hright : (∃ r, some (sumArrayUint64 ((oneway.take (index-1)).drop (index-5))/
        UInt64.ofNat n) = some r ∧ r.toNat = (s+last)/(n+1)) ↔ s%2^64/n = (s+last)/(n+1) := by
      constructor
      · intro hmean
        obtain ⟨r, hr, hval⟩ := hmean
        cases hr
        rwa [hvalue] at hval
      · intro hval
        exact ⟨_, rfl, hvalue.trans hval⟩
    refine hright.trans ?_
    by_cases hwrap : s < 2^64
    · rw [Nat.mod_eq_of_lt hwrap, div_eq_add_div_iff hpos]
      exact ⟨fun hq => ⟨by omega, hwrap, hq⟩, fun hq => hq.2.2⟩
    · -- the sum wraps, and neither side holds
      refine iff_of_false (mod_div_ne_of_wrap hpos (by omega) hsum (not_lt.mp hwrap) last) ?_
      intro hok
      exact hwrap hok.2.1

/-- Right where the delays before the burst are close to each other, also for the 7th packet; wrong
where the omitted one is 15000 above the others. -/
theorem ref_delay_right_third_packet :
    RefDelayRight [5000, 5000, 5001] 2 5 ∧
    RefDelayRight [9000, 5000, 5003, 5002, 5000, 5001, 9000, 9000] 6 5 ∧
    ¬ RefDelayRight [5000, 5000, 20000, 9000] 3 5 := by
  refine ⟨?_, ?_, ?_⟩
  · rw [ref_delay_right_iff (by decide) (by decide)]
    unfold RefDelayOk
    decide
  · rw [ref_delay_right_iff (by decide) (by decide)]
    unfold RefDelayOk
    decide
  · rw [ref_delay_right_iff (by decide) (by decide)]
    unfold RefDelayOk
    decide

/-- A burst right after the first packet divides by zero. -/
theorem ref_delay_second_packet :
    ¬ ∀ (oneway : List UInt64) (index : ℕ), 0 < index → index < oneway.length →
      RefDelayRight oneway index 5 := by
  intro hall
  obtain ⟨r, hr, _⟩ := hall [5000, 9000] 1 (by decide) (by decide)
  have hnone : ngscopeListAveOneway [5000, 9000] 1 5 = none := by decide
  rw [hnone] at hr
  cases hr

-- with more packets the last delay before the burst is left out
example : ngscopeListAveOneway [5000, 5000, 8000, 20000] 3 5 = some 5000 := by decide

end CopaNgscope
