import CopaNgscope.RunInvariant
import CopaNgscope.SenderAck

/-! The program `prober`: it sends groups of packets and measures the link rate from the groups
whose packets come back in order. -/
namespace CopaNgscope
open RunInvariant

def numPacketsPerLinkRateMeasurement : ℕ := 30

def linkRateMeasurementAlpha : ℚ := 1

/-- What is used of a header that came back, and when it did. -/
structure ProbeAck where
  seqNum : ℤ
  senderTimestamp : ℚ
  time : ℚ
deriving DecidableEq

def ProbeAck.groupNum (x : ProbeAck) : ℤ := Int.tdiv x.seqNum numPacketsPerLinkRateMeasurement

def ProbeAck.groupSeq (x : ProbeAck) : ℤ := Int.tmod x.seqNum numPacketsPerLinkRateMeasurement

/-- A line of the log: the time, the link rate in packets per second, and the RTT. -/
structure ProbeLine where
  time : ℚ
  linkRate : ℚ
  rtt : ℚ
deriving DecidableEq

/-- The variables of the measurement. -/
structure LinkRate where
  curAckGroupNumber : ℤ
  numPacketsReceivedInCurrentGroup : ℤ
  latestAckTimeInGroup : ℚ
  linkRateMeasurementAccumulator : ℚ
  lastMeasuredLinkRate : ℚ

def linkRateInit : LinkRate := ⟨-1, -1, -1, -1, -1⟩

/-- The average of the times between the packets of a group, as a rate. -/
def LinkRate.measured (m : LinkRate) : ℚ :=
  let rate := 1000/(m.linkRateMeasurementAccumulator/(numPacketsPerLinkRateMeasurement-1))
  if m.lastMeasuredLinkRate < 0 then rate
  else m.lastMeasuredLinkRate*(1-linkRateMeasurementAlpha)+linkRateMeasurementAlpha*rate

/-- A packet of the group that is in order. -/
def LinkRate.follow (m : LinkRate) (x : ProbeAck) : LinkRate :=
  { m with
    numPacketsReceivedInCurrentGroup := m.numPacketsReceivedInCurrentGroup+1
    linkRateMeasurementAccumulator :=
      m.linkRateMeasurementAccumulator+(x.time-m.latestAckTimeInGroup)
    latestAckTimeInGroup := x.time }

/-- A packet of a later group. -/
def LinkRate.startGroup (m : LinkRate) (x : ProbeAck) : LinkRate :=
  { m with
    curAckGroupNumber := x.groupNum
    numPacketsReceivedInCurrentGroup := 1
    linkRateMeasurementAccumulator := 0
    latestAckTimeInGroup := x.time }

/-- What an ACK does to the measurement, and the line that is logged. -/
def LinkRate.ack (m : LinkRate) (x : ProbeAck) : LinkRate × Option ProbeLine :=
  if x.groupNum = m.curAckGroupNumber then
    -- after a packet that is missing or out of order nothing more is measured in the group
    if x.groupSeq = m.numPacketsReceivedInCurrentGroup then
      let m := m.follow x
      if m.numPacketsReceivedInCurrentGroup = (numPacketsPerLinkRateMeasurement:ℤ) then
        ({ m with lastMeasuredLinkRate := m.measured },
          some ⟨x.time, m.measured, x.time-x.senderTimestamp⟩)
      else (m, none)
    else (m, none)
  else if m.curAckGroupNumber < x.groupNum then (m.startGroup x, none)
  else (m, none)

/-! ### The loop -/

/-- The header at the start of `buf` is what was sent or received last. The ACKs taken and the lines
logged so far are kept. -/
structure Prober where
  seqNum : ℤ
  sentInRound : ℕ
  receivedInRound : ℕ
  curTime : ℚ
  buf : TCPHeader
  linkRate : LinkRate
  acks : List ProbeAck
  log : List ProbeLine

def proberSrcId : ℤ := 42

/-- The fields that are never set are those of `stale`. -/
def proberHeader (stale : TCPHeader) (s : Prober) : TCPHeader :=
  { stale with
    seqNum := s.seqNum*numPacketsPerLinkRateMeasurement+s.sentInRound
    flowId := 0
    srcId := proberSrcId
    senderTimestamp := s.curTime
    receiverTimestamp := 0 }

/-- A packet sent, one received, a receive that fails or returns 0, and the next round. The last
argument is the clock after it. -/
inductive ProberAction
  | send (now : ℚ)
  | receive (header : TCPHeader) (now : ℚ)
  | receiveError (now : ℚ)
  | timedOut (now : ℚ)
  | rest (now : ℚ)

def ProberAction.now : ProberAction → ℚ
  | .send now => now
  | .receive _ now => now
  | .receiveError now => now
  | .timedOut now => now
  | .rest now => now

/-- What follows a receive that did not return 0: `buf` is taken for an ACK whether or not anything
was written to it. -/
def Prober.takeAck (s : Prober) (now : ℚ) : Prober :=
  let s := { s with receivedInRound := s.receivedInRound+1 }
  if s.buf.srcId ≠ proberSrcId ∨ s.buf.flowId ≠ 0 then s
  else
    let x : ProbeAck := ⟨s.buf.seqNum, s.buf.senderTimestamp, now⟩
    let r := s.linkRate.ack x
    { s with
      curTime := now
      linkRate := r.1
      acks := s.acks ++ [x]
      log := s.log ++ r.2.toList }

def proberStep (stale : TCPHeader) (s : Prober) : ProberAction → Option Prober
  | .send now =>
    if s.sentInRound < numPacketsPerLinkRateMeasurement then
      some { s with
        buf := proberHeader stale s
        curTime := now
        sentInRound := s.sentInRound+1
        -- the groups are numbered after the loop
        seqNum := if s.sentInRound+1 = numPacketsPerLinkRateMeasurement then s.seqNum+1
          else s.seqNum }
    else none
  | .receive header now =>
    if s.sentInRound = numPacketsPerLinkRateMeasurement ∧
        s.receivedInRound < numPacketsPerLinkRateMeasurement then
      some (Prober.takeAck { s with buf := header } now)
    else none
  | .receiveError now =>
    if s.sentInRound = numPacketsPerLinkRateMeasurement ∧
        s.receivedInRound < numPacketsPerLinkRateMeasurement then some (s.takeAck now)
    else none
  | .timedOut now =>
    if s.sentInRound = numPacketsPerLinkRateMeasurement ∧
        s.receivedInRound < numPacketsPerLinkRateMeasurement then some { s with curTime := now }
    else none
  | .rest now =>
    if s.sentInRound = numPacketsPerLinkRateMeasurement ∧
        s.receivedInRound = numPacketsPerLinkRateMeasurement then
      some { s with sentInRound := 0, receivedInRound := 0, curTime := now }
    else none

/-- The start of the program, with what is in `buf` and the first reading of the clock. -/
def proberInit (buf : TCPHeader) (now : ℚ) : Prober :=
  ⟨0, 0, 0, now, buf, linkRateInit, [], []⟩

/-- The clock has moved on since it was last kept. -/
def ProberClockForward (s : Prober) (a : ProberAction) : Prop := s.curTime < a.now

instance (s : Prober) (a : ProberAction) : Decidable (ProberClockForward s a) :=
  inferInstanceAs (Decidable (s.curTime < a.now))

/-! ### What is measured -/

/-- The line is measured from group `g`: from its first packet that came, before which none of a
later group did, and from the other packets of the group, which came in order after it. -/
def Measures (acks : List ProbeAck) (g : ℤ) (line : ProbeLine) : Prop :=
  ∃ before first after rest last, acks = before ++ first :: after ∧
    (∀ x ∈ before, x.groupNum < g) ∧ first.groupNum = g ∧ (rest ++ [last]).Sublist after ∧
    (rest ++ [last]).map ProbeAck.seqNum = (List.range 29).map (fun i : ℕ => 30*g+1+i) ∧
    first.time < last.time ∧
    line = ⟨last.time, 1000/((last.time-first.time)/29), last.time-last.senderTimestamp⟩

/-- What the variables say about the ACKs: `k` packets followed the first one of the group in
order. -/
structure InGroup (acks : List ProbeAck) (m : LinkRate) (k : ℕ) : Prop where
  le : k ≤ 29
  nonneg : 0 ≤ m.curAckGroupNumber
  received : m.numPacketsReceivedInCurrentGroup = k+1
  exists_first : ∃ before first after rest, acks = before ++ first :: after ∧
    (∀ x ∈ before, x.groupNum < m.curAckGroupNumber) ∧
    first.groupNum = m.curAckGroupNumber ∧ List.Sublist rest after ∧
    rest.map ProbeAck.seqNum = (List.range k).map (fun i : ℕ => 30*m.curAckGroupNumber+1+i) ∧
    m.latestAckTimeInGroup = (rest.getLastD first).time ∧
    m.linkRateMeasurementAccumulator = (rest.getLastD first).time-first.time

variable {acks : List ProbeAck} {m : LinkRate} {k : ℕ} {x : ProbeAck}

theorem Measures.append {g : ℤ} {line : ProbeLine} (h : Measures acks g line) (x : ProbeAck) :
    Measures (acks ++ [x]) g line := by
  obtain ⟨before, first, after, rest, last, hsplit, hbefore, hfirst, hsub, hseq, hlt, hline⟩ := h
  refine ⟨before, first, after ++ [x], rest, last, ?_, hbefore, hfirst, ?_, hseq, hlt, hline⟩
  · rw [hsplit, List.append_assoc, List.cons_append]
  · exact hsub.trans (List.sublist_append_left after [x])

theorem InGroup.append (h : InGroup acks m k) (x : ProbeAck) : InGroup (acks ++ [x]) m k := by
  obtain ⟨before, first, after, rest, hsplit, hbefore, hfirst, hsub, hseq, htimes⟩ := h.exists_first
  refine { h with exists_first :=
    ⟨before, first, after ++ [x], rest, ?_, hbefore, hfirst, ?_, hseq, htimes⟩ }
  · rw [hsplit, List.append_assoc, List.cons_append]
  · exact hsub.trans (List.sublist_append_left after [x])

/-- A packet of a later group starts the measurement anew. -/
theorem InGroup.start (hcur : -1 ≤ m.curAckGroupNumber) (hlt : m.curAckGroupNumber < x.groupNum)
    (hle : ∀ y ∈ acks, y.groupNum ≤ m.curAckGroupNumber) :
    InGroup (acks ++ [x]) (m.startGroup x) 0 where
  le := Nat.zero_le _
  nonneg := by
    change 0 ≤ x.groupNum
    omega
  received := rfl
  exists_first :=
    ⟨acks, x, [], [], rfl, fun y hy => (hle y hy).trans_lt hlt, rfl, List.Sublist.refl _, rfl, rfl,
      (sub_self x.time).symm⟩

theorem seqNum_eq (x : ProbeAck) : x.seqNum = 30*x.groupNum+x.groupSeq :=
  (Int.mul_tdiv_add_tmod x.seqNum 30).symm

theorem groupSeq_lt (x : ProbeAck) : x.groupSeq < 30 := Int.tmod_lt_of_pos x.seqNum (by decide)

/-- The packets of the group with the next one in order. -/
theorem InGroup.rest_concat (h : InGroup acks m k) (hgroup : x.groupNum = m.curAckGroupNumber)
    (hseq : x.groupSeq = m.numPacketsReceivedInCurrentGroup) {rest : List ProbeAck}
    (hmap : rest.map ProbeAck.seqNum =
      (List.range k).map (fun i : ℕ => 30*m.curAckGroupNumber+1+i)) :
    (rest ++ [x]).map ProbeAck.seqNum =
      (List.range (k+1)).map (fun i : ℕ => 30*m.curAckGroupNumber+1+i) := by
  have hnum : x.seqNum = 30*m.curAckGroupNumber+1+k := by
    rw [seqNum_eq, hgroup, hseq, h.received]
    ring
  rw [List.map_append, hmap, List.range_succ, List.map_append, List.map_singleton,
    List.map_singleton, hnum]

theorem InGroup.next (h : InGroup acks m k) (hgroup : x.groupNum = m.curAckGroupNumber)
    (hseq : x.groupSeq = m.numPacketsReceivedInCurrentGroup) :
    InGroup (acks ++ [x]) (m.follow x) (k+1) := by
  obtain ⟨before, first, after, rest, hsplit, hbefore, hfirst, hsub, hmap, hlatest, hsum⟩ :=
    h.exists_first
  have hlt := groupSeq_lt x
  have hreceived := h.received
  refine ⟨by omega, h.nonneg, ?_, before, first, after ++ [x], rest ++ [x], ?_, hbefore, hfirst,
    hsub.append (List.Sublist.refl [x]), h.rest_concat hgroup hseq hmap, ?_, ?_⟩
  · rw [LinkRate.follow, hreceived]
    push_cast
    rfl
  · rw [hsplit, List.append_assoc, List.cons_append]
  · rw [List.getLastD_concat, LinkRate.follow]
  · rw [List.getLastD_concat, LinkRate.follow, hsum, hlatest]
    ring

/-- The line of a group that has come in order. -/
theorem InGroup.measures (h : InGroup acks m k) (hgroup : x.groupNum = m.curAckGroupNumber)
    (hseq : x.groupSeq = m.numPacketsReceivedInCurrentGroup)
    (hlater : ∀ y ∈ acks, y.time < x.time) (hall : k = 28) :
    Measures (acks ++ [x]) m.curAckGroupNumber
      ⟨x.time, (m.follow x).measured, x.time-x.senderTimestamp⟩ := by
  obtain ⟨before, first, after, rest, hsplit, hbefore, hfirst, hsub, hmap, hlatest, hsum⟩ :=
    h.exists_first
  have hrest := h.rest_concat hgroup hseq hmap
  rw [hall] at hrest
  have hrate : (m.follow x).measured = 1000/((x.time-first.time)/29) := by
    have hspan : (m.follow x).linkRateMeasurementAccumulator = x.time-first.time := by
      rw [LinkRate.follow, hsum, hlatest]
      ring
    rw [LinkRate.measured, hspan, linkRateMeasurementAlpha, numPacketsPerLinkRateMeasurement]
    norm_num
  have hlt : first.time < x.time := by
    apply hlater
    rw [hsplit]
    exact List.mem_append_right before List.mem_cons_self
  refine ⟨before, first, after ++ [x], rest, x, ?_, hbefore, hfirst,
    hsub.append (List.Sublist.refl [x]), hrest, hlt, ?_⟩
  · rw [hsplit, List.append_assoc, List.cons_append]
  · rw [hrate]

/-! ### Runs -/

/-- What the variables and the log say about the ACKs. `gs` are the groups that were logged. -/
structure MeasureInv (acks : List ProbeAck) (m : LinkRate) (gs : List ℤ) (log : List ProbeLine) :
    Prop where
  bounded : ∀ x ∈ acks, x.groupNum ≤ m.curAckGroupNumber
  place : m.curAckGroupNumber = -1 ∧ m.numPacketsReceivedInCurrentGroup ≤ 1 ∨
    ∃ k, InGroup acks m k
  measures : List.Forall₂ (Measures acks) gs log
  sorted : gs.Pairwise (· < ·)
  logged : ∀ g ∈ gs, 0 ≤ g ∧ g ≤ m.curAckGroupNumber ∧
    (g = m.curAckGroupNumber → m.numPacketsReceivedInCurrentGroup = 30)

theorem measureInv_init : MeasureInv [] linkRateInit [] [] where
  bounded := fun _ hx => absurd hx List.not_mem_nil
  place := .inl ⟨rfl, by decide⟩
  measures := .nil
  sorted := .nil
  logged := fun _ hg => absurd hg List.not_mem_nil

variable {gs : List ℤ} {log : List ProbeLine}

theorem MeasureInv.cur_ge (h : MeasureInv acks m gs log) : -1 ≤ m.curAckGroupNumber := by
  rcases h.place with ⟨hcur, _⟩ | ⟨k, hk⟩
  · omega
  · have hnonneg := hk.nonneg
    omega

/-- An ACK that is not of a later group and changes nothing. -/
theorem MeasureInv.keep (h : MeasureInv acks m gs log) (hle : x.groupNum ≤ m.curAckGroupNumber) :
    MeasureInv (acks ++ [x]) m gs log where
  bounded := by
    intro y hy
    rcases List.mem_append.mp hy with hy | hy
    · exact h.bounded y hy
    · rw [List.mem_singleton.mp hy]
      exact hle
  place := h.place.imp_right fun ⟨k, hk⟩ => ⟨k, hk.append x⟩
  measures := h.measures.imp fun _ _ hline => hline.append x
  sorted := h.sorted
  logged := h.logged

theorem MeasureInv.start (h : MeasureInv acks m gs log) (hlt : m.curAckGroupNumber < x.groupNum) :
    MeasureInv (acks ++ [x]) (m.startGroup x) gs log where
  bounded := by
    intro y hy
    rcases List.mem_append.mp hy with hy | hy
    · exact (h.bounded y hy).trans hlt.le
    · rw [List.mem_singleton.mp hy, LinkRate.startGroup]
  place := .inr ⟨0, InGroup.start h.cur_ge hlt h.bounded⟩
  measures := h.measures.imp fun _ _ hline => hline.append x
  sorted := h.sorted
  logged := by
    intro g hg
    obtain ⟨hnonneg, hle, _⟩ := h.logged g hg
    have hgroup : (m.startGroup x).curAckGroupNumber = x.groupNum := rfl
    rw [hgroup]
    refine ⟨hnonneg, by omega, fun heq => ?_⟩
    omega

/-- In a group below 0 the remainders are not positive. -/
theorem groupSeq_nonpos (h : x.groupNum < 0) : x.groupSeq ≤ 0 := by
  have hneg : x.seqNum < 0 := by
    by_contra hnot
    exact absurd h (not_lt.mpr (Int.tdiv_nonneg (not_lt.mp hnot) (by decide)))
  have hmod := Int.tmod_nonneg (numPacketsPerLinkRateMeasurement:ℤ) (neg_nonneg.mpr hneg.le)
  rw [Int.neg_tmod] at hmod
  exact neg_nonneg.mp hmod

/-- A group that was logged is over. -/
theorem MeasureInv.logged_lt (h : MeasureInv acks m gs log)
    (hseq : x.groupSeq = m.numPacketsReceivedInCurrentGroup) :
    ∀ g ∈ gs, 0 ≤ g ∧ g < m.curAckGroupNumber := by
  intro g hg
  obtain ⟨hnonneg, hle, hfull⟩ := h.logged g hg
  refine ⟨hnonneg, lt_of_le_of_ne hle ?_⟩
  intro heq
  have hlt := groupSeq_lt x
  rw [hseq, hfull heq] at hlt
  exact absurd hlt (by decide)

theorem MeasureInv.follow (h : MeasureInv acks m gs log)
    (hgroup : x.groupNum = m.curAckGroupNumber)
    (hseq : x.groupSeq = m.numPacketsReceivedInCurrentGroup) :
    MeasureInv (acks ++ [x]) (m.follow x) gs log where
  bounded := (h.keep hgroup.le).bounded
  place := by
    rcases h.place with ⟨hcur, _⟩ | ⟨k, hk⟩
    · have hseqNonpos := groupSeq_nonpos (x := x) (by omega)
      have hnum : (m.follow x).numPacketsReceivedInCurrentGroup =
          m.numPacketsReceivedInCurrentGroup+1 := rfl
      exact .inl ⟨hcur, by omega⟩
    · exact .inr ⟨k+1, hk.next hgroup hseq⟩
  measures := h.measures.imp fun _ _ hline => hline.append x
  sorted := h.sorted
  logged := by
    intro g hg
    obtain ⟨hnonneg, hlt⟩ := h.logged_lt hseq g hg
    exact ⟨hnonneg, hlt.le, fun heq => absurd heq hlt.ne⟩

/-- The last packet of a group. -/
theorem MeasureInv.measure (h : MeasureInv acks m gs log)
    (hgroup : x.groupNum = m.curAckGroupNumber)
    (hseq : x.groupSeq = m.numPacketsReceivedInCurrentGroup)
    (hlater : ∀ y ∈ acks, y.time < x.time)
    (hall : (m.follow x).numPacketsReceivedInCurrentGroup = 30) (rate : ℚ) :
    MeasureInv (acks ++ [x]) { m.follow x with lastMeasuredLinkRate := rate }
      (gs ++ [m.curAckGroupNumber])
      (log ++ [⟨x.time, (m.follow x).measured, x.time-x.senderTimestamp⟩]) := by
  have hfollow := h.follow hgroup hseq
  have hnum : (m.follow x).numPacketsReceivedInCurrentGroup =
      m.numPacketsReceivedInCurrentGroup+1 := rfl
  obtain ⟨k, hk⟩ : ∃ k, InGroup acks m k := by
    rcases h.place with ⟨_, hle⟩ | hk
    · exact absurd hle (by omega)
    · exact hk
  have hnext := hk.next hgroup hseq
  have hreceived := hk.received
  refine ⟨hfollow.bounded, .inr ⟨k+1, ?_⟩, ?_, ?_, ?_⟩
  · exact ⟨hnext.le, hnext.nonneg, hnext.received, hnext.exists_first⟩
  · apply List.rel_append hfollow.measures
    exact .cons (hk.measures hgroup hseq hlater (by omega)) .nil
  · apply List.pairwise_append.mpr
    refine ⟨h.sorted, List.pairwise_singleton _ _, ?_⟩
    intro g hg g' hg'
    rw [List.mem_singleton.mp hg']
    exact (h.logged_lt hseq g hg).2
  · intro g hg
    rcases List.mem_append.mp hg with hg | hg
    · obtain ⟨hnonneg, hlt⟩ := h.logged_lt hseq g hg
      exact ⟨hnonneg, hlt.le, fun heq => absurd heq hlt.ne⟩
    · rw [List.mem_singleton.mp hg]
      exact ⟨hk.nonneg, le_rfl, fun _ => hall⟩

/-- One ACK. -/
theorem MeasureInv.ack (h : MeasureInv acks m gs log) (hlater : ∀ y ∈ acks, y.time < x.time) :
    ∃ gs', MeasureInv (acks ++ [x]) (m.ack x).1 gs' (log ++ (m.ack x).2.toList) := by
  rw [LinkRate.ack]
  split_ifs with hgroup hseq hlt
  · dsimp only
    split_ifs with hall
    · exact ⟨_, h.measure hgroup hseq hlater hall _⟩
    · rw [Option.toList_none, List.append_nil]
      exact ⟨gs, h.follow hgroup hseq⟩
  · rw [Option.toList_none, List.append_nil]
    exact ⟨gs, h.keep hgroup.le⟩
  · rw [Option.toList_none, List.append_nil]
    exact ⟨gs, h.start hlt⟩
  · rw [Option.toList_none, List.append_nil]
    exact ⟨gs, h.keep (not_lt.mp hlt)⟩

/-- What the state says about what was received, up to the time it keeps. -/
structure ProberInv (s : Prober) : Prop where
  measured : ∃ gs, MeasureInv s.acks s.linkRate gs s.log
  le : ∀ x ∈ s.acks, x.time ≤ s.curTime

theorem ProberInv.takeAck {s : Prober} (h : ProberInv s) {now : ℚ} (hnow : s.curTime < now) :
    ProberInv (s.takeAck now) := by
  obtain ⟨gs, hgs⟩ := h.measured
  rw [Prober.takeAck]
  dsimp only
  split_ifs
  · exact ⟨⟨gs, hgs⟩, h.le⟩
  · refine ⟨hgs.ack (fun y hy => (h.le y hy).trans_lt hnow), ?_⟩
    intro y hy
    rcases List.mem_append.mp hy with hy | hy
    · exact (h.le y hy).trans hnow.le
    · rw [List.mem_singleton.mp hy]

/-- What a step of the program keeps. -/
theorem proberStep_proberInv {stale : TCPHeader} {s t : Prober} {a : ProberAction}
    (h : ProberInv s) (hclock : ProberClockForward s a) (ht : proberStep stale s a = some t) :
    ProberInv t := by
  have hlater : ∀ x ∈ s.acks, x.time ≤ a.now := fun x hx => (h.le x hx).trans hclock.le
  cases a with
  | send now =>
    rw [proberStep, Option.ite_none_right_eq_some] at ht
    cases ht.2
    exact ⟨h.measured, hlater⟩
  | receive header now =>
    rw [proberStep, Option.ite_none_right_eq_some] at ht
    cases ht.2
    exact ProberInv.takeAck (s := { s with buf := header }) ⟨h.measured, h.le⟩ hclock
  | receiveError now =>
    rw [proberStep, Option.ite_none_right_eq_some] at ht
    cases ht.2
    exact h.takeAck hclock
  | timedOut now =>
    rw [proberStep, Option.ite_none_right_eq_some] at ht
    cases ht.2
    exact ⟨h.measured, hlater⟩
  | rest now =>
    rw [proberStep, Option.ite_none_right_eq_some] at ht
    cases ht.2
    exact ⟨h.measured, hlater⟩

/-- In every run of the program, whatever it receives, each line of the log is measured from a group
of its own, later ones from later groups: the rate is that of the 29 packets that came in order
after the first one of the group. -/
theorem prober_measures_groups {stale buf : TCPHeader} {now : ℚ} {as : List ProberAction}
    {s : Prober} (hclock : RunMeets (proberStep stale) ProberClockForward (proberInit buf now) as)
    (h : run (proberStep stale) (proberInit buf now) as = some s) :
    ∃ gs : List ℤ, gs.Pairwise (· < ·) ∧ (∀ g ∈ gs, 0 ≤ g) ∧
      List.Forall₂ (Measures s.acks) gs s.log := by
  have hinit : ProberInv (proberInit buf now) :=
    ⟨⟨[], measureInv_init⟩, fun x hx => absurd hx List.not_mem_nil⟩
  have hinv := run_invariant_of_meets (proberStep stale) ProberInv ProberClockForward
    (fun _ _ _ hs hok ht => proberStep_proberInv hs hok ht) hinit hclock h
  obtain ⟨gs, hgs⟩ := hinv.measured
  exact ⟨gs, hgs.sorted, fun g hg => (hgs.logged g hg).1, hgs.measures⟩

def proberEcho (i : ℕ) : TCPHeader := ⟨i, 0, proberSrcId, i, 0, 0, 0⟩

/-- A group that comes back whole, a packet each millisecond. -/
def wholeGroup : List ProberAction :=
  (List.range 30).map (fun i : ℕ => .send (i+1)) ++
    (List.range 30).map (fun i : ℕ => .receive (proberEcho i) (31+i))

theorem prober_measures_groups_whole :
    ∃ s, run (proberStep (proberEcho 0)) (proberInit (proberEcho 0) 0) wholeGroup = some s ∧
      s.log = [⟨60, 1000, 31⟩] ∧
      ∃ gs : List ℤ, gs.Pairwise (· < ·) ∧ (∀ g ∈ gs, 0 ≤ g) ∧
        List.Forall₂ (Measures s.acks) gs s.log := by
  have hlog : (run (proberStep (proberEcho 0)) (proberInit (proberEcho 0) 0) wholeGroup).map
      Prober.log = some [⟨60, 1000, 31⟩] := by decide +kernel
  obtain ⟨s, hrun, hs⟩ := Option.map_eq_some_iff.mp hlog
  exact ⟨s, hrun, hs, prober_measures_groups (by decide +kernel) hrun⟩

end CopaNgscope
