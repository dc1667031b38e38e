import CopaNgscope.NgscopeClientLoop

/-! Which clock the DCI times are on when the client's reordering buffer is updated from them:
the offset estimated last is only added by the packet that estimates it. -/
namespace CopaNgscope
open RunInvariant

/-! ### The offset of a packet -/

theorem packetOffset_of_not_dl {p : DciPoller} (h : p.newDlReTx = false) (client : ClientState) :
    packetOffset p client = 0 := by
  rw [packetOffset, dciPktOffset, h]
  exact if_neg Bool.false_ne_true

theorem natAbs_packetOffset (p : DciPoller) (client : ClientState) :
    (packetOffset p client).natAbs ≤ 10000 := by
  unfold packetOffset dciPktOffset
  split_ifs
  · exact natAbs_of_mem_offsetVec (ngscopeSyncDciPkt_mem _ _ (by decide))
  · exact Nat.zero_le _

/-! ### Updates of the buffer -/

/-- A retransmission was missed, and there is no active buffer. -/
def Retries (s : ClientState) : Prop :=
  s.missingDL = true ∧ s.reTxBuffer.ready = true ∧ s.reTxBuffer.bufferActive = false

/-- `ngscope_reTx_update_buf` is executed for the packet. -/
def UpdatesBuf (p : DciPoller) (s : ClientState) : Prop := p.newDlReTx = true ∨ Retries s

instance (s : ClientState) : Decidable (Retries s) :=
  inferInstanceAs (Decidable (s.missingDL = true ∧ s.reTxBuffer.ready = true ∧
    s.reTxBuffer.bufferActive = false))

instance (p : DciPoller) (s : ClientState) : Decidable (UpdatesBuf p s) :=
  inferInstanceAs (Decidable (p.newDlReTx = true ∨ Retries s))

theorem retries_enqueuePkt (s : ClientState) (header : TCPHeader) (received : UInt32)
    (recvTimeNs : UInt64) : Retries (enqueuePkt s header received recvTimeNs) ↔ Retries s := by
  unfold enqueuePkt
  extract_lets p
  cases ngscopeListInsertNodeCheckTime s.pktList p with
  | dropped last => exact Iff.rfl
  | inserted ps freed => exact Iff.rfl

/-- Where the buffer is updated, every time in the arrays is the raw one plus the offset
estimated last. -/
def TimesOnClock (s : TrackedLoop) : LoopAction → Prop
  | .packet header received recvTimeNs =>
    UpdatesBuf s.polled (s.listed header received recvTimeNs) →
      EntriesOnClock (ngscopeDciSyncMultiCell s.polled.dciAll s.polled.nofCell
          (packetOffset s.polled (s.listed header received recvTimeNs)))
        (s.record (.packet header received recvTimeNs)).taken s.polled.nofCell
        (s.record (.packet header received recvTimeNs)).estimate
  | _ => True

instance (s : TrackedLoop) : ∀ a, Decidable (TimesOnClock s a)
  | .packet header received recvTimeNs =>
    inferInstanceAs (Decidable (UpdatesBuf s.polled (s.listed header received recvTimeNs) → _))
  | .insert _ _ => isTrue trivial
  | .config _ => isTrue trivial
  | .send _ _ _ => isTrue trivial

/-- Without a new downlink retransmission a retry finds in each configured entry a copy to which
the present estimate was added when it was made, or one without times. To a copy that an uplink
retransmission caused 0 was added. -/
def CopiesCurrent (s : TrackedLoop) : LoopAction → Prop
  | .packet _ _ _ => s.polled.newDlReTx = true ∨ ¬ Retries s.loop.client ∨
      ∀ i < s.polled.nofCell, ∃ x ∈ takenAtPoll s.polled s.history i,
        x.offset = s.history.estimate ∨ ¬ x.raw.HasTimes
  | _ => True

instance (s : TrackedLoop) : ∀ a, Decidable (CopiesCurrent s a)
  | .packet _ _ _ => inferInstanceAs (Decidable (s.polled.newDlReTx = true ∨
      ¬ Retries s.loop.client ∨ ∀ i < s.polled.nofCell,
        ∃ x ∈ takenAtPoll s.polled s.history i, x.offset = s.history.estimate ∨ ¬ x.raw.HasTimes))
  | .insert _ _ => isTrue trivial
  | .config _ => isTrue trivial
  | .send _ _ _ => isTrue trivial

/-! ### What the history says -/

/-- The arrays hold the copies of the history, and all offsets are small. -/
structure ClockInv (s : TrackedLoop) : Prop where
  shows : ShowsSnapshots s.loop.poller.dciAll s.history.taken
  estimate_le : s.history.estimate.natAbs ≤ 10000
  offset_le : ∀ i, ∀ x ∈ s.history.taken i, x.offset.natAbs ≤ 10000

theorem ClockInv.shows_poll {s : TrackedLoop} (h : ClockInv s) :
    ShowsSnapshots s.polled.dciAll (takenAtPoll s.polled s.history) := by
  unfold takenAtPoll
  split_ifs with hreport
  · have hcopy : s.polled.dciAll =
        ngscopeDciExtractMultiCell s.loop.poller.dciAll s.loop.poller.dciCa := if_pos hreport
    rw [hcopy]
    exact h.shows.extract _
  · have hkeep : s.polled.dciAll = s.loop.poller.dciAll := if_neg hreport
    rw [hkeep]
    exact h.shows

theorem ClockInv.offset_le_poll {s : TrackedLoop} (h : ClockInv s) {i : ℕ} {x : Snapshot}
    (hx : x ∈ takenAtPoll s.polled s.history i) : x.offset.natAbs ≤ 10000 := by
  unfold takenAtPoll at hx
  split_ifs at hx
  · rw [takeSnapshots] at hx
    split_ifs at hx
    · obtain rfl := Option.mem_some.mp hx
      exact Nat.zero_le _
    · exact h.offset_le i x hx
  · exact h.offset_le i x hx

/-- A packet that estimates an offset adds it to new copies only. -/
theorem ClockInv.offset_le_shift {s : TrackedLoop} (h : ClockInv s) (client : ClientState) {i : ℕ}
    {x : Snapshot} (hx : x ∈ shiftSnapshots (takenAtPoll s.polled s.history) s.polled.nofCell
      (packetOffset s.polled client) i) : x.offset.natAbs ≤ 10000 := by
  cases hdl : s.polled.newDlReTx with
  | true =>
    rw [takenAtPoll, hdl, Bool.true_or, if_pos rfl] at hx
    rw [s.nofCell_polled] at hx
    by_cases hi : i < s.polled.dciCa.nofCell
    · rw [shiftSnapshots_take _ _ _ hi] at hx
      obtain rfl := Option.mem_some.mp hx
      exact natAbs_packetOffset _ _
    · rw [shiftSnapshots, if_neg hi, takeSnapshots, if_neg hi] at hx
      exact h.offset_le i x hx
  | false =>
    rw [packetOffset_of_not_dl hdl, shiftSnapshots] at hx
    split_ifs at hx
    · obtain ⟨y, hy, rfl⟩ := Option.map_eq_some_iff.mp hx
      rw [Snapshot.shift, add_zero]
      exact h.offset_le_poll hy
    · exact h.offset_le_poll hx

theorem ClockInv.step (stray : NgscopeDciCell → ℤ → UeDci) {s t : TrackedLoop} {a : LoopAction}
    (h : ClockInv s) (ht : trackedStep stray s a = some t) : ClockInv t := by
  rcases trackedStep_cases ht with
    ⟨header, received, recvTimeNs, _, hu, hhistory⟩ | ⟨hsame, q, hpoller⟩
  · refine ⟨?_, ?_, fun i x hx => ?_⟩
    · rw [handlePacket_poller hu, hhistory]
      exact h.shows_poll.sync _ _
    · rw [hhistory]
      change (if s.polled.newDlReTx then packetOffset s.polled _ else s.history.estimate).natAbs ≤ _
      split_ifs
      · exact natAbs_packetOffset _ _
      · exact h.estimate_le
    · rw [hhistory] at hx
      exact h.offset_le_shift _ hx
  · refine ⟨?_, ?_, ?_⟩
    · rw [hpoller, hsame]
      exact h.shows
    · rw [hsame]
      exact h.estimate_le
    · rw [hsame]
      exact h.offset_le

/-! ### The clock of a packet -/

theorem timesOnClock_iff {s : TrackedLoop} (h : ClockInv s) (a : LoopAction) :
    TimesOnClock s a ↔ CopiesCurrent s a := by
  cases a with
  | packet header received recvTimeNs =>
    have hentries := entriesOnClock_iff (h.shows_poll.sync s.polled.nofCell
      (packetOffset s.polled (s.listed header received recvTimeNs))) s.polled.nofCell
      (s.record (.packet header received recvTimeNs)).estimate
    have htaken : (s.record (.packet header received recvTimeNs)).taken =
      shiftSnapshots (takenAtPoll s.polled s.history) s.polled.nofCell
        (packetOffset s.polled (s.listed header received recvTimeNs)) := rfl
    cases hdl : s.polled.newDlReTx with
    | true =>
      -- the logs are copied now and get the new estimate
      refine iff_of_true (fun _ => hentries.mpr (fun i hi => ?_)) (Or.inl hdl)
      have hestimate : (s.record (.packet header received recvTimeNs)).estimate =
        packetOffset s.polled (s.listed header received recvTimeNs) := if_pos hdl
      rw [hestimate, takenAtPoll, hdl, Bool.true_or, if_pos rfl, s.nofCell_polled]
      rw [s.nofCell_polled] at hi
      exact ⟨_, shiftSnapshots_take _ _ _ hi, Or.inl (Int.ModEq.refl _)⟩
    | false =>
      -- nothing is added, and only a retry looks at the times
      have hestimate : (s.record (.packet header received recvTimeNs)).estimate =
        s.history.estimate := if_neg (by rw [hdl]; exact Bool.false_ne_true)
      have hzero := packetOffset_of_not_dl hdl (s.listed header received recvTimeNs)
      have hupdates : UpdatesBuf s.polled (s.listed header received recvTimeNs) ↔
          Retries s.loop.client := by
        rw [UpdatesBuf, hdl, or_iff_right Bool.false_ne_true]
        exact retries_enqueuePkt _ _ _ _
      have hcopies (i : ℕ) (hi : i < s.polled.nofCell) :
          (∃ x ∈ shiftSnapshots (takenAtPoll s.polled s.history) s.polled.nofCell 0 i,
            x.offset ≡ s.history.estimate [ZMOD 2^64] ∨ ¬ x.raw.HasTimes) ↔
          ∃ x ∈ takenAtPoll s.polled s.history i,
            x.offset = s.history.estimate ∨ ¬ x.raw.HasTimes := by
        have hshift : shiftSnapshots (takenAtPoll s.polled s.history) s.polled.nofCell 0 i =
            takenAtPoll s.polled s.history i := by
          rw [shiftSnapshots, if_pos hi]
          simp [Snapshot.shift]
        rw [hshift]
        refine exists_congr (fun x => and_congr_right (fun hx => or_congr_left ?_))
        exact modEq_iff_of_natAbs_le (h.offset_le_poll hx) h.estimate_le
      rw [hestimate, hzero] at hentries
      change (UpdatesBuf _ _ → _) ↔ s.polled.newDlReTx = true ∨ _
      rw [hestimate, htaken, hzero, hupdates, hentries, forall₂_congr hcopies, hdl,
        or_iff_right Bool.false_ne_true, imp_iff_not_or]
  | insert ueDci cellIdx => exact Iff.rfl
  | config cellPrb => exact Iff.rfl
  | send currTUs goExit stale => exact Iff.rfl

/-- In every run the buffer is only ever updated from times on the packet clock exactly when
each retry finds copies that the present estimate was added to. -/
theorem client_dci_clock_iff (stray : NgscopeDciCell → ℤ → UeDci) {nofCell : ℕ}
    (hcell : nofCell ≤ maxNofRfDev) (dciAll : ℕ → NgscopeDci) (lastTxPktTUs : UInt64)
    (as : List LoopAction) :
    RunMeets (trackedStep stray) TimesOnClock (trackedInit hcell dciAll lastTxPktTUs) as ↔
      RunMeets (trackedStep stray) CopiesCurrent (trackedInit hcell dciAll lastTxPktTUs) as :=
  runMeets_congr (trackedStep stray) ClockInv (fun _ a h => timesOnClock_iff h a)
    (fun _ _ _ h _ ht => h.step stray ht)
    ⟨fun _ x hx => absurd hx (Option.not_mem_none x), Nat.zero_le _,
      fun _ x hx => absurd hx (Option.not_mem_none x)⟩

/-- Two configured cells, arrays that hold cleared records, and reads outside of the ring that
find cleared records too. -/
def twoCellLoop : TrackedLoop :=
  trackedInit (show 2 ≤ maxNofRfDev by decide) (fun _ => extractStart ngscopeDciCAInit 0) 0

/-- A packet with a plain header, received at a time. -/
def plainPacket (recvTimeNs : UInt64) : LoopAction :=
  .packet ⟨1, 0, 0, 0, 0, 0, 0⟩ 1500 recvTimeNs

/-- The second packet finds a burst in subframe 3 and gives it up again. The third one comes
when only the first cell has logged the retransmission of subframe 4, so it is missed. -/
def missedReTxActions : List LoopAction :=
  [.insert (subframeDci 1 1 1) 0, .insert (subframeDci 1 0 0) 1, plainPacket 1000000000,
    .insert (subframeDci 2 0 0) 0, .insert (subframeDci 2 0 0) 1,
    .insert (subframeDci 3 1 0) 0, .insert (subframeDci 3 0 0) 1, plainPacket 1001000000,
    .insert (subframeDci 4 1 0) 0, plainPacket 1002000000]

/-- A retry with the copies that the third packet made finds them on the clock. -/
theorem client_dci_clock_iff_retry :
    RunMeets (trackedStep fun _ _ => UeDci.zero) TimesOnClock twoCellLoop
      (missedReTxActions ++ [plainPacket 1003000000]) :=
  (client_dci_clock_iff _ (show 2 ≤ maxNofRfDev by decide) _ _ _).mpr (by decide +kernel)

/-- When an uplink retransmission causes the next copy, the retry finds times without the offset
-10000 that was estimated last. -/
theorem retry_after_uplink_off_clock :
    ¬ ∀ as, RunMeets (trackedStep fun _ _ => UeDci.zero) TimesOnClock twoCellLoop as := by
  intro hall
  have hrun := hall (missedReTxActions ++ [.insert (subframeDci 5 0 1) 0, plainPacket 1003000000])
  revert hrun
  decide +kernel

end CopaNgscope
