import CopaNgscope.Receiver

/-! Which clock the DCI times are on in `receiver.cc`: how often the offset has been added to the
arrays when they are read, and to the start of a burst. -/
namespace CopaNgscope
open RunInvariant

/-! ### Shifted arrays give the same trace but for its times -/

/-- Two logs that may differ in their times. -/
structure SameLog (d d' : NgscopeDci) : Prop where
  nofDci_eq : d'.nofDci = d.nofDci
  caHeader_eq : d'.caHeader = d.caHeader
  caTail_eq : d'.caTail = d.caTail
  tti_eq : d'.tti = d.tti
  tbs_eq : d'.dlDci.tbs = d.dlDci.tbs
  reTx_eq : d'.dlDci.reTx = d.dlDci.reTx

/-- Two traces that may differ in their times. -/
structure SameTrace (trace trace' : NgscopeReTxCa) : Prop where
  size_eq : trace'.size = trace.size
  tti_eq : trace'.tti = trace.tti
  reTx_eq : trace'.reTx = trace.reTx
  tbs_eq : trace'.tbs = trace.tbs

theorem sameLog_sync (dciAll : ℕ → NgscopeDci) (nofCell : ℕ) (offset : ℤ) (i : ℕ) :
    SameLog (dciAll i) (ngscopeDciSyncMultiCell dciAll nofCell offset i) := by
  unfold ngscopeDciSyncMultiCell
  split_ifs
  · exact ⟨rfl, rfl, rfl, rfl, rfl, rfl⟩
  · exact ⟨rfl, rfl, rfl, rfl, rfl, rfl⟩

theorem SameLog.extractCaEntry {d d' : NgscopeDci} (hd : SameLog d d') {nofCell : ℕ}
    {tailTti : UInt16} {j : ℤ} {res res' t : NgscopeReTxCa} (h : SameTrace res res')
    (ht : extractCaEntry d nofCell tailTti res j = some t) :
    ∃ t', extractCaEntry d' nofCell tailTti res' j = some t' ∧ SameTrace t t' := by
  unfold CopaNgscope.extractCaEntry at ht ⊢
  rw [hd.tti_eq, h.size_eq]
  extract_lets at ht ⊢
  split_ifs at ht ⊢
  · obtain rfl := Option.some.inj ht
    refine ⟨_, rfl, rfl, h.tti_eq, ?_, ?_⟩
    · simp only [h.reTx_eq, hd.reTx_eq]
    · simp only [h.tbs_eq, hd.tbs_eq]

theorem SameLog.extractCaCell {d d' : NgscopeDci} (hd : SameLog d d') {nofCell : ℕ}
    {headerTti tailTti : UInt16} {res res' t : NgscopeReTxCa} (h : SameTrace res res')
    (ht : extractCaCell d nofCell headerTti tailTti res = some t) :
    ∃ t', extractCaCell d' nofCell headerTti tailTti res' = some t' ∧ SameTrace t t' := by
  have hfind (tti : UInt16) : findTti d' tti = findTti d tti := by
    rw [findTti, findTti, hd.tti_eq, hd.nofDci_eq]
  unfold CopaNgscope.extractCaCell at ht ⊢
  rw [hfind, hfind]
  exact run_simulation (CopaNgscope.extractCaEntry d nofCell tailTti) SameTrace
    (fun j _ s s' u hs hu => hd.extractCaEntry hs hu) h ht

theorem sameTrace_extractCaTrace {d d' : ℕ → NgscopeDci} (hd : ∀ i, SameLog (d i) (d' i))
    {nofCell : ℕ} {trace : NgscopeReTxCa} (h : extractCaTrace d nofCell = some trace) :
    ∃ trace', extractCaTrace d' nofCell = some trace' ∧ SameTrace trace trace' := by
  unfold extractCaTrace at h ⊢
  rw [(hd 0).caHeader_eq, (hd 0).caTail_eq]
  exact run_simulation
    (fun res i => extractCaCell (d i) nofCell (UInt16.ofNat (d 0).caHeader)
      (UInt16.ofNat (d 0).caTail) res)
    SameTrace (fun i _ s s' u hs hu => (hd i).extractCaCell hs hu) ⟨rfl, rfl, rfl, rfl⟩ h

/-- Which retransmission is taken first does not depend on the times. -/
theorem SameTrace.firstReTx {trace trace' : NgscopeReTxCa} (h : SameTrace trace trace')
    (q : NgscopeReorderingBuf) : firstReTx q trace' = firstReTx q trace := by
  have hskips (i : ℕ) : SkipsEntry q trace' i ↔ SkipsEntry q trace i := by
    rw [SkipsEntry, SkipsEntry, h.tti_eq]
  unfold CopaNgscope.firstReTx
  simp only [h.size_eq, h.reTx_eq, hskips]

/-- The second call starts no burst: the first one either left an active buffer behind, or found
no retransmission to take. -/
theorem burstStart_second {q : NgscopeReorderingBuf} {trace trace' : NgscopeReTxCa}
    (h : SameTrace trace trace') : burstStart (updateReTxBuf q trace).1 trace' = none := by
  cases hactive : q.bufferActive with
  | true =>
    have hactive' := (updateReTxLoop_active hactive trace (List.range trace.size) false).1
    exact if_pos hactive'
  | false =>
    cases hfirst : firstReTx q trace with
    | none =>
      rw [updateReTxBuf_of_firstReTx_none hfirst, burstStart, h.firstReTx, hfirst]
      split_ifs <;> rfl
    | some i => exact if_pos (updateReTxBuf_of_firstReTx_some hactive hfirst).1

/-- The start of a burst that the first call finds stays as it is in the second one. -/
theorem bufStartT_second {q : NgscopeReorderingBuf} {trace trace' : NgscopeReTxCa} {i : ℕ}
    (h : burstStart q trace = some i) :
    (updateReTxBuf (updateReTxBuf q trace).1 trace').1.bufStartT = trace.rxTUs i := by
  obtain ⟨hactive, hstart⟩ := bufStartT_of_burstStart h
  exact (updateReTxLoop_active hactive trace' (List.range trace'.size) false).2.trans hstart

/-! ### The offset on the arrays and on the start -/

/-- The receiver, and what was copied into each entry with the sum of the offsets added since. -/
structure TrackedReceiver where
  receiver : Receiver
  taken : ℕ → Option Snapshot

/-- The snapshots after the poll, and after the shift. -/
def takenAtArrival (taken : ℕ → Option Snapshot) (r : Receiver) : ℕ → Option Snapshot :=
  if r.poller.newDlReTx then takeSnapshots taken r.poller.dciCa else taken

def takenAfterSync (taken : ℕ → Option Snapshot) (r : Receiver) : ℕ → Option Snapshot :=
  shiftSnapshots (takenAtArrival taken r) r.poller.nofCell r.packetOffset

section
variable (stray : NgscopeDciCell → ℤ → UeDci)

def trackedReceiverStep (s : TrackedReceiver) (a : ReceiverAction) : Option TrackedReceiver :=
  (receiverStep stray s.receiver a).map fun t => { receiver := t, taken := match a with
    | .packet header received recvTimeNs =>
      takenAfterSync s.taken (s.receiver.arrive header received recvTimeNs)
    | _ => s.taken }

end

def trackedReceiverInit {nofCell : ℕ} (h : nofCell ≤ maxNofRfDev) (dciAll : ℕ → NgscopeDci) :
    TrackedReceiver :=
  ⟨receiverInit h dciAll, fun _ => none⟩

/-- After the shift every time in the arrays is the raw one plus the offset once. -/
def ShiftedOnce (taken : ℕ → Option Snapshot) (r : Receiver) : Prop :=
  EntriesOnClock r.syncedDci (takenAfterSync taken r) r.poller.nofCell r.packetOffset

/-- The first or the second call of `ngscope_reTx_update_buf` starts a burst at entry `i`. -/
def StartsBurst (r : Receiver) (trace : NgscopeReTxCa) (i : ℕ) : Prop :=
  burstStart r.reTxBuffer trace = some i ∨
    ∃ q ∈ r.updateBuf r.poller.dciAll r.reTxBuffer,
      ∃ trace' ∈ extractCaTrace r.syncedDci r.poller.nofCell, burstStart q trace' = some i

/-- A burst that is started gets its raw time plus the offset as its start. -/
def StartOnClock (r : Receiver) : Prop :=
  r.poller.newDlReTx = true → ∀ trace ∈ extractCaTrace r.poller.dciAll r.poller.nofCell,
    ∀ q ∈ r.updates, ∀ i, StartsBurst r trace i →
      q.bufStartT = addOffset (trace.rxTUs i) r.packetOffset

/-- The second call of `ngscope_reTx_update_buf` and the search for the first packet find times
on the packet clock, and so is the start of a burst. -/
def OnPacketClock (taken : ℕ → Option Snapshot) (r : Receiver) : Prop :=
  (r.poller.newDlReTx = true → ShiftedOnce taken r) ∧
    (∀ q ∈ r.updates, Receiver.Searches q → ShiftedOnce taken r) ∧ StartOnClock r

/-- A packet with a new retransmission starts no burst, or its offset is 0. Without one, a search
finds in each configured entry a copy that was not shifted yet, or one without times. -/
def NotShiftedYet (taken : ℕ → Option Snapshot) (r : Receiver) : Prop :=
  (r.poller.newDlReTx = true → ∀ trace ∈ extractCaTrace r.poller.dciAll r.poller.nofCell,
    burstStart r.reTxBuffer trace = none ∨ r.packetOffset = 0) ∧
  (r.poller.newDlReTx = false → Receiver.Searches r.reTxBuffer → ∀ i < r.poller.nofCell,
    ∃ x ∈ taken i, x.offset ≡ 0 [ZMOD 2^64] ∨ ¬ x.raw.HasTimes)

/-- A condition on the receiver as a packet finds it, after the poll. -/
def AtPacket (P : (ℕ → Option Snapshot) → Receiver → Prop) (s : TrackedReceiver) :
    ReceiverAction → Prop
  | .packet header received recvTimeNs => P s.taken (s.receiver.arrive header received recvTimeNs)
  | _ => True

theorem dciAll_arrive (s : Receiver) (header : TCPHeader) (received : UInt32)
    (recvTimeNs : UInt64) :
    (s.arrive header received recvTimeNs).poller.dciAll =
      if (s.arrive header received recvTimeNs).poller.newDlReTx then
        ngscopeDciExtractMultiCell s.poller.dciAll
          (s.arrive header received recvTimeNs).poller.dciCa
      else s.poller.dciAll := rfl

theorem showsSnapshots_arrive {s : TrackedReceiver}
    (h : ShowsSnapshots s.receiver.poller.dciAll s.taken) (header : TCPHeader) (received : UInt32)
    (recvTimeNs : UInt64) :
    ShowsSnapshots (s.receiver.arrive header received recvTimeNs).poller.dciAll
      (takenAtArrival s.taken (s.receiver.arrive header received recvTimeNs)) := by
  rw [dciAll_arrive, takenAtArrival]
  split_ifs
  · exact h.extract _
  · exact h

/-- With a new retransmission the copies are new. -/
theorem shiftedOnce_of_newDlReTx {taken : ℕ → Option Snapshot} {r : Receiver}
    (h : ShowsSnapshots r.poller.dciAll (takenAtArrival taken r))
    (hcell : r.poller.nofCell = r.poller.dciCa.nofCell) (hdl : r.poller.newDlReTx = true) :
    ShiftedOnce taken r := by
  refine (entriesOnClock_iff (h.sync _ _) _ _).mpr (fun i hi => ?_)
  rw [takenAtArrival, if_pos hdl, hcell]
  rw [hcell] at hi
  exact ⟨_, shiftSnapshots_take _ _ _ hi, Or.inl (Int.ModEq.refl _)⟩

/-- Without one the offset comes on top of what was added before. -/
theorem shiftedOnce_iff {taken : ℕ → Option Snapshot} {r : Receiver}
    (h : ShowsSnapshots r.poller.dciAll (takenAtArrival taken r))
    (hdl : r.poller.newDlReTx = false) :
    ShiftedOnce taken r ↔ ∀ i < r.poller.nofCell,
      ∃ x ∈ taken i, x.offset ≡ 0 [ZMOD 2^64] ∨ ¬ x.raw.HasTimes := by
  have htaken : takenAtArrival taken r = taken :=
    if_neg (by rw [hdl]; exact Bool.false_ne_true)
  refine (entriesOnClock_iff (h.sync _ _) _ _).trans (forall₂_congr (fun i hi => ?_))
  rw [htaken, shiftSnapshots, if_pos hi]
  -- the offset of this packet is on both sides
  have hmod (x : Snapshot) : (x.shift r.packetOffset).offset ≡ r.packetOffset [ZMOD 2^64] ↔
      x.offset ≡ 0 [ZMOD 2^64] := by
    constructor
    · intro hx
      have hzero : x.offset+r.packetOffset ≡ 0+r.packetOffset [ZMOD 2^64] := by
        rw [zero_add]
        exact hx
      exact Int.ModEq.add_right_cancel' _ hzero
    · intro hx
      have hsum := hx.add_right r.packetOffset
      rwa [zero_add] at hsum
  constructor
  · intro hshifted
    obtain ⟨y, hy, hclock⟩ := hshifted
    obtain ⟨x, hx, rfl⟩ := Option.map_eq_some_iff.mp hy
    exact ⟨x, hx, hclock.imp_left (hmod x).mp⟩
  · intro hcopied
    obtain ⟨x, hx, hclock⟩ := hcopied
    exact ⟨x.shift r.packetOffset, Option.map_eq_some_iff.mpr ⟨x, hx, rfl⟩,
      hclock.imp_left (hmod x).mpr⟩

/-- The first call sets the start of a burst to its raw time. -/
theorem startOnClock_iff {r : Receiver} (hdl : r.poller.newDlReTx = true) :
    StartOnClock r ↔ ∀ trace ∈ extractCaTrace r.poller.dciAll r.poller.nofCell,
      burstStart r.reTxBuffer trace = none ∨ r.packetOffset = 0 := by
  have hbound : r.packetOffset.natAbs ≤ 10000 := by
    rw [Receiver.packetOffset, if_pos hdl]
    exact natAbs_of_mem_offsetVec (ngscopeSyncDciPkt_mem _ _ (by decide))
  have hzero (t : UInt64) : t = addOffset t r.packetOffset ↔ r.packetOffset = 0 := by
    rw [← modEq_iff_of_natAbs_le hbound (Nat.zero_le _), ← addOffset_eq_addOffset_iff t,
      addOffset_zero, eq_comm]
  have hiff : StartOnClock r ↔ ∀ trace ∈ extractCaTrace r.poller.dciAll r.poller.nofCell,
      ∀ q ∈ r.updates, ∀ i, StartsBurst r trace i →
        q.bufStartT = addOffset (trace.rxTUs i) r.packetOffset := imp_iff_right hdl
  rw [hiff]
  refine forall₂_congr (fun trace htrace => ?_)
  -- the shift moves times only, so both calls see the same retransmissions
  obtain ⟨trace', htrace', hsame⟩ := sameTrace_extractCaTrace
    (sameLog_sync r.poller.dciAll r.poller.nofCell r.packetOffset) htrace
  have hfirst : r.updateBuf r.poller.dciAll r.reTxBuffer =
      some (updateReTxBuf r.reTxBuffer trace).1 := by
    rw [Receiver.updateBuf, if_pos hdl, ngscopeReTxUpdateBuf, htrace]
    rfl
  have hupdates : r.updates =
      some (updateReTxBuf (updateReTxBuf r.reTxBuffer trace).1 trace').1 := by
    rw [Receiver.updates, hfirst, Option.bind_some, Receiver.updateBuf, if_pos hdl,
      ngscopeReTxUpdateBuf, Receiver.syncedDci, htrace']
    rfl
  -- whatever the first call leaves, the second one starts no burst
  have hstarts (i : ℕ) : StartsBurst r trace i ↔ burstStart r.reTxBuffer trace = some i := by
    refine or_iff_left ?_
    intro hsecond
    obtain ⟨q, hq, trace'', htrace'', hstart⟩ := hsecond
    rw [Receiver.syncedDci, htrace'] at htrace''
    obtain rfl := Option.mem_some.mp htrace''
    rw [hfirst] at hq
    obtain rfl := Option.mem_some.mp hq
    rw [burstStart_second hsame] at hstart
    cases hstart
  constructor
  · intro hall
    cases hstart : burstStart r.reTxBuffer trace with
    | none => exact Or.inl rfl
    | some i =>
      have hi := hall _ hupdates i ((hstarts i).mpr hstart)
      rw [bufStartT_second hstart] at hi
      exact Or.inr ((hzero _).mp hi)
  · intro hor q hq i hi
    have hstart := (hstarts i).mp hi
    rw [hupdates] at hq
    obtain rfl := Option.mem_some.mp hq
    rw [bufStartT_second hstart]
    exact (hzero _).mpr (hor.resolve_left (by rw [hstart]; exact Option.some_ne_none i))

theorem onPacketClock_iff {taken : ℕ → Option Snapshot} {r : Receiver}
    (h : ShowsSnapshots r.poller.dciAll (takenAtArrival taken r))
    (hcell : r.poller.nofCell = r.poller.dciCa.nofCell) :
    OnPacketClock taken r ↔ NotShiftedYet taken r := by
  cases hdl : r.poller.newDlReTx with
  | true =>
    -- the copies are new, what is left is the start
    have honce := shiftedOnce_of_newDlReTx h hcell hdl
    rw [OnPacketClock, NotShiftedYet, startOnClock_iff hdl]
    constructor
    · exact fun hclock => ⟨fun _ => hclock.2.2, fun hfalse => absurd (hdl.symm.trans hfalse)
        (by decide)⟩
    · exact fun hnot => ⟨fun _ => honce, fun _ _ _ => honce, hnot.1 hdl⟩
  | false =>
    -- neither call is made, what is left is the search
    have hnodl : r.poller.newDlReTx ≠ true := by
      rw [hdl]
      exact Bool.false_ne_true
    have hupdates : r.updates = some r.reTxBuffer := by
      rw [Receiver.updates, Receiver.updateBuf, if_neg hnodl, Option.bind_some,
        Receiver.updateBuf, if_neg hnodl]
    rw [OnPacketClock, NotShiftedYet, hupdates, ← shiftedOnce_iff h hdl]
    constructor
    · exact fun hclock => ⟨fun htrue => absurd htrue hnodl, fun _ => hclock.2.1 _ rfl⟩
    · intro hnot
      refine ⟨fun htrue => absurd htrue hnodl, fun q hq hsearch => ?_,
        fun htrue => absurd htrue hnodl⟩
      obtain rfl := Option.mem_some.mp hq
      exact hnot.2 hdl hsearch

theorem showsSnapshots_step (stray : NgscopeDciCell → ℤ → UeDci) {s t : TrackedReceiver}
    {a : ReceiverAction} (h : ShowsSnapshots s.receiver.poller.dciAll s.taken)
    (ht : trackedReceiverStep stray s a = some t) :
    ShowsSnapshots t.receiver.poller.dciAll t.taken := by
  obtain ⟨u, hu, rfl⟩ := Option.map_eq_some_iff.mp ht
  cases a with
  | packet header received recvTimeNs =>
    obtain ⟨q, _, hq⟩ := Option.bind_eq_some_iff.mp hu
    obtain ⟨q', _, rfl⟩ := Option.map_eq_some_iff.mp hq
    exact (showsSnapshots_arrive h header received recvTimeNs).sync _ _
  | insert ueDci cellIdx =>
    obtain ⟨q, _, rfl⟩ := Option.map_eq_some_iff.mp hu
    exact h
  | config cellPrb =>
    obtain ⟨q, _, rfl⟩ := Option.map_eq_some_iff.mp hu
    exact h

/-- In every run the times are on the packet clock where they are read, and bursts start on it,
exactly when no packet with a nonzero offset starts a burst and no search comes after the first
shift of a copy. -/
theorem receiver_clock_iff (stray : NgscopeDciCell → ℤ → UeDci) {nofCell : ℕ}
    (hcell : nofCell ≤ maxNofRfDev) (dciAll : ℕ → NgscopeDci) (as : List ReceiverAction) :
    RunMeets (trackedReceiverStep stray) (AtPacket OnPacketClock)
        (trackedReceiverInit hcell dciAll) as ↔
      RunMeets (trackedReceiverStep stray) (AtPacket NotShiftedYet)
        (trackedReceiverInit hcell dciAll) as := by
  refine runMeets_congr (trackedReceiverStep stray)
    (fun s => ShowsSnapshots s.receiver.poller.dciAll s.taken) (fun s a h => ?_)
    (fun _ _ _ h _ ht => showsSnapshots_step stray h ht)
    (fun _ x hx => absurd hx (Option.not_mem_none x))
  cases a with
  | packet header received recvTimeNs =>
    exact onPacketClock_iff (showsSnapshots_arrive h header received recvTimeNs) rfl
  | insert ueDci cellIdx => exact Iff.rfl
  | config cellPrb => exact Iff.rfl

instance (taken : ℕ → Option Snapshot) (r : Receiver) : Decidable (ShiftedOnce taken r) :=
  inferInstanceAs (Decidable (EntriesOnClock _ _ _ _))

instance (taken : ℕ → Option Snapshot) (r : Receiver) : Decidable (NotShiftedYet taken r) :=
  inferInstanceAs (Decidable (
    (r.poller.newDlReTx = true → ∀ trace ∈ extractCaTrace r.poller.dciAll r.poller.nofCell,
      burstStart r.reTxBuffer trace = none ∨ r.packetOffset = 0) ∧
    (r.poller.newDlReTx = false → Receiver.Searches r.reTxBuffer → ∀ i < r.poller.nofCell,
      ∃ x ∈ taken i, x.offset ≡ 0 [ZMOD 2^64] ∨ ¬ x.raw.HasTimes)))

instance (P : (ℕ → Option Snapshot) → Receiver → Prop) [∀ taken r, Decidable (P taken r)]
    (s : TrackedReceiver) : ∀ a, Decidable (AtPacket P s a)
  | .packet _ _ _ => inferInstanceAs (Decidable (P _ _))
  | .insert _ _ => isTrue trivial
  | .config _ => isTrue trivial

/-- One configured cell, arrays that hold cleared records, and reads outside of the ring that
find cleared records too. -/
def oneCellReceiver : TrackedReceiver :=
  trackedReceiverInit ngscopeDciCAInit.nofCell_le (fun _ => extractStart ngscopeDciCAInit 0)

/-- A packet that was `onewayMs` on the way. -/
def delayedPacket (recvTimeMs onewayMs : UInt64) : ReceiverAction :=
  .packet ⟨1, 0, 0, 0, (recvTimeMs-onewayMs)*1000000, 0, 0⟩ 1500 (recvTimeMs*1000000)

/-- Only one of two cells has logged the retransmission of subframe 4, so no burst starts. -/
theorem receiver_clock_iff_one_cell_ahead :
    RunMeets (trackedReceiverStep fun _ _ => UeDci.zero) (AtPacket OnPacketClock)
      (trackedReceiverInit (show 2 ≤ maxNofRfDev by decide)
        (fun _ => extractStart ngscopeDciCAInit 0))
      [.insert (subframeDci 1 1 0) 0, .insert (subframeDci 1 0 0) 1, delayedPacket 1000 20,
        .insert (subframeDci 2 0 0) 0, .insert (subframeDci 2 0 0) 1,
        .insert (subframeDci 3 0 0) 0, .insert (subframeDci 3 0 0) 1,
        .insert (subframeDci 4 1 0) 0, delayedPacket 1005 20, delayedPacket 1006 20] :=
  (receiver_clock_iff _ (show 2 ≤ maxNofRfDev by decide) _ _).mpr (by decide +kernel)

/-- The second packet estimates the offset -10000 and finds a burst; the third one adds the
offset again before it looks for the first packet of the burst. -/
def shiftedTwiceActions : List ReceiverAction :=
  [.insert (subframeDci 1 1 0) 0, delayedPacket 1000 20, .insert (subframeDci 2 0 0) 0,
    .insert (subframeDci 3 1 0) 0, delayedPacket 1005 20, delayedPacket 1006 20]

theorem receiver_times_shifted_twice :
    ¬ ∀ as, RunMeets (trackedReceiverStep fun _ _ => UeDci.zero) (AtPacket OnPacketClock)
      oneCellReceiver as := by
  intro hall
  have hsearch : RunMeets (trackedReceiverStep fun _ _ => UeDci.zero)
      (AtPacket fun taken r => ∀ q ∈ r.updates, Receiver.Searches q → ShiftedOnce taken r)
      oneCellReceiver shiftedTwiceActions := by
    refine (hall shiftedTwiceActions).mono (fun s a h => ?_)
    cases a with
    | packet header received recvTimeNs => exact h.2.1
    | insert ueDci cellIdx => trivial
    | config cellPrb => trivial
  revert hsearch
  decide +kernel

end CopaNgscope
