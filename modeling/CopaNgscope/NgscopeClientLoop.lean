import CopaNgscope.NgscopeClient
import CopaNgscope.NgscopeDciClock
import CopaNgscope.NgscopeDciRecv

/-! The packet loop of `dci_copa_rx.cc` with the receive thread beside it. Every packet is polled
for, listed and handled; the arrays of DCIs live on from packet to packet and are shifted in
place. -/
namespace CopaNgscope
open RunInvariant

/-- The data shared with the receive thread and the arrays of DCIs, and the packet client. -/
structure ClientLoop where
  poller : DciPoller
  client : ClientState

/-- The receive thread inserts a DCI or configures the cells; the packet thread handles a packet
or sends. The threads share only what the mutex guards, so each of these is one step. -/
inductive LoopAction
  | insert (ueDci : UeDci) (cellIdx : ℕ)
  | config (cellPrb : List UInt16)
  | packet (header : TCPHeader) (received : UInt32) (recvTimeNs : UInt64)
  | send (currTUs : UInt64) (goExit : ℕ → Bool) (stale : TCPHeader)

/-- `dci_pkt_offset`, a local of `pkt_handling`. -/
def packetOffset (p : DciPoller) (client : ClientState) : ℤ :=
  dciPktOffset (ngscopeListGetReTx client.pktList (ngscopeListLength client.pktList)) p.dciAll
    p.newDlReTx p.nofCell

/-- `copy_dci_data_from_struct`, `enqueue_pkt` and `pkt_handling`, which leaves the arrays
shifted. -/
def handlePacket (s : ClientLoop) (header : TCPHeader) (received : UInt32) (recvTimeNs : UInt64) :
    Option ClientLoop :=
  let p := copyDciDataFromStruct s.poller
  let client := enqueuePkt s.client header received recvTimeNs
  (pktHandling client p.dciAll p.newDlReTx p.nofCell).map fun client' =>
    { poller := { p with
        dciAll := ngscopeDciSyncMultiCell p.dciAll p.nofCell (packetOffset p client) }
      client := client' }

section
variable (stray : NgscopeDciCell → ℤ → UeDci)

def clientLoopStep (s : ClientLoop) : LoopAction → Option ClientLoop
  | .insert ueDci cellIdx =>
    (ngscopeDciCAInsert stray s.poller.dciCa ueDci cellIdx).map fun q =>
      { s with poller := { s.poller with dciCa := q } }
  | .config cellPrb =>
    (s.poller.dciCa.config cellPrb).map fun q => { s with poller := { s.poller with dciCa := q } }
  | .packet header received recvTimeNs => handlePacket s header received recvTimeNs
  | .send currTUs goExit stale =>
    some { s with client := sendPktList s.client currTUs goExit stale }

end

/-! ### The history of the arrays -/

/-- What was copied into each entry, the offset estimated last, and the most cells a poll found
configured that reported a retransmission. -/
structure DciHistory where
  taken : ℕ → Option Snapshot
  estimate : ℤ
  cells : ℕ

/-- The snapshots after a poll: one that reports copies the logs. -/
def takenAtPoll (p : DciPoller) (h : DciHistory) : ℕ → Option Snapshot :=
  if p.newDlReTx || p.newUlReTx then takeSnapshots h.taken p.dciCa else h.taken

def DciHistory.packet (h : DciHistory) (p : DciPoller) (client : ClientState) : DciHistory where
  taken := shiftSnapshots (takenAtPoll p h) p.nofCell (packetOffset p client)
  estimate := if p.newDlReTx then packetOffset p client else h.estimate
  cells := if p.newDlReTx || p.newUlReTx then max h.cells p.nofCell else h.cells

/-- The loop and the history beside it, which no step of the loop looks at. -/
structure TrackedLoop where
  loop : ClientLoop
  history : DciHistory

/-- The poll and the list that `pkt_handling` finds when the packet comes. -/
def TrackedLoop.polled (s : TrackedLoop) : DciPoller := copyDciDataFromStruct s.loop.poller

def TrackedLoop.listed (s : TrackedLoop) (header : TCPHeader) (received : UInt32)
    (recvTimeNs : UInt64) : ClientState :=
  enqueuePkt s.loop.client header received recvTimeNs

def TrackedLoop.record (s : TrackedLoop) : LoopAction → DciHistory
  | .packet header received recvTimeNs =>
    s.history.packet s.polled (s.listed header received recvTimeNs)
  | _ => s.history

section
variable (stray : NgscopeDciCell → ℤ → UeDci)

def trackedStep (s : TrackedLoop) (a : LoopAction) : Option TrackedLoop :=
  (clientLoopStep stray s.loop a).map fun t => ⟨t, s.record a⟩

end

/-- Some cells are configured, nothing is seen yet, and the arrays hold anything. -/
def trackedInit {nofCell : ℕ} (h : nofCell ≤ maxNofRfDev) (dciAll : ℕ → NgscopeDci)
    (lastTxPktTUs : UInt64) : TrackedLoop where
  loop := ⟨dciPollerInit h dciAll, clientInit lastTxPktTUs⟩
  history := ⟨fun _ => none, 0, 0⟩

/-- The tracked loop runs as the loop does. -/
theorem trackedStep_loop (stray : NgscopeDciCell → ℤ → UeDci) (s : TrackedLoop) (a : LoopAction) :
    (trackedStep stray s a).map TrackedLoop.loop = clientLoopStep stray s.loop a := by
  rw [trackedStep, Option.map_map]
  exact congrFun Option.map_id _

theorem handlePacket_poller {s t : ClientLoop} {header : TCPHeader} {received : UInt32}
    {recvTimeNs : UInt64} (ht : handlePacket s header received recvTimeNs = some t) :
    t.poller = { copyDciDataFromStruct s.poller with
      dciAll := ngscopeDciSyncMultiCell (copyDciDataFromStruct s.poller).dciAll
        (copyDciDataFromStruct s.poller).nofCell (packetOffset (copyDciDataFromStruct s.poller)
          (enqueuePkt s.client header received recvTimeNs)) } := by
  obtain ⟨client, _, rfl⟩ := Option.map_eq_some_iff.mp ht
  rfl

/-- A step handles a packet, or it leaves the history and all but the logs of the poller. -/
theorem trackedStep_cases {stray : NgscopeDciCell → ℤ → UeDci} {s t : TrackedLoop} {a : LoopAction}
    (ht : trackedStep stray s a = some t) :
    (∃ header received recvTimeNs, a = .packet header received recvTimeNs ∧
      handlePacket s.loop header received recvTimeNs = some t.loop ∧
      t.history = s.history.packet s.polled (s.listed header received recvTimeNs)) ∨
    (t.history = s.history ∧ ∃ q, t.loop.poller = { s.loop.poller with dciCa := q }) := by
  obtain ⟨u, hu, rfl⟩ := Option.map_eq_some_iff.mp ht
  cases a with
  | packet header received recvTimeNs =>
    exact Or.inl ⟨header, received, recvTimeNs, rfl, hu, rfl⟩
  | insert ueDci cellIdx =>
    obtain ⟨q, _, rfl⟩ := Option.map_eq_some_iff.mp hu
    exact Or.inr ⟨rfl, q, rfl⟩
  | config cellPrb =>
    obtain ⟨q, _, rfl⟩ := Option.map_eq_some_iff.mp hu
    exact Or.inr ⟨rfl, q, rfl⟩
  | send currTUs goExit stale =>
    cases hu
    exact Or.inr ⟨rfl, s.loop.poller.dciCa, rfl⟩

/-! ### Entries written before they are read -/

theorem extractCaTrace_congr {d d' : ℕ → NgscopeDci} {nofCell : ℕ} (hpos : 0 < nofCell)
    (h : ∀ i < nofCell, d i = d' i) : extractCaTrace d nofCell = extractCaTrace d' nofCell := by
  unfold extractCaTrace
  rw [h 0 hpos]
  refine run_congr _ (fun i hi res => ?_) _
  rw [h i (List.mem_range.mp hi)]

/-- With a cell configured `pkt_handling` looks at no entry from `nof_cell` on. -/
theorem pktHandling_congr {d d' : ℕ → NgscopeDci} {nofCell : ℕ} (hpos : 0 < nofCell)
    (h : ∀ i < nofCell, d i = d' i) (s : ClientState) (newDlReTx : Bool) :
    pktHandling s d newDlReTx nofCell = pktHandling s d' newDlReTx nofCell := by
  have htimes : ngscopeDciGetReTxT d nofCell = ngscopeDciGetReTxT d' nofCell := by
    refine congrArg quickSortUint64 (List.flatMap_congr (fun i hi => ?_))
    rw [h i (List.mem_range.mp hi)]
  -- all that follows reads the shifted entries
  have hsync (offset : ℤ) (i : ℕ) (hi : i < nofCell) :
      ngscopeDciSyncMultiCell d nofCell offset i = ngscopeDciSyncMultiCell d' nofCell offset i := by
    rw [ngscopeDciSyncMultiCell, ngscopeDciSyncMultiCell, h i hi]
  have hupdate (offset : ℤ) :
      handleReTx s (ngscopeDciSyncMultiCell d nofCell offset) newDlReTx nofCell =
        handleReTx s (ngscopeDciSyncMultiCell d' nofCell offset) newDlReTx nofCell := by
    unfold handleReTx ngscopeReTxUpdateBuf
    rw [extractCaTrace_congr hpos (hsync offset)]
  unfold pktHandling dciPktOffset
  rw [htimes]
  extract_lets nofPkt offset dciAll dciAll'
  have hzero : dciAll 0 = dciAll' 0 := hsync offset 0 hpos
  have hreTx : handleReTx s dciAll newDlReTx nofCell = handleReTx s dciAll' newDlReTx nofCell :=
    hupdate offset
  rw [hzero, hreTx]

/-- The entries below `nof_cell` that `pkt_handling` reads: `ngscope_dci_sync_multi_cell` reads
each of them for every packet. -/
def entriesRead (p : DciPoller) : List ℕ := List.range p.nofCell

/-- What the packet reads has been written by a copy of the logs. -/
def ReadsWritten (s : TrackedLoop) : LoopAction → Prop
  | .packet _ _ _ => ∀ i ∈ entriesRead s.polled, (takenAtPoll s.polled s.history i).isSome
  | _ => True

/-- The packet's poll reports a retransmission, or an earlier one did with as many cells
configured. -/
def PollsCover (s : TrackedLoop) : LoopAction → Prop
  | .packet _ _ _ => s.polled.newDlReTx = true ∨ s.polled.newUlReTx = true ∨
      s.polled.nofCell ≤ s.history.cells
  | _ => True

/-- The entries copied so far are those of the most cells seen. -/
def TakenBelow (h : DciHistory) : Prop := ∀ i, (h.taken i).isSome = true ↔ i < h.cells

theorem TrackedLoop.nofCell_polled (s : TrackedLoop) :
    s.polled.nofCell = s.polled.dciCa.nofCell := rfl

theorem isSome_takeSnapshots (taken : ℕ → Option Snapshot) (dciCa : NgscopeDciCA) (i : ℕ) :
    (takeSnapshots taken dciCa i).isSome = true ↔ i < dciCa.nofCell ∨ (taken i).isSome = true := by
  unfold takeSnapshots
  split_ifs with h
  · exact iff_of_true rfl (Or.inl h)
  · exact (or_iff_right h).symm

theorem isSome_shiftSnapshots (taken : ℕ → Option Snapshot) (nofCell : ℕ) (offset : ℤ) (i : ℕ) :
    (shiftSnapshots taken nofCell offset i).isSome = (taken i).isSome := by
  unfold shiftSnapshots
  split_ifs
  · exact Option.isSome_map
  · rfl

theorem isSome_takenAtPoll {p : DciPoller} {h : DciHistory} (hbelow : TakenBelow h)
    (hcell : p.nofCell = p.dciCa.nofCell) (i : ℕ) :
    (takenAtPoll p h i).isSome = true ↔
      ((p.newDlReTx || p.newUlReTx) = true ∧ i < p.nofCell) ∨ i < h.cells := by
  unfold takenAtPoll
  split_ifs with hreport
  · rw [isSome_takeSnapshots, hbelow i, hreport, hcell, and_iff_right rfl]
  · rw [hbelow i, or_iff_right (fun hnew => hreport hnew.1)]

theorem takenBelow_step (stray : NgscopeDciCell → ℤ → UeDci) {s t : TrackedLoop} {a : LoopAction}
    (h : TakenBelow s.history) (ht : trackedStep stray s a = some t) : TakenBelow t.history := by
  rcases trackedStep_cases ht with ⟨header, received, recvTimeNs, _, _, hhistory⟩ | ⟨hsame, _⟩
  · intro i
    rw [hhistory]
    -- the shift copies nothing
    refine (Eq.to_iff (congrArg (· = true) (isSome_shiftSnapshots _ _ _ i))).trans ?_
    rw [isSome_takenAtPoll h s.nofCell_polled]
    change _ ↔ i < (if s.polled.newDlReTx || s.polled.newUlReTx then
      max s.history.cells s.polled.nofCell else s.history.cells)
    split_ifs with hreport
    · rw [hreport, and_iff_right rfl, lt_max_iff, or_comm]
    · exact or_iff_right (fun hnew => hreport hnew.1)
  · rw [hsame]
    exact h

theorem readsWritten_iff {s : TrackedLoop} (h : TakenBelow s.history) (a : LoopAction) :
    ReadsWritten s a ↔ PollsCover s a := by
  cases a with
  | packet header received recvTimeNs =>
    have hread : ReadsWritten s (.packet header received recvTimeNs) ↔ ∀ i < s.polled.nofCell,
        ((s.polled.newDlReTx || s.polled.newUlReTx) = true ∧ i < s.polled.nofCell) ∨
          i < s.history.cells := by
      refine forall_congr' (fun i => ?_)
      rw [entriesRead, List.mem_range, isSome_takenAtPoll h s.nofCell_polled]
    rw [hread, PollsCover, ← or_assoc, ← Bool.or_eq_true]
    constructor
    · intro hall
      -- without a report the first entry beyond the copies must not be read
      refine or_iff_not_imp_left.mpr (fun hreport => not_lt.mp (fun hlt => ?_))
      rcases hall s.history.cells hlt with hnew | hself
      · exact hreport hnew.1
      · exact lt_irrefl _ hself
    · intro hcover i hi
      rcases hcover with hreport | hle
      · exact Or.inl ⟨hreport, hi⟩
      · exact Or.inr (hi.trans_le hle)
  | insert ueDci cellIdx => exact Iff.rfl
  | config cellPrb => exact Iff.rfl
  | send currTUs goExit stale => exact Iff.rfl

/-- No packet comes while a cell is configured. -/
def NoCells (s : TrackedLoop) : LoopAction → Prop
  | .packet _ _ _ => s.loop.poller.dciCa.nofCell = 0
  | _ => True

/-- Nothing was copied, and no cell's retransmissions were looked at. -/
structure Unseen (s : TrackedLoop) : Prop where
  taken_eq : ∀ i, s.history.taken i = none
  dl_eq : ∀ i, s.loop.poller.recentDlReTxUs i = 0
  ul_eq : ∀ i, s.loop.poller.recentUlReTxUs i = 0

/-- The first poll reports nothing: it only sets the times last seen. -/
theorem newReTx_unseen (recentReTxTUs : NgscopeDciCell → UInt64) (q : NgscopeDciCA)
    {reTxUs : ℕ → UInt64} (h : ∀ i, reTxUs i = 0) :
    (ngscopeDciNewReTx recentReTxTUs q (List.range q.nofCell) reTxUs).2 = false := by
  rw [← Bool.not_eq_true, newReTx_eq_true_iff recentReTxTUs q List.nodup_range]
  intro hnew
  obtain ⟨i, _, hne, _⟩ := hnew
  exact hne (h i)

theorem Unseen.readsWritten_iff {s : TrackedLoop} (h : Unseen s) (a : LoopAction) :
    ReadsWritten s a ↔ NoCells s a := by
  cases a with
  | packet header received recvTimeNs =>
    -- no poll reports, so what is read is as it was before
    have hdl : s.polled.newDlReTx = false := newReTx_unseen _ _ h.dl_eq
    have hul : s.polled.newUlReTx = false := newReTx_unseen _ _ h.ul_eq
    have hnone (i : ℕ) : (takenAtPoll s.polled s.history i).isSome = false := by
      rw [takenAtPoll, hdl, hul, Bool.or_false, if_neg Bool.false_ne_true, h.taken_eq i]
      rfl
    constructor
    · intro hall
      refine Nat.eq_zero_of_not_pos (fun hpos => ?_)
      have hread := hall 0 (List.mem_range.mpr hpos)
      rw [hnone 0] at hread
      exact Bool.false_ne_true hread
    · intro hzero i hi
      have hlt : i < s.loop.poller.dciCa.nofCell := List.mem_range.mp hi
      rw [show s.loop.poller.dciCa.nofCell = 0 from hzero] at hlt
      exact absurd hlt (Nat.not_lt_zero i)
  | insert ueDci cellIdx => exact Iff.rfl
  | config cellPrb => exact Iff.rfl
  | send currTUs goExit stale => exact Iff.rfl

theorem Unseen.step (stray : NgscopeDciCell → ℤ → UeDci) {s t : TrackedLoop} {a : LoopAction}
    (h : Unseen s) (hok : NoCells s a) (ht : trackedStep stray s a = some t) : Unseen t := by
  rcases trackedStep_cases ht with
    ⟨header, received, recvTimeNs, rfl, hu, hhistory⟩ | ⟨hsame, q, hpoller⟩
  · have hzero : s.loop.poller.dciCa.nofCell = 0 := hok
    -- without a cell the polls loop over nothing
    have hloop (recentReTxTUs : NgscopeDciCell → UInt64) (reTxUs : ℕ → UInt64) :
        ngscopeDciNewReTx recentReTxTUs s.loop.poller.dciCa
          (List.range s.loop.poller.dciCa.nofCell) reTxUs = (reTxUs, false) := by
      rw [hzero]
      rfl
    have hdl : ngscopeDciNewDlReTx s.loop.poller.dciCa s.loop.poller.recentDlReTxUs =
      (s.loop.poller.recentDlReTxUs, false) := hloop _ _
    have hul : ngscopeDciNewUlReTx s.loop.poller.dciCa s.loop.poller.recentUlReTxUs =
      (s.loop.poller.recentUlReTxUs, false) := hloop _ _
    have hpoller := handlePacket_poller hu
    refine ⟨fun i => ?_, fun i => ?_, fun i => ?_⟩
    · have hnone : (takenAtPoll s.polled s.history i) = none := by
        have hdl' : s.polled.newDlReTx = false := congrArg Prod.snd hdl
        have hul' : s.polled.newUlReTx = false := congrArg Prod.snd hul
        rw [takenAtPoll, hdl', hul', Bool.or_false, if_neg Bool.false_ne_true, h.taken_eq i]
      have hcell : s.polled.nofCell = 0 := hzero
      rw [hhistory]
      change shiftSnapshots (takenAtPoll s.polled s.history) s.polled.nofCell _ i = none
      rw [hcell, shiftSnapshots, if_neg (Nat.not_lt_zero i), hnone]
    · rw [hpoller]
      change (copyDciDataFromStruct s.loop.poller).recentDlReTxUs i = 0
      rw [copyDciDataFromStruct, hdl]
      exact h.dl_eq i
    · rw [hpoller]
      change (copyDciDataFromStruct s.loop.poller).recentUlReTxUs i = 0
      rw [copyDciDataFromStruct, hul]
      exact h.ul_eq i
  · refine ⟨?_, ?_, ?_⟩
    · rw [hsame]
      exact h.taken_eq
    · rw [hpoller]
      exact h.dl_eq
    · rw [hpoller]
      exact h.ul_eq

/-- All packets of a run read written entries only when none of them comes while a cell is
configured: the first one that does finds nothing copied, because its poll cannot report. After
any run a packet reads written entries only exactly when its poll reports a retransmission, or
an earlier one did with as many cells configured. -/
theorem dci_all_written_iff (stray : NgscopeDciCell → ℤ → UeDci) {nofCell : ℕ}
    (hcell : nofCell ≤ maxNofRfDev) (dciAll : ℕ → NgscopeDci) (lastTxPktTUs : UInt64) :
    (∀ as, RunMeets (trackedStep stray) ReadsWritten (trackedInit hcell dciAll lastTxPktTUs) as ↔
      RunMeets (trackedStep stray) NoCells (trackedInit hcell dciAll lastTxPktTUs) as) ∧
    ∀ as s, run (trackedStep stray) (trackedInit hcell dciAll lastTxPktTUs) as = some s →
      ∀ a, ReadsWritten s a ↔ PollsCover s a := by
  constructor
  · intro as
    exact runMeets_congr (trackedStep stray) Unseen (fun s a h => h.readsWritten_iff a)
      (fun s a t h hok ht => h.step stray hok ht) ⟨fun _ => rfl, fun _ => rfl, fun _ => rfl⟩
  · intro as s hs a
    have hinit : TakenBelow (trackedInit hcell dciAll lastTxPktTUs).history :=
      fun i => iff_of_false Bool.false_ne_true (Nat.not_lt_zero i)
    have hbelow : TakenBelow s.history :=
      run_invariant (trackedStep stray) (fun s => TakenBelow s.history)
        (fun s a t h ht => takenBelow_step stray h ht) hinit hs
    exact readsWritten_iff hbelow a

/-- One configured cell, arrays that hold cleared records, and reads outside of the ring that
find cleared records too. -/
def oneCellLoop : TrackedLoop :=
  trackedInit ngscopeDciCAInit.nofCell_le (fun _ => extractStart ngscopeDciCAInit 0) 0

theorem dci_all_written_no_cells :
    RunMeets (trackedStep fun _ _ => UeDci.zero) ReadsWritten oneCellLoop
      [.config [], .packet ⟨1, 0, 0, 0, 0, 0, 0⟩ 1500 1000000000] :=
  ((dci_all_written_iff (fun _ _ => UeDci.zero) ngscopeDciCAInit.nofCell_le _ 0).1 _).mpr
    ⟨trivial, fun t ht => ⟨by cases ht; rfl, fun _ _ => trivial⟩⟩

/-- A packet that comes before any DCI reads an entry that was never written. -/
theorem first_packet_reads_unwritten :
    ¬ ∀ as, RunMeets (trackedStep fun _ _ => UeDci.zero) ReadsWritten oneCellLoop as := by
  intro hall
  have hread := (hall [.packet ⟨1, 0, 0, 0, 0, 0, 0⟩ 1500 1000000000]).1 0
    (List.mem_range.mpr Nat.one_pos)
  exact absurd hread (by decide)

end CopaNgscope
