import CopaNgscope.NgscopeClient
import CopaNgscope.NgscopeReTxTrace

/-! The states of the reordering buffer. Five operations of three files set its flags; whatever
their order, the flags and the size fit together. -/
namespace CopaNgscope
open RunInvariant

/-! ### Operations -/

/-- What happens to the buffer: a trace of DCIs, the packet list, the first packet of the burst
found, or the search for it given up. -/
inductive BufAction
  | update (trace : NgscopeReTxCa)
  | revert (ps : List PacketNode)
  | startPkt (startPktT refOneway : UInt64)
  | timeout

/-- The last three act in the states in which `pkt_handling` lets them. -/
def bufStep (q : NgscopeReorderingBuf) : BufAction → NgscopeReorderingBuf
  | .update trace => (updateReTxBuf q trace).1
  | .revert ps =>
    if q.ready ∧ q.bufferActive ∧ q.startPktFound then (ngscopeListRevertDelay ps q).2 else q
  | .startPkt startPktT refOneway =>
    if q.ready ∧ q.bufferActive ∧ q.startPktFound = false then
      { q with startPktFound := true, startPktT := startPktT, refOneway := refOneway }
    else q
  | .timeout =>
    if q.ready ∧ q.bufferActive ∧ q.startPktFound = false then ngscopeReTxResetBuf q else q

/-- The flags and the size fit together. -/
structure NgscopeReorderingBuf.Consistent (q : NgscopeReorderingBuf) : Prop where
  active_of_found : q.startPktFound = true → q.bufferActive = true
  ready_of_active : q.bufferActive = true → q.ready = true
  size_pos : q.bufferActive = true → 0 < q.bufSize
  size_zero : q.bufferActive = false → q.bufSize = 0

theorem consistent_initBuf : ngscopeReTxInitBuf.Consistent :=
  ⟨fun h => h, fun h => (nomatch h), fun h => (nomatch h), fun _ => rfl⟩

theorem consistent_resetBuf (q : NgscopeReorderingBuf) : (ngscopeReTxResetBuf q).Consistent :=
  ⟨fun h => (nomatch h), fun h => (nomatch h), fun h => (nomatch h), fun _ => rfl⟩

/-! ### The update from a trace -/

/-- A retransmission taken leaves the buffer active with room for it. -/
theorem consistent_setReTxStartTti {q : NgscopeReorderingBuf} (trace : NgscopeReTxCa) (idx : ℕ) :
    (setReTxStartTti q trace idx).Consistent where
  active_of_found := fun _ => rfl
  ready_of_active := fun _ => rfl
  size_pos := fun _ => by
    change (0:ℤ) < (ngscopeReTxSumTbsNewBurst trace idx).toNat+11520*4
    omega
  size_zero := fun h => nomatch h

theorem consistent_setReTxTtiInBurst {q : NgscopeReorderingBuf} (hready : q.ready = true)
    (hsize : 0 ≤ q.bufSize) (trace : NgscopeReTxCa) (idx : ℕ) :
    (setReTxTtiInBurst q trace idx).Consistent where
  active_of_found := fun _ => rfl
  ready_of_active := fun _ => hready
  size_pos := fun _ => by
    unfold setReTxTtiInBurst
    simp only
    omega
  size_zero := fun h => nomatch h

theorem NgscopeReorderingBuf.Consistent.size_nonneg {q : NgscopeReorderingBuf}
    (h : q.Consistent) : 0 ≤ q.bufSize := by
  cases hactive : q.bufferActive with
  | false => exact (h.size_zero hactive).ge
  | true => exact (h.size_pos hactive).le

theorem consistent_takeReTx {q : NgscopeReorderingBuf} (h : q.Consistent) (trace : NgscopeReTxCa)
    (i : ℕ) : (takeReTx q trace i).Consistent := by
  unfold takeReTx
  split_ifs with hactive hnew hstart
  · exact h
  · exact consistent_setReTxTtiInBurst (h.ready_of_active hactive) h.size_nonneg trace i
  · exact consistent_setReTxStartTti trace i
  · have hready : q.ready = true := by simpa using (not_or.mp hstart).2
    exact consistent_setReTxTtiInBurst (q := ngscopeReTxActivateBuf q) hready le_rfl trace i

theorem ready_takeReTx {q : NgscopeReorderingBuf} (h : q.ready = true) (trace : NgscopeReTxCa)
    (i : ℕ) : (takeReTx q trace i).ready = true := by
  unfold takeReTx
  split_ifs
  · exact h
  · exact h
  · rfl
  · exact h

/-! ### Draining by the packets -/

/-- The flags of two buffers agree. -/
structure NgscopeReorderingBuf.SameFlags (q r : NgscopeReorderingBuf) : Prop where
  ready : r.ready = q.ready
  bufferActive : r.bufferActive = q.bufferActive
  startPktFound : r.startPktFound = q.startPktFound

/-- The part of the loop body before the reset. -/
def revertBody (p : PacketNode) (q : NgscopeReorderingBuf) : PacketNode × NgscopeReorderingBuf :=
  let r := if p.recvTUs = q.startPktT ∧ p.revertFlag = false ∧ q.bufferActive then
    revertNode p q true else (p, q)
  if r.2.startPktT < r.1.recvTUs ∧ r.1.revertFlag = false ∧ r.2.bufferActive then
    revertNode r.1 r.2 r.1.burstStart else r

theorem ngscopeListRevertDelay_cons (p : PacketNode) (ps : List PacketNode)
    (q : NgscopeReorderingBuf) :
    ngscopeListRevertDelay (p :: ps) q =
      if (revertBody p q).2.bufSize ≤ 0 then
        ((revertBody p q).1 :: ps, ngscopeReTxResetBuf (revertBody p q).2)
      else
        ((revertBody p q).1 :: (ngscopeListRevertDelay ps (revertBody p q).2).1,
          (ngscopeListRevertDelay ps (revertBody p q).2).2) := rfl

theorem sameFlags_revertBody (p : PacketNode) (q : NgscopeReorderingBuf) :
    q.SameFlags (revertBody p q).2 := by
  unfold revertBody revertNode
  extract_lets r
  have hr : q.SameFlags r.2 := by
    simp only [r]
    split_ifs
    · exact ⟨rfl, rfl, rfl⟩
    · exact ⟨rfl, rfl, rfl⟩
  split_ifs
  · exact ⟨hr.ready, hr.bufferActive, hr.startPktFound⟩
  · exact hr

/-- Every node leaves the flags alone until the buffer is empty, which resets it. -/
theorem consistent_revertDelay (ps : List PacketNode) {q : NgscopeReorderingBuf}
    (h : q.Consistent) (hactive : q.bufferActive = true) :
    (ngscopeListRevertDelay ps q).2.Consistent := by
  induction ps generalizing q with
  | nil => exact h
  | cons p ps ih =>
    have hflags := sameFlags_revertBody p q
    rw [ngscopeListRevertDelay_cons]
    split_ifs with hempty
    · exact consistent_resetBuf _
    · have hactive' := hflags.bufferActive.trans hactive
      refine ih ⟨fun _ => hactive', fun _ => hflags.ready.trans (h.ready_of_active hactive),
        fun _ => not_le.mp hempty, fun hinactive => ?_⟩ hactive'
      exact absurd (hactive'.symm.trans hinactive) (by decide)

theorem ready_revertDelay (ps : List PacketNode) (q : NgscopeReorderingBuf) :
    (ngscopeListRevertDelay ps q).2.ready = q.ready := by
  induction ps generalizing q with
  | nil => rfl
  | cons p ps ih =>
    have hflags := sameFlags_revertBody p q
    rw [ngscopeListRevertDelay_cons]
    split_ifs
    · exact hflags.ready
    · exact (ih _).trans hflags.ready

/-! ### Runs -/

theorem consistent_bufStep {q : NgscopeReorderingBuf} (h : q.Consistent) (a : BufAction) :
    (bufStep q a).Consistent := by
  cases a with
  | update trace =>
    exact updateReTxLoop_invariant (P := NgscopeReorderingBuf.Consistent)
      (fun i _ _ q hq => consistent_takeReTx hq trace i) h false
  | revert ps =>
    rw [bufStep]
    split_ifs with hguard
    · exact consistent_revertDelay ps h hguard.2.1
    · exact h
  | startPkt startPktT refOneway =>
    rw [bufStep]
    split_ifs with hguard
    · exact { h with active_of_found := fun _ => hguard.2.1 }
    · exact h
  | timeout =>
    rw [bufStep]
    split_ifs
    · exact consistent_resetBuf q
    · exact h

theorem ready_bufStep {q : NgscopeReorderingBuf} (h : q.ready = true) (a : BufAction) :
    (bufStep q a).ready = true := by
  cases a with
  | update trace =>
    exact updateReTxLoop_invariant (P := fun q => q.ready = true)
      (fun i _ _ q hq => ready_takeReTx hq trace i) h false
  | revert ps =>
    rw [bufStep]
    split_ifs
    · exact (ready_revertDelay ps q).trans h
    · exact h
  | startPkt startPktT refOneway =>
    rw [bufStep]
    split_ifs
    · exact h
    · exact h
  | timeout =>
    rw [bufStep]
    split_ifs
    · exact h
    · exact h

theorem consistent_foldl_bufStep (as : List BufAction) {q : NgscopeReorderingBuf}
    (h : q.Consistent) : (as.foldl bufStep q).Consistent := by
  induction as generalizing q with
  | nil => exact h
  | cons a as ih => exact ih (consistent_bufStep h a)

theorem ready_foldl_bufStep (as : List BufAction) {q : NgscopeReorderingBuf}
    (h : q.ready = true) : (as.foldl bufStep q).ready = true := by
  induction as generalizing q with
  | nil => exact h
  | cons a as ih => exact ih (ready_bufStep h a)

/-- In every state that the buffer can reach, a start packet is found only while the buffer is
active, and it is active only when ready, which lasts; it is active exactly when its size is
positive, and otherwise its size is 0. -/
theorem reordering_buf_consistent (as bs : List BufAction) :
    let q := as.foldl bufStep ngscopeReTxInitBuf
    (q.startPktFound = true → q.bufferActive = true) ∧
      (q.bufferActive = true → q.ready = true) ∧
      (q.ready = true → (bs.foldl bufStep q).ready = true) ∧
      (q.bufferActive = true ↔ 0 < q.bufSize) ∧
      (q.bufferActive = false → q.bufSize = 0) := by
  intro q
  have h : q.Consistent := consistent_foldl_bufStep as consistent_initBuf
  refine ⟨h.active_of_found, h.ready_of_active, ready_foldl_bufStep bs,
    ⟨h.size_pos, fun hpos => ?_⟩, h.size_zero⟩
  by_contra hinactive
  exact hpos.ne' (h.size_zero (by simpa using hinactive))

/-! ### The client -/

theorem handleReTx_bufStep {s t : ClientState} {dciAll : ℕ → NgscopeDci} {newDlReTx : Bool}
    {nofCell : ℕ} (h : handleReTx s dciAll newDlReTx nofCell = some t) :
    ∃ as : List BufAction, t.reTxBuffer = as.foldl bufStep s.reTxBuffer := by
  unfold handleReTx ngscopeReTxUpdateBuf at h
  split_ifs at h
  · obtain ⟨r, hr, rfl⟩ := Option.map_eq_some_iff.mp h
    obtain ⟨trace, _, rfl⟩ := Option.map_eq_some_iff.mp hr
    exact ⟨[.update trace], rfl⟩
  · cases h
    exact ⟨[], rfl⟩

theorem handleBurstStart_bufStep {s t : ClientState} {pktTUs onewayUs : List UInt64}
    {caHeader : ℕ} (h : handleBurstStart s pktTUs onewayUs caHeader = some t) :
    ∃ as : List BufAction, t.reTxBuffer = as.foldl bufStep s.reTxBuffer := by
  unfold handleBurstStart at h
  extract_lets index at h
  split_ifs at h with hguard
  · obtain ⟨refOneway, _, rfl⟩ := Option.map_eq_some_iff.mp h
    exact ⟨[.startPkt (pktTUs.getD index.toNat 0) refOneway], (if_pos hguard).symm⟩
  · cases h
    exact ⟨[.timeout], (if_pos hguard).symm⟩
  · cases h
    exact ⟨[], rfl⟩
  · cases h
    exact ⟨[], rfl⟩

theorem handleRevert_bufStep (s : ClientState) :
    ∃ as : List BufAction, (handleRevert s).reTxBuffer = as.foldl bufStep s.reTxBuffer := by
  unfold handleRevert
  split_ifs with hguard
  · exact ⟨[.revert s.pktList], (if_pos hguard).symm⟩
  · exact ⟨[], rfl⟩

/-- What a step of the client does to the buffer is a sequence of its operations. -/
theorem clientStep_bufStep {s t : ClientState} {a : ClientAction} (h : clientStep s a = some t) :
    ∃ as : List BufAction, t.reTxBuffer = as.foldl bufStep s.reTxBuffer := by
  cases a with
  | enqueue header received recvTimeNs =>
    cases h
    refine ⟨[], ?_⟩
    unfold enqueuePkt
    extract_lets p
    cases ngscopeListInsertNodeCheckTime s.pktList p with
    | dropped last => rfl
    | inserted ps freed => rfl
  | handle dciAll newDlReTx nofCell =>
    obtain ⟨u, hu, hrest⟩ := Option.bind_eq_some_iff.mp h
    obtain ⟨v, hv, rfl⟩ := Option.map_eq_some_iff.mp hrest
    obtain ⟨as, has⟩ := handleReTx_bufStep hu
    obtain ⟨bs, hbs⟩ := handleBurstStart_bufStep hv
    obtain ⟨cs, hcs⟩ := handleRevert_bufStep v
    exact ⟨as ++ bs ++ cs, by rw [hcs, hbs, has, List.foldl_append, List.foldl_append]⟩
  | send currTUs goExit stale =>
    cases h
    refine ⟨[], ?_⟩
    unfold sendPktList
    split_ifs
    · rfl
    · extract_lets r lastTx
      split_ifs
      · rfl
      · rfl

/-- In every run of the client the flags and the size of its buffer fit together. -/
theorem client_buf_consistent {lastTxPktTUs : UInt64} {as : List ClientAction} {s : ClientState}
    (h : run clientStep (clientInit lastTxPktTUs) as = some s) : s.reTxBuffer.Consistent :=
  run_invariant clientStep (fun s => s.reTxBuffer.Consistent)
    (fun _ _ _ hs hstep => by
      obtain ⟨bs, hbs⟩ := clientStep_bufStep hstep
      rw [hbs]
      exact consistent_foldl_bufStep bs hs)
    consistent_initBuf h

end CopaNgscope
