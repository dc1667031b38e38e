import CopaNgscope.ByteMemory
import CopaNgscope.NgscopeDci

/-! The receive thread of `ngscope_dci_recv.cc`. A call that decodes a record returns the
change it makes to the shared data as an update; `applyUpdate` is the change itself. The
host is little endian, as the code's target is. -/
namespace CopaNgscope
open RunInvariant ByteMemory

/-- What one call of `recv_buffer` does to `dci_ca`, the retransmission counters and
`go_exit`. -/
inductive DciUpdate
  | caInsert (ueDci : UeDci) (cellIdx : UInt8)
  | config (cellPrb : List UInt16)
  | exit
deriving DecidableEq

/-! ### Decoding

Outside, `none` is a read of a byte the memory does not have; inside, `none` is the
return value -1. -/

/-- The `if(ul_dl & bit)` block of one direction: retransmission flag and TBS, stored into
the record. -/
def recvDir (bit : UInt8) (store : UeDci → UInt8 → UInt32 → UeDci) (ulDl : UInt8)
    (ueDci : UeDci) (recvBuf : ByteMem) (bufIdx recvLen : ℕ) : Option (Option (UeDci × ℕ)) :=
  if ulDl &&& bit ≠ 0 then
    if recvLen ≤ bufIdx+4 then some none
    else (recvBuf bufIdx).bind fun reTx => (readBe32 recvBuf (bufIdx+1)).bind fun tbs =>
      some (some (store ueDci reTx tbs, bufIdx+5))
  else some (some (ueDci, bufIdx))

def recvDl : UInt8 → UeDci → ByteMem → ℕ → ℕ → Option (Option (UeDci × ℕ)) :=
  recvDir 0x01 (fun ueDci reTx tbs => { ueDci with dlReTx := reTx, dlTbs := tbs })

def recvUl : UInt8 → UeDci → ByteMem → ℕ → ℕ → Option (Option (UeDci × ℕ)) :=
  recvDir 0x02 (fun ueDci reTx tbs => { ueDci with ulReTx := reTx, ulTbs := tbs })

def recvDciVer1 (ueDci : UeDci) (recvBuf : ByteMem) (bufIdx recvLen : ℕ) :
    Option (Option (UeDci × ℕ)) :=
  if recvLen ≤ bufIdx then some none
  else (recvBuf bufIdx).bind fun ulDl =>
    (recvDl ulDl ueDci recvBuf (bufIdx+1) recvLen).bind fun r =>
      match r with
      | none => some none
      | some (ueDci, bufIdx) => recvUl ulDl ueDci recvBuf bufIdx recvLen

/-- The decoded record, its cell and the index after it. -/
def recvOneDci (recvBuf : ByteMem) (bufIdx recvLen : ℕ) :
    Option (Option (UeDci × UInt8 × ℕ)) :=
  if recvLen ≤ bufIdx+11 then some none
  else (recvBuf bufIdx).bind fun protoV =>
    (readBe32 recvBuf (bufIdx+1)).bind fun lowerT =>
    (readBe32 recvBuf (bufIdx+5)).bind fun upperT =>
    (readLe16 recvBuf (bufIdx+9)).bind fun tti =>
    (recvBuf (bufIdx+11)).bind fun cellIdx =>
      let ueDci := { UeDci.zero with
        timeStamp := UInt64.ofNat (lowerT.toNat+2^32*upperT.toNat)
        tti := tti }
      if protoV = 0 then
        (recvDciVer1 ueDci recvBuf (bufIdx+12) recvLen).bind fun r =>
          some (r.map fun x => (x.1, cellIdx, x.2))
      else
        -- an unknown version is reported, but the switch falls out to the insert
        some (some (ueDci, cellIdx, bufIdx+12))

/-- The record count is one byte, and no length is checked. -/
def recvConfig (recvBuf : ByteMem) (bufIdx : ℕ) : Option (List UInt16 × ℕ) :=
  (recvBuf bufIdx).bind fun nofCell =>
    (readLe16s recvBuf (bufIdx+1) nofCell.toNat).bind fun cellPrb =>
      some (cellPrb, bufIdx+1+2*nofCell.toNat)

/-- `n` bytes equal to `b`, read until one differs. -/
def bytesAre (recvBuf : ByteMem) (b : UInt8) : ℕ → ℕ → Option Bool
  | _, 0 => some true
  | k, n+1 => (recvBuf k).bind fun x => if x = b then bytesAre recvBuf b (k+1) n else some false

/-- The return value and the update of one call. -/
def recvBuffer (recvBuf : ByteMem) (idx recvLen : ℕ) : Option (ℤ × Option DciUpdate) :=
  (bytesAre recvBuf 0xAA idx 4).bind fun isDci =>
    if isDci then
      (recvOneDci recvBuf (idx+4) recvLen).bind fun r =>
        match r with
        | none => some (-1, none)
        | some (ueDci, cellIdx, bufIdx) =>
          some (if bufIdx = idx+4 then -1 else (bufIdx:ℤ), some (.caInsert ueDci cellIdx))
    else (bytesAre recvBuf 0xBB idx 4).bind fun isConfig =>
      if isConfig then
        (recvConfig recvBuf (idx+4)).bind fun r => some ((r.2:ℤ), some (.config r.1))
      else (bytesAre recvBuf 0xFF idx 4).bind fun isExit =>
        some (-1, if isExit then some .exit else none)

/-! ### The parse loop and the two threads -/

/-- The inner loop of both receive threads: the updates made, in order, and the final
`buf_idx`, which is `none` when the loop reads where it must not or runs out of fuel. -/
def recvLoop (recvBuf : ByteMem) (recvLen : ℕ) : ℕ → ℕ → List DciUpdate × Option ℕ
  | 0, _ => ([], none)
  | fuel+1, bufIdx =>
    match recvBuffer recvBuf bufIdx recvLen with
    | none => ([], none)
    | some (ret, upd) =>
      if ret < 0 then (upd.toList, some recvLen)
      else if ret = recvLen then (upd.toList, some bufIdx)
      else
        let rest := recvLoop recvBuf recvLen fuel ret.toNat
        (upd.toList ++ rest.1, rest.2)

/-- One receive into the array `recvBuf`. Every call that does not end the loop moves the
index on, and past the array there is nothing to read, so this much fuel is never used up. -/
def recvDatagram (recvBuf : List UInt8) (recvLen : ℕ) : List DciUpdate × Option ℕ :=
  if recvLen = 0 then ([], some 0)
  else recvLoop (ofList recvBuf) recvLen (recvBuf.length+1) 0

/-- The outer loop of both threads: each receive overwrites the start of the same array,
and the thread ends once `go_exit` is set or after an undefined read. -/
def recvThread : List UInt8 → List (List UInt8) → List DciUpdate
  | _, [] => []
  | recvBuf, data :: rest =>
    let buf := data ++ recvBuf.drop data.length
    let r := recvDatagram buf data.length
    if DciUpdate.exit ∈ r.1 ∨ r.2 = none then r.1 else r.1 ++ recvThread buf rest

/-! ### The shared data -/

structure RecvState where
  dciCa : NgscopeDciCA
  nofDlReTxPerCell : ℕ → ℕ
  nofUlReTxPerCell : ℕ → ℕ
  goExit : Bool

def recvStateInit : RecvState := ⟨ngscopeDciCAInit, fun _ => 0, fun _ => 0, false⟩

/-- The locked part of `recv_config`. Its local array and `cell_dci` have four entries, so
a larger count writes out of bounds. -/
def NgscopeDciCA.config (q : NgscopeDciCA) (cellPrb : List UInt16) : Option NgscopeDciCA :=
  if h : cellPrb.length ≤ maxNofRfDev then
    some { q with
      nofCell := cellPrb.length
      cellDci := fun i => match cellPrb[i]? with
        | some prb => { q.cellDci i with cellPrb := prb.toNat }
        | none => q.cellDci i
      nofCell_le := h }
  else none

/-- `none` is an index past a four-entry array or a division by zero. -/
def applyUpdate (stray : NgscopeDciCell → ℤ → UeDci) (s : RecvState) :
    DciUpdate → Option RecvState
  | .caInsert ueDci cellIdx =>
    (ngscopeDciCAInsert stray s.dciCa ueDci cellIdx.toNat).map fun dciCa =>
      { s with
        dciCa := dciCa
        nofDlReTxPerCell := if ueDci.dlReTx ≠ 0 then Function.update s.nofDlReTxPerCell
          cellIdx.toNat (s.nofDlReTxPerCell cellIdx.toNat+1) else s.nofDlReTxPerCell
        nofUlReTxPerCell := if ueDci.ulReTx ≠ 0 then Function.update s.nofUlReTxPerCell
          cellIdx.toNat (s.nofUlReTxPerCell cellIdx.toNat+1) else s.nofUlReTxPerCell }
  | .config cellPrb => (s.dciCa.config cellPrb).map fun dciCa => { s with dciCa := dciCa }
  | .exit => some { s with goExit := true }

/-! ### First facts -/

theorem mono_recvDir (bit : UInt8) (store : UeDci → UInt8 → UInt32 → UeDci) (ulDl : UInt8)
    (ueDci : UeDci) (bufIdx recvLen : ℕ) :
    Mono (fun m => recvDir bit store ulDl ueDci m bufIdx recvLen) :=
  mono_ite _ (mono_ite _ (mono_const _) (mono_bind (mono_read _) fun _ =>
    mono_bind (mono_readBe32 _) fun _ => mono_const _)) (mono_const _)

theorem mono_recvDciVer1 (ueDci : UeDci) (bufIdx recvLen : ℕ) :
    Mono (fun m => recvDciVer1 ueDci m bufIdx recvLen) := by
  refine mono_ite _ (mono_const _) (mono_bind (mono_read _) fun ulDl =>
    mono_bind (mono_recvDir _ _ ulDl ueDci _ _) fun r => ?_)
  cases r with
  | none => exact mono_const _
  | some x => exact mono_recvDir _ _ ulDl x.1 x.2 recvLen

theorem mono_recvOneDci (bufIdx recvLen : ℕ) : Mono (fun m => recvOneDci m bufIdx recvLen) :=
  mono_ite _ (mono_const _) <| mono_bind (mono_read _) fun _ =>
    mono_bind (mono_readBe32 _) fun _ => mono_bind (mono_readBe32 _) fun _ =>
    mono_bind (mono_readLe16 _) fun _ => mono_bind (mono_read _) fun _ =>
    mono_ite _ (mono_bind (mono_recvDciVer1 _ _ _) fun _ => mono_const _) (mono_const _)

theorem mono_recvConfig (bufIdx : ℕ) : Mono (fun m => recvConfig m bufIdx) :=
  mono_bind (mono_read _) fun _ => mono_bind (mono_readLe16s _ _) fun _ => mono_const _

theorem mono_bytesAre (b : UInt8) (k n : ℕ) : Mono (fun m => bytesAre m b k n) := by
  induction n generalizing k with
  | zero => exact mono_const _
  | succ n ih => exact mono_bind (mono_read k) fun _ => mono_ite _ (ih (k+1)) (mono_const _)

/-- What a call of `recv_buffer` finds it finds on every memory with the same bytes. -/
theorem mono_recvBuffer (idx recvLen : ℕ) : Mono (fun m => recvBuffer m idx recvLen) := by
  refine mono_bind (mono_bytesAre _ _ _) fun _ => mono_ite _ ?_ ?_
  · refine mono_bind (mono_recvOneDci _ _) fun r => ?_
    cases r <;> exact mono_const _
  · exact mono_bind (mono_bytesAre _ _ _) fun _ =>
      mono_ite _ (mono_bind (mono_recvConfig _) fun _ => mono_const _)
        (mono_bind (mono_bytesAre _ _ _) fun _ => mono_const _)

/-- A loop that finishes finishes alike with more fuel and on every memory with the
same bytes. -/
theorem recvLoop_mono {m m' : ByteMem} (hm : Extends m m') (recvLen : ℕ) :
    ∀ {fuel fuel' bufIdx}, fuel ≤ fuel' → (recvLoop m recvLen fuel bufIdx).2 ≠ none →
      recvLoop m' recvLen fuel' bufIdx = recvLoop m recvLen fuel bufIdx := by
  intro fuel
  induction fuel with
  | zero => exact fun _ h => absurd rfl h
  | succ fuel ih =>
    intro fuel' bufIdx hle h
    -- both loops make the same first call, so they go on at the same index
    obtain ⟨fuel', rfl⟩ : ∃ f, fuel' = f+1 := ⟨fuel'-1, by omega⟩
    cases hr : recvBuffer m bufIdx recvLen with
    | none => simp [recvLoop, hr] at h
    | some r =>
      obtain ⟨ret, upd⟩ := r
      have hr' := mono_recvBuffer bufIdx recvLen hm _ hr
      simp only [recvLoop, hr, hr'] at h ⊢
      split_ifs with h0 h1
      · rfl
      · rfl
      · rw [if_neg h0, if_neg h1] at h
        rw [ih (by omega) h]

end CopaNgscope
