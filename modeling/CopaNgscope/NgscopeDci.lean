import CopaNgscope.RunInvariant
import CopaNgscope.RingLog
import CopaNgscope.NgscopeUtil

/-! The DCI store of `ngscope_dci.cc`: one ring of logged DCIs per cell, the carrier
aggregation header over the configured cells, and the extraction into plain arrays. -/
namespace CopaNgscope
open RunInvariant RingLog

def nofLogDci : ℕ := 1000

def maxNofRfDev : ℕ := 4

structure UeDci where
  timeStamp : UInt64
  tti : UInt16
  dlTbs : UInt32
  dlReTx : UInt8
  dlRvFlag : Bool
  ulTbs : UInt32
  ulReTx : UInt8
  ulRvFlag : Bool
deriving DecidableEq

/-- A record cleared by `memset`. -/
def UeDci.zero : UeDci := ⟨0, 0, 0, 0, false, 0, 0, false⟩

/-- `ngscope_dci_cell_t`. The last three fields say where the write index and the
length counter can be. -/
structure NgscopeDciCell where
  cellPrb : ℕ
  header : ℕ
  nofLoggedDci : ℕ
  recentDlReTxTUs : UInt64
  recentUlReTxTUs : UInt64
  recentDlReTxTti : UInt16
  recentUlReTxTti : UInt16
  dci : ℕ → UeDci
  header_lt : header < nofLogDci
  nofLoggedDci_le : nofLoggedDci ≤ nofLogDci
  header_eq : nofLoggedDci < nofLogDci → header = nofLoggedDci

/-- `ngscope_dci_CA_t`. The number of configured cells never passes the four slots,
but a configuration record may set it to zero. -/
structure NgscopeDciCA where
  cellDci : ℕ → NgscopeDciCell
  caReady : Bool
  header : ℕ
  tail : ℕ
  nofCell : ℕ
  currTime : UInt64
  nofCell_le : nofCell ≤ maxNofRfDev

def ngscopeDciCellInit : NgscopeDciCell where
  cellPrb := 50
  header := 0
  nofLoggedDci := 0
  recentDlReTxTUs := 0
  recentUlReTxTUs := 0
  recentDlReTxTti := 0
  recentUlReTxTti := 0
  dci := fun _ => UeDci.zero
  header_lt := by decide
  nofLoggedDci_le := by decide
  header_eq := fun _ => rfl

def ngscopeDciCAInit : NgscopeDciCA where
  cellDci := fun _ => ngscopeDciCellInit
  caReady := false
  header := 0
  tail := 0
  nofCell := 1
  currTime := 0
  nofCell_le := by decide

/-! ### The carrier aggregation header -/

section
/- What a read of `dci[k]` returns when `k` is outside the array. C++ leaves it
undefined, so it is a parameter of everything that can make such a read. -/
variable (stray : NgscopeDciCell → ℤ → UeDci)

/-- The value read at `dci[k]`. -/
def NgscopeDciCell.dciAt (cell : NgscopeDciCell) (k : ℤ) : UeDci :=
  if 0 ≤ k ∧ k < nofLogDci then cell.dci k.toNat else stray cell k

/-- `cell_header` in `ca_update_header`. C's remainder keeps the sign of -1. -/
def NgscopeDciCell.caHeaderIdx (cell : NgscopeDciCell) : ℤ :=
  Int.tmod ((cell.header:ℤ)-1) nofLogDci

/-- `tail_idx` in `find_dci_cell_tail`. -/
def NgscopeDciCell.tailIdx (cell : NgscopeDciCell) : ℤ :=
  Int.tmod ((cell.header:ℤ)-cell.nofLoggedDci+nofLogDci) nofLogDci

def findDciCellTail (cell : NgscopeDciCell) : UInt16 := (cell.dciAt stray cell.tailIdx).tti

/-- The cells below `nof_cell`, in order. -/
def NgscopeDciCA.cells (q : NgscopeDciCA) : List NgscopeDciCell :=
  (List.range q.nofCell).map q.cellDci

/-- `header_vec`, `tail_vec` and `curr_time` of `ca_update_header`. -/
def caHeaderVec (q : NgscopeDciCA) : List UInt16 :=
  q.cells.map (fun cell => (cell.dciAt stray cell.caHeaderIdx).tti)

def caTailVec (q : NgscopeDciCA) : List UInt16 := q.cells.map (findDciCellTail stray)

def caTimeVec (q : NgscopeDciCA) : List UInt64 :=
  q.cells.map (fun cell => (cell.dciAt stray cell.caHeaderIdx).timeStamp)

/-- `none` is the division by zero in the mean over no cell. -/
def caUpdateHeader (q : NgscopeDciCA) : Option NgscopeDciCA :=
  if q.caReady then
    if q.nofCell = 0 then none
    else
      -- only the header TTIs are unwrapped before the comparison
      some { q with
        header := (wrapTti (minInArrayUint16V (unwrapTtiArray (caHeaderVec stray q)))).toNat
        tail := (wrapTti (maxInArrayUint16V (caTailVec stray q)+1)).toNat
        currTime := meanArrayUint64 (caTimeVec stray q) }
  else some { q with caReady := q.cells.all (fun cell => cell.header ≠ 0) }

/-- The part of `ngscope_dci_CA_insert` that writes to the cell. -/
def NgscopeDciCell.insert (cell : NgscopeDciCell) (ueDci : UeDci) : NgscopeDciCell where
  cellPrb := cell.cellPrb
  dci := Function.update cell.dci cell.header ueDci
  header := (cell.header+1)%nofLogDci
  nofLoggedDci :=
    if cell.nofLoggedDci < nofLogDci then cell.nofLoggedDci+1 else cell.nofLoggedDci
  recentDlReTxTUs := if ueDci.dlReTx = 1 then ueDci.timeStamp else cell.recentDlReTxTUs
  recentDlReTxTti := if ueDci.dlReTx = 1 then ueDci.tti else cell.recentDlReTxTti
  recentUlReTxTUs := if ueDci.ulReTx = 1 then ueDci.timeStamp else cell.recentUlReTxTUs
  recentUlReTxTti := if ueDci.ulReTx = 1 then ueDci.tti else cell.recentUlReTxTti
  header_lt := Nat.mod_lt _ (by decide)
  nofLoggedDci_le := by
    have := cell.nofLoggedDci_le
    split_ifs <;> omega
  header_eq := by
    intro h
    have hle := cell.nofLoggedDci_le
    have heq := cell.header_eq
    split_ifs at h ⊢ with hlt
    · rw [heq hlt, Nat.mod_eq_of_lt h]
    · omega

/-- The state handed to `ca_update_header`. -/
def NgscopeDciCA.logDci (q : NgscopeDciCA) (ueDci : UeDci) (cellIdx : ℕ) : NgscopeDciCA :=
  { q with cellDci := Function.update q.cellDci cellIdx ((q.cellDci cellIdx).insert ueDci) }

/-- `none` is a cell index past `cell_dci` or the division by zero. -/
def ngscopeDciCAInsert (q : NgscopeDciCA) (ueDci : UeDci) (cellIdx : ℕ) : Option NgscopeDciCA :=
  if cellIdx < maxNofRfDev then caUpdateHeader stray (q.logDci ueDci cellIdx) else none

end

/-! ### Extraction -/

/-- `ue_dl_dci_t` and `ue_ul_dci_t`, which have the same fields. -/
structure UeLinkDci where
  tbs : ℕ → UInt32
  reTx : ℕ → UInt8
  reTxRvFlag : ℕ → Bool
  nofReTx : ℕ
  reTxTUs : ℕ → UInt64
  reTxTti : ℕ → UInt16

/-- `ngscope_dci_t`: the arrays hold `nofDci` entries. -/
structure NgscopeDci where
  nofDci : ℕ
  caHeader : ℕ
  caTail : ℕ
  timeStampUs : ℕ → UInt64
  tti : ℕ → UInt16
  currTime : UInt64
  dlDci : UeLinkDci
  ulDci : UeLinkDci

def UeLinkDci.zero : UeLinkDci :=
  ⟨fun _ => 0, fun _ => 0, fun _ => false, 0, fun _ => 0, fun _ => 0⟩

/-- One direction of `extract_single_dci`: entry `qIdx`, and the retransmission lists
when the entry is one. -/
def UeLinkDci.put (q : UeLinkDci) (qIdx : ℕ) (tbs : UInt32) (reTx : UInt8) (rvFlag : Bool)
    (timeStamp : UInt64) (tti : UInt16) : UeLinkDci where
  tbs := Function.update q.tbs qIdx tbs
  reTx := Function.update q.reTx qIdx reTx
  reTxRvFlag := Function.update q.reTxRvFlag qIdx rvFlag
  nofReTx := if reTx ≠ 0 then q.nofReTx+1 else q.nofReTx
  reTxTUs := if reTx ≠ 0 then Function.update q.reTxTUs q.nofReTx timeStamp else q.reTxTUs
  reTxTti := if reTx ≠ 0 then Function.update q.reTxTti q.nofReTx tti else q.reTxTti

def extractSingleDci (q : NgscopeDci) (dciCell : NgscopeDciCell) (qIdx pIdx : ℕ) : NgscopeDci :=
  let d := dciCell.dci pIdx
  { q with
    tti := Function.update q.tti qIdx d.tti
    timeStampUs := Function.update q.timeStampUs qIdx d.timeStamp
    dlDci := q.dlDci.put qIdx d.dlTbs d.dlReTx d.dlRvFlag d.timeStamp d.tti
    ulDci := q.ulDci.put qIdx d.ulTbs d.ulReTx d.ulRvFlag d.timeStamp d.tti }

/-- The cleared structure with the header fields set, before the copy loop. -/
def extractStart (dciCa : NgscopeDciCA) (cellIdx : ℕ) : NgscopeDci where
  nofDci := (dciCa.cellDci cellIdx).nofLoggedDci
  caHeader := dciCa.header
  caTail := dciCa.tail
  timeStampUs := fun _ => 0
  tti := fun _ => 0
  currTime := dciCa.currTime
  dlDci := UeLinkDci.zero
  ulDci := UeLinkDci.zero

def ngscopeDciExtractSingleCell (dciCa : NgscopeDciCA) (cellIdx : ℕ) : NgscopeDci :=
  let dciCell := dciCa.cellDci cellIdx
  let nofDci := dciCell.nofLoggedDci
  let q := extractStart dciCa cellIdx
  if nofDci < nofLogDci then
    (List.range nofDci).foldl (fun q i => extractSingleDci q dciCell i i) q
  else if nofDci = nofLogDci then
    (List.range nofDci).foldl
      (fun q i => extractSingleDci q dciCell i ((dciCell.header+i)%nofLogDci)) q
  else q

/-- Fill the entries below `nof_cell`; the others keep what they held. -/
def ngscopeDciExtractMultiCell (q : ℕ → NgscopeDci) (dciCa : NgscopeDciCA) : ℕ → NgscopeDci :=
  fun i => if i < dciCa.nofCell then ngscopeDciExtractSingleCell dciCa i else q i

/-! ### Clock synchronisation and the retransmission times -/

/-- Add an `int` offset to a 64-bit time, as the compound assignment does. -/
def addOffset (t : UInt64) (offset : ℤ) : UInt64 := UInt64.ofInt (t.toNat+offset)

def UeLinkDci.sync (q : UeLinkDci) (offset : ℤ) : UeLinkDci :=
  { q with
    reTxTUs := fun i => if i < q.nofReTx then addOffset (q.reTxTUs i) offset else q.reTxTUs i }

def ngscopeDciSyncSingleCell (q : NgscopeDci) (offset : ℤ) : NgscopeDci :=
  { q with
    timeStampUs := fun i => if i < q.nofDci then addOffset (q.timeStampUs i) offset
      else q.timeStampUs i
    dlDci := q.dlDci.sync offset
    ulDci := q.ulDci.sync offset }

def ngscopeDciSyncMultiCell (q : ℕ → NgscopeDci) (nofCell : ℕ) (offset : ℤ) : ℕ → NgscopeDci :=
  fun i => if i < nofCell then ngscopeDciSyncSingleCell (q i) offset else q i

/-- The first `n` entries of an array. -/
def firstEntries {α : Type*} (array : ℕ → α) (n : ℕ) : List α := (List.range n).map array

def ngscopeDciGetReTxT (q : ℕ → NgscopeDci) (nofCell : ℕ) : List UInt64 :=
  quickSortUint64 ((List.range nofCell).flatMap
    (fun i => firstEntries (q i).dlDci.reTxTUs (q i).dlDci.nofReTx))

end CopaNgscope
