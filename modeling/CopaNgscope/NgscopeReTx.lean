import CopaNgscope.NgscopeDci

/-! The retransmission tracking of `ngscope_reTx.cc`: the trace that merges the cells, and
the model of the base station's reordering buffer. -/
namespace CopaNgscope

def timeDiffThd : ℤ := 6500

def onewayDiffThd : ℤ := 3500

def burstFindSearchPkt : ℕ := 8

/-- `ngscope_reTx_ca_t`: the arrays hold `size` entries. -/
structure NgscopeReTxCa where
  reTx : ℕ → Bool
  tti : ℕ → UInt16
  tbs : ℕ → UInt32
  rxTUs : ℕ → UInt64
  size : ℕ

/-- `ngscope_reordering_buf_t`. -/
structure NgscopeReorderingBuf where
  ready : Bool
  startPktT : UInt64
  startPktFound : Bool
  bufferActive : Bool
  bufSize : ℤ
  bufStartTti : UInt16
  bufLastTti : UInt16
  bufStartT : UInt64
  bufLastT : UInt64
  refOneway : UInt64
  mostRecentDciT : UInt64
deriving DecidableEq

def ngscopeReTxInitBuf : NgscopeReorderingBuf :=
  ⟨false, 0, false, false, 0, 0, 0, 0, 0, 0, 0⟩

def ngscopeReTxResetBuf (q : NgscopeReorderingBuf) : NgscopeReorderingBuf :=
  { q with bufferActive := false, bufSize := 0, startPktFound := false, mostRecentDciT := 0 }

def ngscopeReTxActivateBuf (q : NgscopeReorderingBuf) : NgscopeReorderingBuf :=
  { q with bufferActive := true, bufSize := 0, startPktFound := true }

/-! ### The trace of the carrier aggregation window -/

def ttiToIdx (tti tailTti : UInt16) : ℕ :=
  (UInt16.ofInt (Int.tmod ((tti.toNat:ℤ)-tailTti.toNat+10240) 10240)).toNat

/-- The cleared arrays with the TTIs of the window filled in. -/
def caTraceStart (headerTti tailTti : UInt16) : NgscopeReTxCa where
  reTx := fun _ => false
  tti := fun i => wrapTti (tailTti+UInt16.ofNat i)
  tbs := fun _ => 0
  rxTUs := fun _ => 0
  size := (ttiDistance tailTti headerTti).toNat

/-- Entry `j` of one cell added to the trace; `none` is an access outside an array. -/
def extractCaEntry (d : NgscopeDci) (nofCell : ℕ) (tailTti : UInt16) (res : NgscopeReTxCa)
    (j : ℤ) : Option NgscopeReTxCa :=
  if 0 ≤ j ∧ j < nofLogDci then
    let index := ttiToIdx (d.tti j.toNat) tailTti
    if index < res.size then
      some { res with
        reTx := Function.update res.reTx index (res.reTx index || d.dlDci.reTx j.toNat ≠ 0)
        tbs := Function.update res.tbs index (res.tbs index+d.dlDci.tbs j.toNat)
        rxTUs := Function.update res.rxTUs index
          (res.rxTUs index+d.timeStampUs j.toNat/UInt64.ofNat nofCell) }
    else none
  else none

/-- `ss_idx` and `ee_idx` of one cell. -/
def findTti (d : NgscopeDci) (tti : UInt16) : ℤ :=
  findElementInArrayUint16 (firstEntries d.tti d.nofDci) tti

/-- The indices from `ssIdx` to `eeIdx`. -/
def indexRange (ssIdx eeIdx : ℤ) : List ℤ :=
  (List.range (eeIdx-ssIdx+1).toNat).map (fun k : ℕ => ssIdx+k)

def extractCaCell (d : NgscopeDci) (nofCell : ℕ) (headerTti tailTti : UInt16)
    (res : NgscopeReTxCa) : Option NgscopeReTxCa :=
  (indexRange (findTti d tailTti) (findTti d headerTti)).foldlM (extractCaEntry d nofCell tailTti)
    res

def extractCaTrace (dciAll : ℕ → NgscopeDci) (nofCell : ℕ) : Option NgscopeReTxCa :=
  let headerTti := UInt16.ofNat (dciAll 0).caHeader
  let tailTti := UInt16.ofNat (dciAll 0).caTail
  (List.range nofCell).foldlM
    (fun res i => extractCaCell (dciAll i) nofCell headerTti tailTti res)
    (caTraceStart headerTti tailTti)

/-! ### The reordering buffer -/

/-- The indices of the eight entries before `index`. -/
def before8 (index : ℕ) : List ℕ :=
  if index < 8 then List.range index else (List.range 8).map (fun k => index-8+k)

def ngscopeReTxIsNewBurst (trace : NgscopeReTxCa) (index : ℕ) : Bool :=
  if trace.size ≤ index then false else (before8 index).all (fun i => !trace.reTx i)

def ngscopeReTxSumTbsNewBurst (trace : NgscopeReTxCa) (index : ℕ) : UInt32 :=
  if trace.size ≤ index then 0 else ((before8 index).map trace.tbs).foldl (· + ·) 0

/-- The entries strictly between the last and the current index. -/
def ngscopeReTxSumTbsInBurst (trace : NgscopeReTxCa) (idxLast : ℤ) (idxCurr : ℕ) : UInt32 :=
  if (trace.size:ℤ) ≤ idxLast ∨ trace.size ≤ idxCurr then 0
  else ((indexRange (idxLast+1) ((idxCurr:ℤ)-1)).map (fun i => trace.tbs i.toNat)).foldl (· + ·) 0

def setReTxStartTti (q : NgscopeReorderingBuf) (trace : NgscopeReTxCa) (idx : ℕ) :
    NgscopeReorderingBuf :=
  { q with
    bufferActive := true
    ready := true
    bufSize := (ngscopeReTxSumTbsNewBurst trace idx).toNat+11520*4
    bufStartTti := trace.tti idx
    bufLastTti := trace.tti idx
    bufStartT := trace.rxTUs idx
    bufLastT := trace.rxTUs idx }

def setReTxTtiInBurst (q : NgscopeReorderingBuf) (trace : NgscopeReTxCa) (idx : ℕ) :
    NgscopeReorderingBuf :=
  let idxLast := findElementInArrayUint16 (firstEntries trace.tti trace.size) q.bufLastTti
  { q with
    bufferActive := true
    bufSize := q.bufSize+((ngscopeReTxSumTbsInBurst trace idxLast idx).toNat+11520*4)
    bufLastTti := trace.tti idx
    bufLastT := trace.rxTUs idx }

/-- The branch of `update_reTx_buf` for an entry that is a retransmission. -/
def takeReTx (q : NgscopeReorderingBuf) (trace : NgscopeReTxCa) (i : ℕ) : NgscopeReorderingBuf :=
  if q.bufferActive then
    -- a new burst while the buffer is active is only reported
    if ngscopeReTxIsNewBurst trace i then q else setReTxTtiInBurst q trace i
  else if ngscopeReTxIsNewBurst trace i ∨ q.ready = false then setReTxStartTti q trace i
  else setReTxTtiInBurst (ngscopeReTxActivateBuf q) trace i

/-- The loop of `update_reTx_buf` from the entries `is` on: the buffer, and whether a
retransmission was found. -/
def updateReTxLoop (trace : NgscopeReTxCa) :
    List ℕ → NgscopeReorderingBuf → Bool → NgscopeReorderingBuf × Bool
  | [], q, found => (q, found)
  | i :: is, q, found =>
    if ttiASeB (wrapTti (trace.tti i)) (wrapTti q.bufLastTti) ∧ q.ready then
      updateReTxLoop trace is q found
    else
      let found := found || trace.reTx i
      let q := if trace.reTx i then takeReTx q trace i else q
      if q.bufferActive ∧ ttiALB (wrapTti (trace.tti i)) (wrapTti (q.bufLastTti+8)) then (q, found)
      else updateReTxLoop trace is q found

def updateReTxBuf (q : NgscopeReorderingBuf) (trace : NgscopeReTxCa) :
    NgscopeReorderingBuf × Bool :=
  updateReTxLoop trace (List.range trace.size) q false

def ngscopeReTxUpdateBuf (q : NgscopeReorderingBuf) (dciAll : ℕ → NgscopeDci) (nofCell : ℕ) :
    Option (NgscopeReorderingBuf × Bool) :=
  (extractCaTrace dciAll nofCell).map (updateReTxBuf q)

/-! ### The start of a burst among the packets -/

/-- Two neighbouring packets far apart in time and in delay. -/
def isBurstStart (pktTUs oneway : List UInt64) (index : ℕ) : Bool :=
  if pktTUs.length ≤ index then false
  else if index = 0 then true
  else
    timeDiffThd ≤ ((toLong (pktTUs.getD index 0)-toLong (pktTUs.getD (index-1) 0)).natAbs : ℤ) ∧
      onewayDiffThd < toLong (oneway.getD index 0)-toLong (oneway.getD (index-1) 0)

/-- The indices tried after the nearest packet `index`, in order. -/
def burstSearch (index pktNum : ℕ) : List ℕ :=
  (if index < burstFindSearchPkt then (List.range (index+1)).reverse
    else (List.range burstFindSearchPkt).map (fun k => index-k)) ++
  (if index+burstFindSearchPkt < pktNum then
      (List.range (burstFindSearchPkt-1)).map (fun k => index+1+k)
    else (List.range (pktNum-(index+1))).map (fun k => index+1+k))

/-- With no packet the code reads before the array, but then the result is never positive
whatever it reads. -/
def ngscopeReTxFindBurstStart (pktTUs oneway : List UInt64) (dciReTxTUs : UInt64) : ℤ :=
  let index := nearestNeighbourIndex pktTUs dciReTxTUs
  match (burstSearch index pktTUs.length).find? (isBurstStart pktTUs oneway) with
  | some i => i
  | none =>
    if (toLong (dciReTxTUs-pktTUs.getLastD 0)).natAbs < 10000 then -1 else index

end CopaNgscope
