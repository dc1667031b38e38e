import CopaNgscope.NgscopeDciRecvCells

/-! The layout of the records on the wire, and that the receive loop decodes it. A datagram
of whole records is decoded exactly; a stream is, as long as every receive ends where a
record ends. -/
namespace CopaNgscope
open RunInvariant ByteMemory

/-! ### Records and their bytes -/

/-- A version 0 DCI record. `dl` and `ul` are a retransmission flag and a TBS each, sent
when their bit of `ulDl` is set. -/
structure DciRecord where
  timeStamp : UInt64
  tti : UInt16
  cellIdx : UInt8
  ulDl : UInt8
  dl : UInt8 × UInt32
  ul : UInt8 × UInt32
  cellIdx_lt : cellIdx.toNat < maxNofRfDev

structure ConfigRecord where
  cellPrb : List UInt16
  length_pos : 1 ≤ cellPrb.length
  length_le : cellPrb.length ≤ maxNofRfDev

inductive WireRecord
  | dci (r : DciRecord)
  | config (r : ConfigRecord)

def dirBytes (bit ulDl : UInt8) (x : UInt8 × UInt32) : List UInt8 :=
  if ulDl &&& bit ≠ 0 then x.1 :: be32Bytes x.2 else []

def DciRecord.lowerT (r : DciRecord) : UInt32 := UInt32.ofNat r.timeStamp.toNat

def DciRecord.upperT (r : DciRecord) : UInt32 := UInt32.ofNat (r.timeStamp.toNat/2^32)

/-- What follows the version byte. -/
def DciRecord.body (r : DciRecord) : List UInt8 :=
  be32Bytes r.lowerT ++ (be32Bytes r.upperT ++ (le16Bytes r.tti ++
    (r.cellIdx :: r.ulDl :: (dirBytes 0x01 r.ulDl r.dl ++ dirBytes 0x02 r.ulDl r.ul))))

def WireRecord.encode : WireRecord → List UInt8
  | .dci r => List.replicate 4 0xAA ++ 0 :: r.body
  | .config r =>
    List.replicate 4 0xBB ++ UInt8.ofNat r.cellPrb.length :: r.cellPrb.flatMap le16Bytes

/-- The DCI a record stands for; an absent direction is zero. -/
def DciRecord.ueDci (r : DciRecord) : UeDci where
  timeStamp := r.timeStamp
  tti := r.tti
  dlTbs := if r.ulDl &&& 0x01 ≠ 0 then r.dl.2 else 0
  dlReTx := if r.ulDl &&& 0x01 ≠ 0 then r.dl.1 else 0
  dlRvFlag := false
  ulTbs := if r.ulDl &&& 0x02 ≠ 0 then r.ul.2 else 0
  ulReTx := if r.ulDl &&& 0x02 ≠ 0 then r.ul.1 else 0
  ulRvFlag := false

def WireRecord.update : WireRecord → DciUpdate
  | .dci r => .caInsert r.ueDci r.cellIdx
  | .config r => .config r.cellPrb

/-- The effect of one record on the store. -/
def WireRecord.apply (stray : NgscopeDciCell → ℤ → UeDci) (q : NgscopeDciCA) :
    WireRecord → Option NgscopeDciCA
  | .dci r => ngscopeDciCAInsert stray q r.ueDci r.cellIdx.toNat
  | .config r => q.config r.cellPrb

def encodeAll (rs : List WireRecord) : List UInt8 := rs.flatMap WireRecord.encode

theorem encodeAll_cons (r : WireRecord) (rs : List WireRecord) :
    encodeAll (r :: rs) = r.encode ++ encodeAll rs := rfl

theorem encodeAll_concat (rs : List WireRecord) (r : WireRecord) :
    encodeAll (rs ++ [r]) = encodeAll rs ++ r.encode := by
  simp [encodeAll]

theorem WireRecord.length_encode_pos (r : WireRecord) : 0 < r.encode.length := by
  cases r <;> simp [WireRecord.encode]

theorem length_dirBytes (bit ulDl : UInt8) (x : UInt8 × UInt32) :
    (dirBytes bit ulDl x).length = if ulDl &&& bit ≠ 0 then 5 else 0 := by
  unfold dirBytes
  split_ifs <;> rfl

/-- The two halves of the timestamp put together again. -/
theorem DciRecord.timeStamp_eq (r : DciRecord) :
    UInt64.ofNat (r.lowerT.toNat+2^32*r.upperT.toNat) = r.timeStamp := by
  have hlt : r.timeStamp.toNat < 2^64 := r.timeStamp.toNat_lt
  have hval : r.timeStamp.toNat%2^32+2^32*(r.timeStamp.toNat/2^32%2^32) =
      r.timeStamp.toNat := by omega
  rw [lowerT, upperT, UInt32.toNat_ofNat', UInt32.toNat_ofNat', hval, UInt64.ofNat_toNat]

/-! ### One record -/

section
variable {m : ByteMem} {recvLen k : ℕ}

/-- A direction is read back from its bytes, also when they end at `recvLen`. -/
theorem recvDir_of_holds (bit : UInt8) (store : UeDci → UInt8 → UInt32 → UeDci) (ulDl : UInt8)
    (d : UeDci) (x : UInt8 × UInt32) (h : Holds m k (dirBytes bit ulDl x))
    (hle : k+(dirBytes bit ulDl x).length ≤ recvLen) :
    recvDir bit store ulDl d m k recvLen =
      some (some (if ulDl &&& bit ≠ 0 then store d x.1 x.2 else d,
        k+(dirBytes bit ulDl x).length)) := by
  unfold recvDir
  unfold dirBytes at h hle ⊢
  split_ifs at h hle ⊢ with hbit hcut
  · simp only [List.length_cons, length_be32Bytes] at hle
    omega
  · rw [holds_cons] at h
    rw [h.1, readBe32_of_holds h.2]
    rfl
  · rfl

theorem recvOneDci_of_holds (r : DciRecord) (h : Holds m k (0 :: r.body))
    (hle : k+(0 :: r.body).length ≤ recvLen) :
    recvOneDci m k recvLen = some (some (r.ueDci, r.cellIdx, k+(0 :: r.body).length)) := by
  have hlen : (0 :: r.body).length =
      13+(dirBytes 0x01 r.ulDl r.dl).length+(dirBytes 0x02 r.ulDl r.ul).length := by
    simp only [DciRecord.body, List.length_cons, List.length_append, length_be32Bytes,
      length_le16Bytes]
    omega
  rw [hlen] at hle ⊢
  simp only [DciRecord.body, holds_cons, holds_append, length_be32Bytes, length_le16Bytes,
    Nat.add_assoc, Nat.reduceAdd] at h
  obtain ⟨hv, hlo, hhi, htti, hcell, hul, hdl, hulb⟩ := h
  -- the body writes the downlink fields first and the uplink fields over the result
  have hver (d : UeDci) : recvDciVer1 d m (k+12) recvLen = some (some
      (if r.ulDl &&& 0x02 ≠ 0 then
        { (if r.ulDl &&& 0x01 ≠ 0 then { d with dlReTx := r.dl.1, dlTbs := r.dl.2 } else d) with
          ulReTx := r.ul.1, ulTbs := r.ul.2 }
        else if r.ulDl &&& 0x01 ≠ 0 then { d with dlReTx := r.dl.1, dlTbs := r.dl.2 } else d,
       k+13+(dirBytes 0x01 r.ulDl r.dl).length+(dirBytes 0x02 r.ulDl r.ul).length)) := by
    rw [recvDciVer1, if_neg (by omega), hul, Option.bind_some, recvDl,
      recvDir_of_holds 0x01 _ r.ulDl d r.dl hdl (by omega), Option.bind_some]
    rw [show k+(13+(dirBytes 0x01 r.ulDl r.dl).length) =
      k+12+1+(dirBytes 0x01 r.ulDl r.dl).length by omega] at hulb
    simp only
    rw [recvUl, recvDir_of_holds 0x02 _ r.ulDl _ r.ul hulb (by omega)]
  rw [recvOneDci, if_neg (by omega), hv, Option.bind_some, readBe32_of_holds hlo,
    Option.bind_some, readBe32_of_holds hhi, Option.bind_some, readLe16_of_holds htti,
    Option.bind_some, hcell, Option.bind_some]
  simp only [if_true, hver, Option.bind_some, Option.map_some, r.timeStamp_eq]
  refine congrArg some (congrArg some (Prod.ext ?_ (Prod.ext rfl ?_)))
  · simp only [DciRecord.ueDci]
    split_ifs <;> rfl
  · simp only
    omega

/-- One call takes one record: it returns the index after the record and makes its update. -/
theorem recvBuffer_of_holds (r : WireRecord) (h : Holds m k r.encode)
    (hle : k+r.encode.length ≤ recvLen) :
    recvBuffer m k recvLen = some (((k+r.encode.length : ℕ) : ℤ), some r.update) := by
  cases r with
  | dci r =>
    simp only [WireRecord.encode, holds_append, List.length_append,
      List.length_replicate] at h hle ⊢
    rw [recvBuffer_of_dci h.1, recvOneDci_of_holds r h.2 (by omega), Option.bind_some]
    simp only [List.length_cons, WireRecord.update]
    rw [if_neg (by omega)]
    congr 2
    push_cast
    ring
  | config r =>
    simp only [WireRecord.encode, holds_append, holds_cons, List.length_append,
      List.length_replicate] at h hle ⊢
    have hn : (UInt8.ofNat r.cellPrb.length).toNat = r.cellPrb.length := by
      have := r.length_le
      rw [UInt8.toNat_ofNat', Nat.mod_eq_of_lt (by unfold maxNofRfDev at this; omega)]
    have hbytes : (r.cellPrb.flatMap le16Bytes).length = 2*r.cellPrb.length := by
      simp [List.length_flatMap, Nat.mul_comm]
    rw [recvBuffer_of_config h.1, recvConfig, h.2.1, Option.bind_some, hn,
      readLe16s_of_holds h.2.2]
    simp only [Option.bind_some, List.length_cons, hbytes, WireRecord.update]
    congr 2
    push_cast
    ring

end

end CopaNgscope
