import CopaNgscope.NgscopeDciWire

/-! Whole lists of records: in one datagram, and cut into the receives of a stream. -/
namespace CopaNgscope
open RunInvariant ByteMemory

/-! ### One datagram -/

/-- The loop takes the records at its index one by one, as long as bytes follow them. -/
theorem recvLoop_records {m : ByteMem} {recvLen : ℕ} (rs : List WireRecord) :
    ∀ {fuel k : ℕ}, Holds m k (encodeAll rs) → k+(encodeAll rs).length < recvLen →
      recvLoop m recvLen (fuel+rs.length) k =
        (rs.map WireRecord.update ++ (recvLoop m recvLen fuel (k+(encodeAll rs).length)).1,
          (recvLoop m recvLen fuel (k+(encodeAll rs).length)).2) := by
  induction rs with
  | nil => exact fun _ _ => rfl
  | cons x rs ih =>
    intro fuel k h hlen
    rw [encodeAll_cons] at h
    rw [encodeAll_cons, List.length_append] at hlen ⊢
    have hx := recvBuffer_of_holds x (holds_append.mp h).1
      (show k+x.encode.length ≤ recvLen by omega)
    have hrest := @ih fuel _ (holds_append.mp h).2 (by omega)
    rw [List.length_cons, ← Nat.add_assoc]
    simp only [recvLoop, hx]
    rw [if_neg (by omega), if_neg (by omega), Int.toNat_natCast, hrest, ← Nat.add_assoc]
    rfl

/-- The loop over a list of records that ends where the received bytes end. The index is
left at the last record, whose call returned `recvLen`. -/
theorem recvLoop_encodeAll {m : ByteMem} {recvLen fuel k : ℕ} (rs : List WireRecord)
    (r : WireRecord) (h : Holds m k (encodeAll (rs ++ [r])))
    (hlen : recvLen = k+(encodeAll (rs ++ [r])).length) :
    recvLoop m recvLen (fuel+1+rs.length) k =
      ((rs ++ [r]).map WireRecord.update, some (k+(encodeAll rs).length)) := by
  rw [encodeAll_concat, List.length_append] at hlen
  rw [encodeAll_concat, holds_append] at h
  have hpos := r.length_encode_pos
  have hr := recvBuffer_of_holds r h.2
    (show k+(encodeAll rs).length+r.encode.length ≤ recvLen by omega)
  rw [recvLoop_records rs h.1 (by omega)]
  simp only [recvLoop, hr]
  rw [if_neg (by omega), if_pos (by omega), List.map_append]
  rfl

/-- Behind the other records lies the last one. -/
theorem holds_last_record (rs : List WireRecord) (r : WireRecord) (stale : List UInt8) :
    Holds (ofList (encodeAll (rs ++ [r]) ++ stale)) (encodeAll rs).length r.encode := by
  have h := (holds_ofList (encodeAll (rs ++ [r]))).extends (extends_append _ stale)
  rw [encodeAll_concat] at h ⊢
  have hlast := (holds_append.mp h).2
  rwa [Nat.zero_add] at hlast

theorem length_le_encodeAll (rs : List WireRecord) : rs.length ≤ (encodeAll rs).length := by
  induction rs with
  | nil => simp
  | cons r rs ih =>
    rw [encodeAll_cons, List.length_append, List.length_cons]
    have := r.length_encode_pos
    omega

/-- A datagram of records makes their updates in order, whatever lies behind it. -/
theorem recvDatagram_encodeAll (rs : List WireRecord) (stale : List UInt8) :
    recvDatagram (encodeAll rs ++ stale) (encodeAll rs).length =
      (rs.map WireRecord.update, some (encodeAll rs.dropLast).length) := by
  induction rs using List.reverseRecOn with
  | nil => rfl
  | append_singleton rs r _ =>
    have hpos : (encodeAll (rs ++ [r])).length ≠ 0 := by
      rw [encodeAll_concat, List.length_append]
      have := r.length_encode_pos
      omega
    -- every record takes a byte at least, so one unit of fuel a record is enough
    have hfuel := length_le_encodeAll (rs ++ [r])
    have hholds : Holds (ofList (encodeAll (rs ++ [r]) ++ stale)) 0 (encodeAll (rs ++ [r])) :=
      (holds_ofList _).extends (extends_append _ _)
    rw [List.length_append, List.length_singleton] at hfuel
    obtain ⟨fuel, hfuel⟩ : ∃ fuel, (encodeAll (rs ++ [r]) ++ stale).length+1 = fuel+1+rs.length :=
      ⟨(encodeAll (rs ++ [r]) ++ stale).length-rs.length, by rw [List.length_append]; omega⟩
    rw [recvDatagram, if_neg hpos, hfuel, recvLoop_encodeAll rs r hholds (by omega),
      List.dropLast_concat, Nat.zero_add]

section
variable (stray : NgscopeDciCell → ℤ → UeDci)

/-- On the store the updates act as the records do. -/
theorem run_update_dciCa (rs : List WireRecord) (s : RecvState) :
    (run (applyUpdate stray) s (rs.map WireRecord.update)).map RecvState.dciCa =
      run (WireRecord.apply stray) s.dciCa rs := by
  induction rs generalizing s with
  | nil => rfl
  | cons r rs ih =>
    have hstep : (applyUpdate stray s r.update).map RecvState.dciCa =
        r.apply stray s.dciCa := by
      cases r with
      | dci r =>
        simp only [WireRecord.update, applyUpdate, WireRecord.apply, Option.map_map]
        exact Option.map_id'
      | config r =>
        simp only [WireRecord.update, applyUpdate, WireRecord.apply, Option.map_map]
        exact Option.map_id'
    rw [List.map_cons, run_cons, run_cons, ← hstep]
    cases applyUpdate stray s r.update with
    | none => rfl
    | some t => exact ih t

theorem WireRecord.update_cellsInRange (r : WireRecord) : r.update.CellsInRange := by
  cases r with
  | dci r => exact r.cellIdx_lt
  | config r => exact ⟨r.length_pos, r.length_le⟩

theorem updates_cellsInRange (rs : List WireRecord) :
    ∀ u ∈ rs.map WireRecord.update, u.CellsInRange := by
  intro u hu
  obtain ⟨r, _, rfl⟩ := List.mem_map.mp hu
  exact r.update_cellsInRange

/-- The records of a datagram are decoded exactly once each and in order: the loop ends with
a call that returns `recvLen`, the index keeps the offset of the last record, and the store
becomes the left fold of the records. -/
theorem recv_udp_decodes_wire (rs : List WireRecord) (stale : List UInt8) (s : RecvState)
    (hs : 1 ≤ s.dciCa.nofCell) :
    recvDatagram (encodeAll rs ++ stale) (encodeAll rs).length =
        (rs.map WireRecord.update, some (encodeAll rs.dropLast).length) ∧
      (rs ≠ [] → ∃ upd, recvBuffer (ofList (encodeAll rs ++ stale)) (encodeAll rs.dropLast).length
        (encodeAll rs).length = some (((encodeAll rs).length : ℤ), upd)) ∧
      ∃ t, run (applyUpdate stray) s (rs.map WireRecord.update) = some t ∧
        run (WireRecord.apply stray) s.dciCa rs = some t.dciCa := by
  refine ⟨recvDatagram_encodeAll rs stale, fun hne => ?_, ?_⟩
  · obtain ⟨init, r, rfl⟩ := (List.eq_nil_or_concat' rs).resolve_left hne
    have hlen : (encodeAll (init ++ [r])).length = (encodeAll init).length+r.encode.length := by
      rw [encodeAll_concat, List.length_append]
    refine ⟨some r.update, ?_⟩
    rw [List.dropLast_concat, recvBuffer_of_holds r (holds_last_record init r stale) (by omega),
      hlen]
  · obtain ⟨t, ht, _⟩ := run_cellTable stray (updates_cellsInRange rs) ⟨hs, s.dciCa.nofCell_le⟩
    refine ⟨t, ht, ?_⟩
    rw [← run_update_dciCa, ht, Option.map_some]

end

/-- One cell configured in a datagram of seven bytes. -/
def oneCellConfig : WireRecord := .config ⟨[50], by decide, by decide⟩

/-- Two cells, a DCI of both directions for the first and an uplink one for the second. -/
def twoCellRecords : List WireRecord :=
  [.config ⟨[50, 50], by decide, by decide⟩,
    .dci ⟨1000000, 6, 0, 3, (1, 20000), (0, 3000), by decide⟩,
    .dci ⟨4294967303, 6, 1, 2, (1, 20000), (1, 4000), by decide⟩]

/-- The downlink of the last record is not sent. Two bytes lie behind the datagram. -/
theorem recv_udp_decodes_two_cells :
    recvDatagram (encodeAll twoCellRecords ++ [0xAA, 0xAA]) 58 =
      ([.config [50, 50], .caInsert ⟨1000000, 6, 20000, 1, false, 3000, 0, false⟩ 0,
        .caInsert ⟨4294967303, 6, 0, 0, false, 4000, 1, false⟩ 1], some 36) ∧
    (∃ upd, recvBuffer (ofList (encodeAll twoCellRecords ++ [0xAA, 0xAA])) 36 58 =
      some (58, upd)) ∧
    ∃ t, run (applyUpdate fun _ _ => UeDci.zero) recvStateInit
        (twoCellRecords.map WireRecord.update) = some t ∧
      run (WireRecord.apply fun _ _ => UeDci.zero) ngscopeDciCAInit twoCellRecords =
        some t.dciCa := by
  obtain ⟨hupdates, hlast, hstore⟩ := recv_udp_decodes_wire (fun _ _ => UeDci.zero) twoCellRecords
    [0xAA, 0xAA] recvStateInit (by decide)
  exact ⟨hupdates, hlast (List.cons_ne_nil _ _), hstore⟩

/-- After a datagram of seven bytes with one record the index is 0. -/
theorem buf_idx_stays_at_last_record :
    ¬ ∀ (rs : List WireRecord) (stale : List UInt8),
      (recvDatagram (encodeAll rs ++ stale) (encodeAll rs).length).2 =
        some (encodeAll rs).length := by
  intro hall
  have h := hall [oneCellConfig] []
  exact absurd h (by decide)

/-! ### A stream -/

/-- Receives that each bring whole records leave the updates of all records, in order. -/
theorem recvThread_of_aligned (groups : List (List WireRecord)) (recvBuf : List UInt8) :
    recvThread recvBuf (groups.map encodeAll) = groups.flatten.map WireRecord.update := by
  induction groups generalizing recvBuf with
  | nil => rfl
  | cons g groups ih =>
    have hr := recvDatagram_encodeAll g (recvBuf.drop (encodeAll g).length)
    have hexit : DciUpdate.exit ∉ g.map WireRecord.update := by
      intro h
      obtain ⟨r, _, hr⟩ := List.mem_map.mp h
      cases r <;> cases hr
    rw [List.map_cons, recvThread]
    simp only [hr]
    rw [if_neg (by simp [hexit]), ih, List.flatten_cons, List.map_append]

/-- A DCI record cut off after its preamble fails without an update. -/
theorem recvBuffer_of_cut_dci {m : ByteMem} {recvLen k : ℕ} (hm : ∀ j < recvLen, (m j).isSome)
    (r : DciRecord) (cut : List UInt8) (hcut : cut <+: (WireRecord.dci r).encode)
    (hlt : cut.length < (WireRecord.dci r).encode.length) (hge : 4 ≤ cut.length)
    (h : Holds m k cut) (hlen : recvLen = k+cut.length) :
    recvBuffer m k recvLen = some (-1, none) := by
  have hbyte (i : ℕ) (hi : i < cut.length) : m (k+i) = (WireRecord.dci r).encode[i]? := by
    rw [h i hi, hcut.getElem hi, List.getElem?_eq_getElem]
  have haa : Holds m k (List.replicate 4 0xAA) := by
    intro i hi
    have hi4 : i < 4 := by simpa using hi
    rw [hbyte i (by omega), List.getElem_replicate]
    match i, hi4 with
    | 0, _ => rfl
    | 1, _ => rfl
    | 2, _ => rfl
    | 3, _ => rfl
  have hfull : (WireRecord.dci r).encode.length = 17+dirLen r.ulDl := by
    simp only [WireRecord.encode, DciRecord.body, List.length_append, List.length_replicate,
      List.length_cons, length_be32Bytes, length_le16Bytes, length_dirBytes, dirLen]
    omega
  rw [recvBuffer_of_dci haa]
  -- of the four outcomes two fail; the other two contradict the version or the length
  rcases recvOneDci_cases hm (k+4) with ⟨_, hr⟩ | ⟨hle, v, _, _, hv, hv0, _⟩ | ⟨_, _, _, hr⟩ |
    ⟨ulDl, _, _, _, _, hul, hle, _⟩
  · rw [hr]
    rfl
  · rw [hbyte 4 (by omega)] at hv
    exact absurd (Option.some.inj hv).symm hv0
  · rw [hr]
    rfl
  · rw [show k+4+12 = k+16 by omega, hbyte 16 (by omega)] at hul
    have hul' : r.ulDl = ulDl := Option.some.inj hul
    rw [← hul'] at hle
    omega

/-- A receive that ends inside a DCI record takes the records before it and drops the bytes
of the cut one, which the next receive overwrites. -/
theorem recvDatagram_cut_dci (rs : List WireRecord) (r : DciRecord) (cut stale : List UInt8)
    (hcut : cut <+: (WireRecord.dci r).encode) (hlt : cut.length < (WireRecord.dci r).encode.length)
    (hge : 4 ≤ cut.length) :
    recvDatagram (encodeAll rs ++ cut ++ stale) (encodeAll rs ++ cut).length =
      (rs.map WireRecord.update, some (encodeAll rs ++ cut).length) := by
  have hholds := holds_append.mp ((holds_ofList (encodeAll rs ++ cut)).extends
    (extends_append _ stale))
  rw [Nat.zero_add] at hholds
  have hlen : (encodeAll rs ++ cut).length = (encodeAll rs).length+cut.length :=
    List.length_append
  have hfuel := length_le_encodeAll rs
  obtain ⟨fuel, hfuel⟩ : ∃ fuel, (encodeAll rs ++ cut ++ stale).length+1 = fuel+1+rs.length :=
    ⟨(encodeAll rs ++ cut ++ stale).length-rs.length, by rw [List.length_append]; omega⟩
  have hm (j : ℕ) (hj : j < (encodeAll rs ++ cut).length) :
      (ofList (encodeAll rs ++ cut ++ stale) j).isSome :=
    ofList_isSome.mpr (by rw [List.length_append]; omega)
  have hfail := recvBuffer_of_cut_dci hm r cut hcut hlt hge hholds.2 hlen
  rw [recvDatagram, if_neg (by omega), hfuel, recvLoop_records rs hholds.1 (by omega), Nat.zero_add]
  simp only [recvLoop, hfail]
  rw [if_pos (by decide)]
  simp

/-- Seventeen bytes without a direction. -/
def shortDci : WireRecord := .dci ⟨7, 1, 0, 0, (0, 0), (0, 0), by decide⟩

/-- Every receive ends where a record ends. -/
def Aligned (rs : List WireRecord) (chunks : List (List UInt8)) : Prop :=
  ∃ groups : List (List WireRecord), groups.flatten = rs ∧ groups.map encodeAll = chunks

/-- A stream cut at record boundaries only leaves the store the records make one by one,
after every receive and whatever the array held before. -/
theorem recv_thread_aligned_stream (stray : NgscopeDciCell → ℤ → UeDci) (recvBuf : List UInt8)
    (rs : List WireRecord) (chunks : List (List UInt8)) (h : Aligned rs chunks) :
    ∃ s, run (applyUpdate stray) recvStateInit (recvThread recvBuf chunks) = some s ∧
      run (WireRecord.apply stray) ngscopeDciCAInit rs = some s.dciCa := by
  obtain ⟨groups, rfl, rfl⟩ := h
  obtain ⟨s, hs, _⟩ := run_cellTable stray (updates_cellsInRange groups.flatten)
    cellTable_recvStateInit
  refine ⟨s, by rw [recvThread_of_aligned, hs], ?_⟩
  have hrun := run_update_dciCa stray groups.flatten recvStateInit
  rw [hs] at hrun
  exact hrun.symm

/-- A receive of one CONFIG record and one of a DCI record for its cell. -/
theorem recv_thread_aligned_two_receives :
    ∃ s, run (applyUpdate fun _ _ => UeDci.zero) recvStateInit
        (recvThread (List.replicate 100 0) [encodeAll [oneCellConfig], encodeAll [shortDci]]) =
          some s ∧
      run (WireRecord.apply fun _ _ => UeDci.zero) ngscopeDciCAInit [oneCellConfig, shortDci] =
        some s.dciCa :=
  recv_thread_aligned_stream _ _ _ _ ⟨[[oneCellConfig], [shortDci]], rfl, rfl⟩

/-- Seventeen bytes received as ten and seven: both receives fail and the DCI is lost. -/
theorem recv_thread_loses_split_dci :
    ¬ ∀ (stray : NgscopeDciCell → ℤ → UeDci) (recvBuf : List UInt8) (rs : List WireRecord)
      (chunks : List (List UInt8)), recvBuf.length = 100 →
      (∀ c ∈ chunks, 1 ≤ c.length ∧ c.length ≤ 100) → chunks.flatten = encodeAll rs →
        ∃ s, run (applyUpdate stray) recvStateInit (recvThread recvBuf chunks) = some s ∧
          run (WireRecord.apply stray) ngscopeDciCAInit rs = some s.dciCa := by
  intro hall
  obtain ⟨s, hs, hrs⟩ := hall (fun _ _ => UeDci.zero) (List.replicate 100 0) [shortDci]
    [(encodeAll [shortDci]).take 10, (encodeAll [shortDci]).drop 10] (by decide) (by decide)
    (by decide)
  have hlost : recvThread (List.replicate 100 0)
      [(encodeAll [shortDci]).take 10, (encodeAll [shortDci]).drop 10] = [] := by decide
  rw [hlost] at hs
  cases hs
  rw [run_singleton] at hrs
  obtain ⟨_, hcells, _⟩ := ngscopeDciCAInsert_cases _ hrs
  exact absurd (congrArg (fun cellDci => (cellDci 0).nofLoggedDci) hcells) (by decide)

end CopaNgscope
