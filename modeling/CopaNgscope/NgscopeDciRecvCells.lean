import CopaNgscope.NgscopeDciRing
import CopaNgscope.NgscopeDciRecvBounds

/-! The number of configured cells and the cell indices that come off the wire. Neither
byte is checked where it is read. -/
namespace CopaNgscope
open RunInvariant ByteMemory

/-! ### One update -/

/-- At least one cell is configured, and no more than there are slots. -/
def CellTable (s : RecvState) : Prop :=
  1 ≤ s.dciCa.nofCell ∧ s.dciCa.nofCell ≤ maxNofRfDev

def DciUpdate.CellsInRange : DciUpdate → Prop
  | .caInsert _ cellIdx => cellIdx.toNat < maxNofRfDev
  | .config cellPrb => 1 ≤ cellPrb.length ∧ cellPrb.length ≤ maxNofRfDev
  | .exit => True

theorem cellTable_recvStateInit : CellTable recvStateInit := ⟨by decide, by decide⟩

section
variable (stray : NgscopeDciCell → ℤ → UeDci)

/-- From a good cell table an update is defined and leaves a good one exactly when its own
cells are in range. -/
theorem applyUpdate_cellTable_iff {s : RecvState} (hs : CellTable s) (upd : DciUpdate) :
    (∃ t, applyUpdate stray s upd = some t ∧ CellTable t) ↔ upd.CellsInRange := by
  cases upd with
  | caInsert ueDci cellIdx =>
    constructor
    · rintro ⟨t, ht, _⟩
      obtain ⟨q, hq, _⟩ := Option.map_eq_some_iff.mp ht
      exact (ngscopeDciCAInsert_cases stray hq).1
    · intro hc
      obtain ⟨q, hq⟩ := ngscopeDciCAInsert_defined stray s.dciCa ueDci hc hs.1
      have hnof := (ngscopeDciCAInsert_cases stray hq).2.2.1
      refine ⟨_, by rw [applyUpdate, hq, Option.map_some], ?_⟩
      unfold CellTable
      rw [hnof]
      exact hs
  | config cellPrb =>
    constructor
    · rintro ⟨t, ht, htab⟩
      obtain ⟨q, hq, rfl⟩ := Option.map_eq_some_iff.mp ht
      unfold NgscopeDciCA.config at hq
      split_ifs at hq
      cases hq
      exact htab
    · intro hc
      refine ⟨_, by rw [applyUpdate, NgscopeDciCA.config, dif_pos hc.2, Option.map_some], ?_⟩
      exact hc
  | exit => exact iff_of_true ⟨_, rfl, hs⟩ trivial

theorem run_cellTable {us : List DciUpdate} (hus : ∀ u ∈ us, u.CellsInRange) {s : RecvState}
    (hs : CellTable s) : ∃ t, run (applyUpdate stray) s us = some t ∧ CellTable t :=
  run_all_invariant _ DciUpdate.CellsInRange CellTable
    (fun _ u hs hu => (applyUpdate_cellTable_iff stray hs u).mpr hu) us s hs hus

end

/-! ### The bytes an update was decoded from -/

/-- The cell byte of an accepted DCI record and the count of a CONFIG record are in range. -/
def CellBytesInRange (m : ByteMem) (idx recvLen : ℕ) : Prop :=
  (CompleteDci m idx recvLen ∨ UnknownVersion m idx recvLen →
    ∀ c, m (idx+15) = some c → c.toNat < maxNofRfDev) ∧
  (Holds m idx (List.replicate 4 0xBB) →
    ∀ n, m (idx+4) = some n → 1 ≤ n.toNat ∧ n.toNat ≤ maxNofRfDev)

/-- An inserted DCI names the cell byte of its record. -/
theorem caInsert_of_dci {m : ByteMem} {idx recvLen : ℕ} (hm : ∀ j < recvLen, (m j).isSome)
    {ret : ℤ} {upd : DciUpdate} (haa : Holds m idx (List.replicate 4 0xAA))
    (h : recvBuffer m idx recvLen = some (ret, some upd)) :
    (CompleteDci m idx recvLen ∨ UnknownVersion m idx recvLen) ∧
      ∃ d c, upd = .caInsert d c ∧ m (idx+15) = some c := by
  rw [recvBuffer_of_dci haa] at h
  rcases recvOneDci_cases hm (idx+4) with ⟨_, hr⟩ | ⟨hlen, v, d, c, hv, hv0, hc, hr⟩ |
    ⟨_, _, _, hr⟩ | ⟨ulDl, d, c, hv, hc, hul, hle, hr⟩
  · rw [hr] at h
    cases h
  · rw [hr] at h
    cases h
    exact ⟨Or.inr ⟨haa, by omega, by rw [hv]; simpa using hv0⟩, d, c, rfl, hc⟩
  · rw [hr] at h
    cases h
  · rw [hr] at h
    cases h
    exact ⟨Or.inl ⟨haa, hv, ulDl, hul, by omega⟩, d, c, rfl, hc⟩

/-- A configuration has as many cells as the count byte of its record says. -/
theorem config_of_recvBuffer {m : ByteMem} {idx recvLen : ℕ} {ret : ℤ} {upd : DciUpdate}
    (hbb : Holds m idx (List.replicate 4 0xBB))
    (h : recvBuffer m idx recvLen = some (ret, some upd)) :
    ∃ n cellPrb, upd = .config cellPrb ∧ m (idx+4) = some n ∧ cellPrb.length = n.toNat := by
  rw [recvBuffer_of_config hbb] at h
  obtain ⟨r, hr, h⟩ := Option.bind_eq_some_iff.mp h
  obtain ⟨n, hn, hr⟩ := Option.bind_eq_some_iff.mp hr
  obtain ⟨cellPrb, hprb, hr⟩ := Option.bind_eq_some_iff.mp hr
  cases hr
  cases h
  exact ⟨n, cellPrb, rfl, hn, length_of_readLe16s hprb⟩

theorem update_cellsInRange {m : ByteMem} {idx recvLen : ℕ} (hm : ∀ j < recvLen, (m j).isSome)
    (hok : CellBytesInRange m idx recvLen) {ret : ℤ} {upd : DciUpdate}
    (h : recvBuffer m idx recvLen = some (ret, some upd)) : upd.CellsInRange := by
  by_cases haa : Holds m idx (List.replicate 4 0xAA)
  · obtain ⟨htaken, d, c, rfl, hc⟩ := caInsert_of_dci hm haa h
    exact hok.1 htaken c hc
  · by_cases hbb : Holds m idx (List.replicate 4 0xBB)
    · obtain ⟨n, cellPrb, rfl, hn, hlen⟩ := config_of_recvBuffer hbb h
      have := hok.2 hbb n hn
      rw [← hlen] at this
      exact this
    · obtain ⟨_, hnone | hexit⟩ := recvBuffer_of_other haa hbb h
      · cases hnone
      · cases hexit
        trivial

/-! ### The whole thread -/

/-- Every update of the loop was made by one of its calls. -/
theorem recvLoop_updates {m : ByteMem} {recvLen fuel k : ℕ} (hk : LoopCall m recvLen k)
    {u : DciUpdate} (hu : u ∈ (recvLoop m recvLen fuel k).1) :
    ∃ j ret, LoopCall m recvLen j ∧ recvBuffer m j recvLen = some (ret, some u) := by
  induction fuel generalizing k with
  | zero => cases hu
  | succ fuel ih =>
    rw [recvLoop] at hu
    cases hr : recvBuffer m k recvLen with
    | none =>
      rw [hr] at hu
      cases hu
    | some r =>
      obtain ⟨ret, upd⟩ := r
      simp only [hr] at hu
      have hhere (h : u ∈ upd.toList) :
          ∃ j ret, LoopCall m recvLen j ∧ recvBuffer m j recvLen = some (ret, some u) :=
        ⟨k, ret, hk, by rw [hr, Option.mem_toList.mp h]⟩
      split_ifs at hu with h0 h1
      · exact hhere hu
      · exact hhere hu
      · rcases List.mem_append.mp hu with hu | hu
        · exact hhere hu
        · exact ih (hk.next hr (by omega) h1) hu

/-- The calls of `recv_buffer` the thread makes: the array, the received length and the
offset. -/
inductive ThreadCall : List UInt8 → List (List UInt8) → List UInt8 → ℕ → ℕ → Prop
  | here {recvBuf data : List UInt8} {rest : List (List UInt8)} {k : ℕ} : data ≠ [] →
      LoopCall (ofList (data ++ recvBuf.drop data.length)) data.length k →
      ThreadCall recvBuf (data :: rest) (data ++ recvBuf.drop data.length) data.length k
  | later {recvBuf data : List UInt8} {rest : List (List UInt8)} {buf : List UInt8}
      {recvLen k : ℕ} : ThreadCall (data ++ recvBuf.drop data.length) rest buf recvLen k →
      DciUpdate.exit ∉ (recvDatagram (data ++ recvBuf.drop data.length) data.length).1 →
      ThreadCall recvBuf (data :: rest) buf recvLen k

theorem ThreadCall.recvLen_le {recvBuf buf : List UInt8} {datagrams : List (List UInt8)}
    {recvLen k : ℕ} (h : ThreadCall recvBuf datagrams buf recvLen k) : recvLen ≤ buf.length := by
  induction h with
  | here _ _ => simp
  | later _ _ ih => exact ih

theorem recvThread_updates {datagrams : List (List UInt8)} {recvBuf : List UInt8}
    {u : DciUpdate} (hu : u ∈ recvThread recvBuf datagrams) :
    ∃ buf recvLen k ret, ThreadCall recvBuf datagrams buf recvLen k ∧
      recvBuffer (ofList buf) k recvLen = some (ret, some u) := by
  induction datagrams generalizing recvBuf with
  | nil => cases hu
  | cons data rest ih =>
    have hhere (h : u ∈ (recvDatagram (data ++ recvBuf.drop data.length) data.length).1) :
        ∃ buf recvLen k ret, ThreadCall recvBuf (data :: rest) buf recvLen k ∧
          recvBuffer (ofList buf) k recvLen = some (ret, some u) := by
      unfold recvDatagram at h
      split_ifs at h with hlen
      · cases h
      · obtain ⟨j, ret, hj, hr⟩ := recvLoop_updates .first h
        exact ⟨_, _, j, ret, .here (fun he => hlen (by rw [he]; rfl)) hj, hr⟩
    rw [recvThread] at hu
    split_ifs at hu with hstop
    · exact hhere hu
    · rcases List.mem_append.mp hu with hu | hu
      · exact hhere hu
      · obtain ⟨buf, recvLen, k, ret, hcall, hr⟩ := ih hu
        exact ⟨buf, recvLen, k, ret, hcall.later (fun h => hstop (Or.inl h)), hr⟩

/-- When the cell bytes of every record the thread takes are in range, no state it passes
through has an empty or an overfull cell table, and no step indexes past a table. -/
theorem cell_table_invariant (stray : NgscopeDciCell → ℤ → UeDci) (recvBuf : List UInt8)
    (datagrams : List (List UInt8))
    (hok : ∀ buf recvLen k, ThreadCall recvBuf datagrams buf recvLen k →
      CellBytesInRange (ofList buf) k recvLen)
    (us : List DciUpdate) (hus : us <+: recvThread recvBuf datagrams) :
    ∃ s, run (applyUpdate stray) recvStateInit us = some s ∧
      1 ≤ s.dciCa.nofCell ∧ s.dciCa.nofCell ≤ maxNofRfDev := by
  refine run_cellTable stray (fun u hu => ?_) cellTable_recvStateInit
  obtain ⟨buf, recvLen, k, ret, hcall, hr⟩ := recvThread_updates (hus.subset hu)
  have hle := hcall.recvLen_le
  exact update_cellsInRange (fun j hj => ofList_isSome.mpr (by omega))
    (hok buf recvLen k hcall) hr

/-- Two cells configured, then in the next datagram a DCI for the second. -/
theorem cell_table_invariant_two_cells :
    ∃ s, run (applyUpdate fun _ _ => UeDci.zero) recvStateInit
        (recvThread [] [[0xBB, 0xBB, 0xBB, 0xBB, 2, 50, 0, 100, 0],
          [0xAA, 0xAA, 0xAA, 0xAA, 0, 0, 0, 0, 9, 0, 0, 0, 0, 7, 0, 1, 0]]) = some s ∧
      1 ≤ s.dciCa.nofCell ∧ s.dciCa.nofCell ≤ maxNofRfDev := by
  have hconfig : recvBuffer (ofList [0xBB, 0xBB, 0xBB, 0xBB, 2, 50, 0, 100, 0]) 0 9 =
      some (9, some (.config [50, 100])) := by decide
  have hdci : ∃ upd, recvBuffer (ofList
      [0xAA, 0xAA, 0xAA, 0xAA, 0, 0, 0, 0, 9, 0, 0, 0, 0, 7, 0, 1, 0]) 0 17 = some (17, upd) :=
    ⟨_, rfl⟩
  -- in both datagrams the first call ends the loop
  have hfirst {m : ByteMem} {n k : ℕ} {upd : Option DciUpdate} (hk : LoopCall m n k)
      (h0 : recvBuffer m 0 n = some ((n:ℤ), upd)) : k = 0 := by
    induction hk with
    | first => rfl
    | next _ hr _ hne ih =>
      subst ih
      cases hr.symm.trans h0
      exact absurd rfl hne
  refine cell_table_invariant _ [] _ (fun buf recvLen k hcall => ?_) _ List.prefix_rfl
  cases hcall with
  | here _ hk =>
    obtain rfl := hfirst hk hconfig
    refine ⟨?_, fun _ n hn => ?_⟩
    · rintro (h | h)
      · exact absurd (h.1 0 (by decide)) (by decide)
      · exact absurd (h.1 0 (by decide)) (by decide)
    · cases hn
      decide
  | later hcall _ =>
    cases hcall with
    | later hcall _ => cases hcall
    | here _ hk =>
      obtain ⟨upd, hdci⟩ := hdci
      obtain rfl := hfirst hk hdci
      refine ⟨fun _ c hc => ?_, fun h => absurd (h 0 (by decide)) (by decide)⟩
      cases hc
      decide

/-- A CONFIG record for five cells, the first the array has no room for. -/
theorem cell_table_overrun_by_config :
    ¬ ∀ (stray : NgscopeDciCell → ℤ → UeDci) (recvBuf : List UInt8)
      (datagrams : List (List UInt8)) (us : List DciUpdate),
      us <+: recvThread recvBuf datagrams →
        ∃ s, run (applyUpdate stray) recvStateInit us = some s ∧
          1 ≤ s.dciCa.nofCell ∧ s.dciCa.nofCell ≤ maxNofRfDev := by
  intro hall
  have hus : recvThread [] [[0xBB, 0xBB, 0xBB, 0xBB, 5, 0, 0, 0, 0, 0, 0, 0, 0, 0, 0]] =
      [.config [0, 0, 0, 0, 0]] := by decide
  obtain ⟨s, hs, _⟩ := hall (fun _ _ => UeDci.zero) [] _ _ List.prefix_rfl
  rw [hus] at hs
  simp [applyUpdate, NgscopeDciCA.config, maxNofRfDev] at hs

end CopaNgscope
