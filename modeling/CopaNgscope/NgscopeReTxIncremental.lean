import CopaNgscope.NgscopeReTxTrace

/-! Updating the buffer from a trace piece by piece. The windows of consecutive calls overlap;
entries seen twice are not counted twice and no gap is missed, so that two calls leave what
one call on the whole trace leaves. -/
namespace CopaNgscope
open CircularDistance

/-- `piece` holds the entries of the trace from `s` to before `m`. -/
structure NgscopeReTxCa.Piece (piece trace : NgscopeReTxCa) (s m : ℕ) : Prop where
  size : piece.size = m-s
  reTx : ∀ k < m-s, piece.reTx k = trace.reTx (s+k)
  tti : ∀ k < m-s, piece.tti k = trace.tti (s+k)
  tbs : ∀ k < m-s, piece.tbs k = trace.tbs (s+k)
  rxTUs : ∀ k < m-s, piece.rxTUs k = trace.rxTUs (s+k)

theorem NgscopeReTxCa.piece_self (trace : NgscopeReTxCa) : trace.Piece trace 0 trace.size where
  size := rfl
  reTx := fun k _ => by rw [Nat.zero_add]
  tti := fun k _ => by rw [Nat.zero_add]
  tbs := fun k _ => by rw [Nat.zero_add]
  rxTUs := fun k _ => by rw [Nat.zero_add]

theorem NgscopeReTxCa.Piece.contiguous {piece trace : NgscopeReTxCa} {start s m : ℕ}
    (h : piece.Piece trace s m) (htrace : trace.Contiguous start) (hm : m ≤ trace.size) :
    piece.Contiguous (start+s) := by
  intro k hk
  rw [h.size] at hk
  rw [h.tti k hk, Nat.add_assoc]
  exact htrace (s+k) (by omega)

/-! ### One entry in a piece and in the trace -/

/-- The eight entries before `k` in a piece that starts no later. -/
theorem map_before8 {s k : ℕ} (hs : s ≤ k-8) : (before8 (k-s)).map (s+·) = before8 k := by
  unfold before8
  by_cases hk : k < 8
  · obtain rfl : s = 0 := by omega
    rw [Nat.sub_zero]
    simp
  · rw [if_neg (show ¬ k-s < 8 by omega), if_neg hk, List.map_map]
    apply List.map_congr_left
    intro j hj
    simp only [Function.comp_apply]
    omega

theorem mem_before8 {i k : ℕ} : i ∈ before8 k ↔ k-8 ≤ i ∧ i < k := by
  unfold before8
  split_ifs
  · rw [List.mem_range]
    omega
  · rw [List.mem_map]
    constructor
    · rintro ⟨j, hj, rfl⟩
      rw [List.mem_range] at hj
      omega
    · rintro ⟨hle, hlt⟩
      exact ⟨i-(k-8), List.mem_range.mpr (by omega), by omega⟩

section
variable {piece trace : NgscopeReTxCa} {start s m : ℕ} (hpiece : piece.Piece trace s m)
  (hm : m ≤ trace.size)
include hpiece hm

theorem isNewBurst_piece {k : ℕ} (hs : s ≤ k-8) (hk : k < m) :
    ngscopeReTxIsNewBurst piece (k-s) = ngscopeReTxIsNewBurst trace k := by
  unfold ngscopeReTxIsNewBurst
  rw [if_neg (by rw [hpiece.size]; omega), if_neg (by omega), ← map_before8 hs, List.all_map]
  rw [Bool.eq_iff_iff, List.all_eq_true, List.all_eq_true]
  refine forall₂_congr (fun i hi => ?_)
  rw [Function.comp_apply, hpiece.reTx i (by have := mem_before8.mp hi; omega)]

theorem sumTbsNewBurst_piece {k : ℕ} (hs : s ≤ k-8) (hk : k < m) :
    ngscopeReTxSumTbsNewBurst piece (k-s) = ngscopeReTxSumTbsNewBurst trace k := by
  unfold ngscopeReTxSumTbsNewBurst
  rw [if_neg (by rw [hpiece.size]; omega), if_neg (by omega), ← map_before8 hs, List.map_map]
  congr 1
  apply List.map_congr_left
  intro i hi
  exact hpiece.tbs i (by have := mem_before8.mp hi; omega)

theorem sumTbsInBurst_piece {p k : ℕ} (hsp : s ≤ p) (hpk : p < k) (hk : k < m) :
    ngscopeReTxSumTbsInBurst piece ((p-s : ℕ) : ℤ) (k-s) = ngscopeReTxSumTbsInBurst trace p k := by
  unfold ngscopeReTxSumTbsInBurst indexRange
  rw [if_neg (by rw [hpiece.size]; omega), if_neg (by omega), List.map_map, List.map_map]
  congr 1
  rw [show ((k-s : ℕ) : ℤ)-1-(((p-s : ℕ) : ℤ)+1)+1 = (k:ℤ)-1-((p:ℤ)+1)+1 by omega]
  apply List.map_congr_left
  intro j hj
  have hj := List.mem_range.mp hj
  simp only [Function.comp_apply]
  rw [hpiece.tbs _ (by omega)]
  congr 1
  omega

/-- A retransmission does the same in a piece, when what it is added to lies in the piece. -/
theorem takeReTx_piece (htrace : trace.Contiguous start) (hsize : trace.size < 5120)
    {q : NgscopeReorderingBuf} {k : ℕ} (hs : s ≤ k-8) (hk : k < m)
    (hlast : ngscopeReTxIsNewBurst trace k = false → q.bufferActive = true ∨ q.ready = true →
      ∃ p, s ≤ p ∧ p < k ∧ q.bufLastTti = trace.tti p) :
    takeReTx q piece (k-s) = takeReTx q trace k := by
  have hin : k-s < m-s := by omega
  have hshift : s+(k-s) = k := by omega
  have htti : piece.tti (k-s) = trace.tti k := by rw [hpiece.tti _ hin, hshift]
  have hrx : piece.rxTUs (k-s) = trace.rxTUs k := by rw [hpiece.rxTUs _ hin, hshift]
  -- a new burst sums at most eight entries, which lie in the piece
  have hstart : setReTxStartTti q piece (k-s) = setReTxStartTti q trace k := by
    unfold setReTxStartTti
    rw [sumTbsNewBurst_piece hpiece hm hs hk, htti, hrx]
  -- within a burst the sum starts at the last retransmission, found again at another index
  have hburst : ∀ r : NgscopeReorderingBuf,
      (∃ p, s ≤ p ∧ p < k ∧ r.bufLastTti = trace.tti p) →
      setReTxTtiInBurst r piece (k-s) = setReTxTtiInBurst r trace k := by
    rintro r ⟨p, hsp, hpk, hp⟩
    have hfind : findElementInArrayUint16 (firstEntries piece.tti piece.size) r.bufLastTti =
        ((p-s : ℕ) : ℤ) := by
      have hpin : p-s < piece.size := by rw [hpiece.size]; omega
      have hptti : piece.tti (p-s) = trace.tti p := by
        rw [hpiece.tti _ (by omega), Nat.add_sub_cancel' hsp]
      rw [hp, ← hptti]
      exact (hpiece.contiguous htrace hm).find_tti
        (by rw [hpiece.size]; unfold maxTti; omega) hpin
    have hfind' :
        findElementInArrayUint16 (firstEntries trace.tti trace.size) r.bufLastTti = p := by
      rw [hp]
      exact htrace.find_tti (by unfold maxTti; omega) (by omega)
    unfold setReTxTtiInBurst
    rw [hfind, hfind', htti, hrx]
    dsimp only
    rw [sumTbsInBurst_piece hpiece hm hsp hpk hk]
  unfold takeReTx
  rw [isNewBurst_piece hpiece hm hs hk, hstart]
  cases hnew : ngscopeReTxIsNewBurst trace k with
  | true => simp only [if_true, true_or]
  | false =>
    by_cases hactive : q.bufferActive = true
    · rw [if_pos hactive, if_pos hactive, if_neg (by simp), if_neg (by simp)]
      exact hburst q (hlast hnew (Or.inl hactive))
    · rw [if_neg hactive, if_neg hactive]
      by_cases hready : q.ready = false
      · rw [if_pos (Or.inr hready), if_pos (Or.inr hready)]
      · rw [if_neg (by simp [hready]), if_neg (by simp [hready])]
        exact hburst _ (hlast hnew (Or.inr (by simpa using hready)))

end

/-! ### The loop within a burst -/

/-- The buffer that the loop leaves. -/
def scanReTx (trace : NgscopeReTxCa) (is : List ℕ) (q : NgscopeReorderingBuf) :
    NgscopeReorderingBuf :=
  (updateReTxLoop trace is q false).1

theorem updateReTxLoop_fst (trace : NgscopeReTxCa) (is : List ℕ) (q : NgscopeReorderingBuf)
    (found : Bool) : (updateReTxLoop trace is q found).1 = scanReTx trace is q := by
  unfold scanReTx
  induction is generalizing q found with
  | nil => rfl
  | cons i is ih =>
    by_cases hskip : SkipsEntry q trace i
    · rw [updateReTxLoop_skips hskip, updateReTxLoop_skips hskip, ih]
    · by_cases hover : BurstOver (takeEntry q trace i) trace i
      · rw [updateReTxLoop_over hskip hover, updateReTxLoop_over hskip hover]
      · rw [updateReTxLoop_takes hskip hover, updateReTxLoop_takes hskip hover, ih,
          ih _ (false || trace.reTx i)]

section
variable {q : NgscopeReorderingBuf} {trace : NgscopeReTxCa} {i : ℕ}

theorem scanReTx_skips (h : SkipsEntry q trace i) (is : List ℕ) :
    scanReTx trace (i :: is) q = scanReTx trace is q := by
  unfold scanReTx
  rw [updateReTxLoop_skips h]

theorem scanReTx_over (h : ¬ SkipsEntry q trace i)
    (hover : BurstOver (takeEntry q trace i) trace i) (is : List ℕ) :
    scanReTx trace (i :: is) q = takeEntry q trace i := by
  unfold scanReTx
  rw [updateReTxLoop_over h hover]

theorem scanReTx_takes (h : ¬ SkipsEntry q trace i)
    (hover : ¬ BurstOver (takeEntry q trace i) trace i) (is : List ℕ) :
    scanReTx trace (i :: is) q = scanReTx trace is (takeEntry q trace i) := by
  rw [scanReTx, updateReTxLoop_takes h hover, updateReTxLoop_fst]

/-- Entries that are left out, or that change nothing and do not end the burst, have no effect. -/
theorem scanReTx_append {is : List ℕ} (his : ∀ i ∈ is, SkipsEntry q trace i ∨
    (takeEntry q trace i = q ∧ ¬ BurstOver q trace i)) (js : List ℕ) :
    scanReTx trace (is ++ js) q = scanReTx trace js q := by
  induction is with
  | nil => rfl
  | cons i is ih =>
    have ih := ih (fun j hj => his j (List.mem_cons_of_mem i hj))
    rw [List.cons_append]
    by_cases hskip : SkipsEntry q trace i
    · rw [scanReTx_skips hskip, ih]
    · obtain ⟨hsame, hover⟩ := (his i List.mem_cons_self).resolve_left hskip
      rw [scanReTx_takes hskip (by rwa [hsame]), hsame, ih]

end

/-- The buffer is active and entry `l` is its last retransmission. -/
structure BurstAt (q : NgscopeReorderingBuf) (trace : NgscopeReTxCa) (l : ℕ) : Prop where
  active : q.bufferActive = true
  ready : q.ready = true
  lt_size : l < trace.size
  last : q.bufLastTti = trace.tti l

theorem burstAt_takeReTx {q : NgscopeReorderingBuf} (hinactive : q.bufferActive = false)
    {trace : NgscopeReTxCa} {i : ℕ} (hi : i < trace.size) :
    BurstAt (takeReTx q trace i) trace i := by
  unfold takeReTx
  rw [if_neg (by simp [hinactive])]
  split_ifs with hstart
  · exact ⟨rfl, rfl, hi, rfl⟩
  · have hready : q.ready = true := by simpa using (not_or.mp hstart).2
    exact ⟨rfl, hready, hi, rfl⟩

section
variable {q : NgscopeReorderingBuf} {trace : NgscopeReTxCa} {start l : ℕ}

theorem BurstAt.takeEntry_cases (h : BurstAt q trace l) {k : ℕ} (hk : k < trace.size) :
    takeEntry q trace k = q ∨ BurstAt (takeEntry q trace k) trace k := by
  unfold takeEntry takeReTx
  rw [if_pos h.active]
  split_ifs
  · exact Or.inl rfl
  · exact Or.inr ⟨rfl, h.ready, hk, rfl⟩
  · exact Or.inl rfl

variable (htrace : trace.Contiguous start) (hsize : trace.size < 5120)
include htrace hsize

theorem BurstAt.skipsEntry_iff (h : BurstAt q trace l) {k : ℕ} (hk : k < trace.size) :
    SkipsEntry q trace k ↔ k ≤ l := by
  have htti := htrace k hk
  have hlast := htrace l h.lt_size
  have hl := h.lt_size
  rw [SkipsEntry, h.last, htti.wrapTti_eq, hlast.wrapTti_eq, and_iff_left h.ready,
    ttiASeB_iff_le htti hlast (by omega) (by omega), Nat.add_le_add_iff_left]

/-- The burst is over once an entry comes more than eight after its last retransmission. -/
theorem BurstAt.burstOver_iff (h : BurstAt q trace l) {k : ℕ} (hlk : l ≤ k) (hk : k < trace.size) :
    BurstOver q trace k ↔ l+8 < k := by
  have htti := htrace k hk
  have hlimit := isTtiOf_wrapTti_add (htrace l h.lt_size) (show 8 < 10240 by omega)
  rw [BurstOver, h.last, htti.wrapTti_eq, and_iff_right h.active]
  exact (ttiALB_iff_lt htti hlimit (by omega) (by omega)).trans (by omega)

/-- Entries after the last retransmission that change nothing may be gone through again. -/
theorem BurstAt.scanReTx_quiet (h : BurstAt q trace l) {k e : ℕ} (hlk : l < k)
    (hquiet : ∀ i, l < i → i < k → takeEntry q trace i = q ∧ i ≤ l+8) (hke : k+e ≤ trace.size) :
    scanReTx trace (List.range' (l+1) (k+e-(l+1))) q = scanReTx trace (List.range' k e) q := by
  have hsplit : List.range' (l+1) (k+e-(l+1)) =
      List.range' (l+1) (k-(l+1)) ++ List.range' k e := by
    rw [show k+e-(l+1) = k-(l+1)+e by omega, ← List.range'_append_1,
      show l+1+(k-(l+1)) = k by omega]
  rw [hsplit]
  apply scanReTx_append
  intro i hi
  have hi := List.mem_range'_1.mp hi
  obtain ⟨hsame, hle⟩ := hquiet i (by omega) (by omega)
  refine Or.inr ⟨hsame, fun hover => ?_⟩
  have := (h.burstOver_iff htrace hsize (by omega) (by omega)).mp hover
  omega

/-- The loop up to an entry, then again from the last retransmission on, is the whole loop. -/
theorem scanReTx_resume {k c d : ℕ} (h : BurstAt q trace l) (hlk : l < k)
    (hquiet : ∀ i, l < i → i < k → takeEntry q trace i = q ∧ i ≤ l+8)
    (hend : k+c+d ≤ trace.size) :
    ∃ l', BurstAt (scanReTx trace (List.range' k c) q) trace l' ∧ l ≤ l' ∧ l' < k+c ∧
      scanReTx trace (List.range' (l'+1) (k+c+d-(l'+1))) (scanReTx trace (List.range' k c) q) =
        scanReTx trace (List.range' k (c+d)) q := by
  -- by induction on the entries of the first call, with the quiet ones behind it going along
  induction c generalizing q l k with
  | zero =>
    refine ⟨l, h, le_rfl, by omega, ?_⟩
    rw [Nat.zero_add, Nat.add_zero]
    exact h.scanReTx_quiet htrace hsize hlk hquiet (by omega)
  | succ c ih =>
    have hk : k < trace.size := by omega
    have hskip : ¬ SkipsEntry q trace k := by
      rw [h.skipsEntry_iff htrace hsize hk]
      omega
    rw [show k+(c+1)+d = k+1+c+d by omega, show c+1+d = c+d+1 by omega]
    rcases h.takeEntry_cases hk with hsame | hburst
    · by_cases hlate : l+8 < k
      · -- the burst is over, here and in the whole loop, and the second call finds that again
        have hover : BurstOver (takeEntry q trace k) trace k := by
          rw [hsame]
          exact (h.burstOver_iff htrace hsize hlk.le hk).mpr hlate
        have hstop (e : ℕ) : scanReTx trace (List.range' k (e+1)) q = q := by
          rw [List.range'_succ, scanReTx_over hskip hover, hsame]
        rw [hstop, hstop]
        refine ⟨l, h, le_rfl, by omega, ?_⟩
        rw [show k+1+c+d = k+(c+d+1) by omega,
          h.scanReTx_quiet htrace hsize hlk hquiet (by omega), hstop]
      · have hover : ¬ BurstOver (takeEntry q trace k) trace k := by
          rw [hsame, h.burstOver_iff htrace hsize hlk.le hk]
          exact hlate
        have hpass (e : ℕ) : scanReTx trace (List.range' k (e+1)) q =
            scanReTx trace (List.range' (k+1) e) q := by
          rw [List.range'_succ, scanReTx_takes hskip hover, hsame]
        have hquiet' : ∀ i, l < i → i < k+1 → takeEntry q trace i = q ∧ i ≤ l+8 := by
          intro i hli hik
          rcases Nat.lt_or_ge i k with hik' | hki
          · exact hquiet i hli hik'
          · obtain rfl : i = k := by omega
            exact ⟨hsame, by omega⟩
        obtain ⟨l', hl', hle, hlt, hrest⟩ := ih h (hlk.trans k.lt_succ_self) hquiet' (by omega)
        rw [hpass, hpass]
        exact ⟨l', hl', hle, by omega, hrest⟩
    · -- entry `k` becomes the last retransmission
      have hover : ¬ BurstOver (takeEntry q trace k) trace k := by
        rw [hburst.burstOver_iff htrace hsize le_rfl hk]
        omega
      have htake (e : ℕ) : scanReTx trace (List.range' k (e+1)) q =
          scanReTx trace (List.range' (k+1) e) (takeEntry q trace k) := by
        rw [List.range'_succ, scanReTx_takes hskip hover]
      have hquiet' : ∀ i, k < i → i < k+1 →
          takeEntry (takeEntry q trace k) trace i = takeEntry q trace k ∧ i ≤ k+8 := by
        intro i hki hik
        omega
      obtain ⟨l', hl', hle, hlt, hrest⟩ := ih hburst k.lt_succ_self hquiet' (by omega)
      rw [htake, htake]
      exact ⟨l', hl', by omega, by omega, hrest⟩

end

/-! ### The loop over a piece -/

section
variable {piece trace : NgscopeReTxCa} {start s m : ℕ} (hpiece : piece.Piece trace s m)
include hpiece

theorem skipsEntry_piece {q : NgscopeReorderingBuf} {k : ℕ} (hs : s ≤ k) (hk : k < m) :
    SkipsEntry q piece (k-s) ↔ SkipsEntry q trace k := by
  unfold SkipsEntry
  rw [hpiece.tti (k-s) (by omega), Nat.add_sub_cancel' hs]

theorem burstOver_piece {q : NgscopeReorderingBuf} {k : ℕ} (hs : s ≤ k) (hk : k < m) :
    BurstOver q piece (k-s) ↔ BurstOver q trace k := by
  unfold BurstOver
  rw [hpiece.tti (k-s) (by omega), Nat.add_sub_cancel' hs]

variable (hm : m ≤ trace.size) (htrace : trace.Contiguous start) (hsize : trace.size < 5120)
include hm htrace hsize

theorem takeEntry_piece {q : NgscopeReorderingBuf} {k : ℕ} (hs : s ≤ k-8) (hk : k < m)
    (hlast : ngscopeReTxIsNewBurst trace k = false → q.bufferActive = true ∨ q.ready = true →
      ∃ p, s ≤ p ∧ p < k ∧ q.bufLastTti = trace.tti p) :
    takeEntry q piece (k-s) = takeEntry q trace k := by
  unfold takeEntry
  rw [hpiece.reTx (k-s) (by omega), Nat.add_sub_cancel' (show s ≤ k by omega),
    takeReTx_piece hpiece hm htrace hsize hs hk hlast]

/-- Within a burst a piece is as good as the trace. -/
theorem scanReTx_piece {q : NgscopeReorderingBuf} {l k c : ℕ} (h : BurstAt q trace l)
    (hsl : s ≤ l) (hlk : l < k) (hs : s ≤ k-8) (hend : k+c ≤ m) :
    scanReTx piece (List.range' (k-s) c) q = scanReTx trace (List.range' k c) q := by
  induction c generalizing q l k with
  | zero => rfl
  | succ c ih =>
    have hk : k < trace.size := by omega
    have hsk : s ≤ k := by omega
    have hskip : ¬ SkipsEntry q trace k := by
      rw [h.skipsEntry_iff htrace hsize hk]
      omega
    have hskip' := (skipsEntry_piece hpiece hsk (by omega)).not.mpr hskip
    have htake : takeEntry q piece (k-s) = takeEntry q trace k :=
      takeEntry_piece hpiece hm htrace hsize hs (by omega) (fun _ _ => ⟨l, hsl, hlk, h.last⟩)
    rw [List.range'_succ, List.range'_succ, ← Nat.sub_add_comm hsk]
    by_cases hover : BurstOver (takeEntry q trace k) trace k
    · have hover' : BurstOver (takeEntry q piece (k-s)) piece (k-s) := by
        rw [htake]
        exact (burstOver_piece hpiece hsk (by omega)).mpr hover
      rw [scanReTx_over hskip hover, scanReTx_over hskip' hover', htake]
    · have hover' : ¬ BurstOver (takeEntry q piece (k-s)) piece (k-s) := by
        rw [htake]
        exact (burstOver_piece hpiece hsk (by omega)).not.mpr hover
      rw [scanReTx_takes hskip hover, scanReTx_takes hskip' hover', htake]
      rcases h.takeEntry_cases hk with hsame | hburst
      · rw [hsame]
        exact ih h hsl (by omega) (by omega) (by omega)
      · exact ih hburst hsk k.lt_succ_self (by omega) (by omega)

end

/-! ### The first new retransmission -/

/-- Entry `i` is nearer to the end of the trace than the last retransmission of the buffer. -/
def NewerThanLast (q : NgscopeReorderingBuf) (trace : NgscopeReTxCa) (i : ℕ) : Prop :=
  q.ready = true →
    cdist maxTti (trace.tti i).toNat (trace.tti (trace.size-1)).toNat <
      cdist maxTti q.bufLastTti.toNat (trace.tti (trace.size-1)).toNat

/-- The last retransmission, if there was one, is less than half a cycle older than the end. -/
def RecentLast (q : NgscopeReorderingBuf) (trace : NgscopeReTxCa) : Prop :=
  q.ready = true → 0 < trace.size → q.bufLastTti.toNat < maxTti ∧
    cdist maxTti q.bufLastTti.toNat (trace.tti (trace.size-1)).toNat < 5120

/-- Entry `i` is the first retransmission that is newer than the last one of the buffer. -/
structure FirstNewReTx (q : NgscopeReorderingBuf) (trace : NgscopeReTxCa) (i : ℕ) : Prop where
  lt_size : i < trace.size
  reTx : trace.reTx i = true
  newer : NewerThanLast q trace i
  old : ∀ j < i, trace.reTx j = true → ¬ NewerThanLast q trace j

theorem exists_firstNewReTx {q : NgscopeReorderingBuf} {trace : NgscopeReTxCa}
    (h : ∃ i, i < trace.size ∧ trace.reTx i = true ∧ NewerThanLast q trace i) :
    ∃ i, FirstNewReTx q trace i := by
  classical
  obtain ⟨hlt, hreTx, hnewer⟩ := Nat.find_spec h
  refine ⟨Nat.find h, hlt, hreTx, hnewer, ?_⟩
  intro j hj hreTx' hnewer'
  exact Nat.find_min h hj ⟨hj.trans hlt, hreTx', hnewer'⟩

section
variable {q : NgscopeReorderingBuf} {trace : NgscopeReTxCa} {tail : ℕ}
  (htrace : trace.Contiguous tail) (hsize : trace.size < 5120) (hrecent : RecentLast q trace)
include htrace hsize hrecent

/-- A time for the last retransmission, from which the entries of the trace are newer or not. -/
theorem exists_time_of_recentLast (hready : q.ready = true) (hpos : 0 < trace.size) :
    ∃ start last, trace.Contiguous start ∧ IsTtiOf q.bufLastTti last ∧
      last ≤ start+(trace.size-1) ∧ start+(trace.size-1) < last+5120 ∧
      ∀ i < trace.size, NewerThanLast q trace i ↔ last < start+i := by
  obtain ⟨hlt, hdist⟩ := hrecent hready hpos
  have hend := htrace (trace.size-1) (by omega)
  have hwalk := add_cdist_mod (show 0 < maxTti by decide) q.bufLastTti.toNat
    (trace.tti (trace.size-1)).toNat
  unfold NewerThanLast
  generalize hd : cdist maxTti q.bufLastTti.toNat (trace.tti (trace.size-1)).toNat = d at *
  rw [hend] at hwalk
  -- one cycle more, so that the time of the last retransmission is not negative
  refine ⟨tail+maxTti, tail+maxTti+(trace.size-1)-d, fun k hk => ?_, ?_, by omega, ?_,
    fun i hi => ?_⟩
  · rw [IsTtiOf, htrace k hk, show tail+maxTti+k = tail+k+maxTti by omega, Nat.add_mod_right]
  · unfold IsTtiOf
    unfold maxTti at *
    omega
  · unfold maxTti
    omega
  · have hi' : cdist maxTti (trace.tti i).toNat (trace.tti (trace.size-1)).toNat =
        trace.size-1-i := by
      have hstep : (trace.tti (trace.size-1)).toNat =
          ((trace.tti i).toNat+(trace.size-1-i))%maxTti := by
        rw [hend, htrace i hi, Nat.mod_add_mod]
        congr 1
        omega
      rw [hstep, cdist_add_right (by decide), Nat.mod_eq_of_lt]
      unfold maxTti
      omega
    rw [hi']
    unfold maxTti
    exact ⟨fun h => by have := h hready; omega, fun h _ => by omega⟩

theorem skipsEntry_iff_not_newer {i : ℕ} (hi : i < trace.size) :
    SkipsEntry q trace i ↔ ¬ NewerThanLast q trace i := by
  cases hready : q.ready with
  | false => simp [SkipsEntry, NewerThanLast, hready]
  | true =>
    obtain ⟨start, last, htrace', hlast, hle, hlt, hnewer⟩ :=
      exists_time_of_recentLast htrace hsize hrecent hready (by omega)
    have htti := htrace' i hi
    rw [hnewer i hi, SkipsEntry, htti.wrapTti_eq, hlast.wrapTti_eq, and_iff_left hready, not_lt]
    exact ttiASeB_iff_le htti hlast (by omega) (by omega)

/-- A new retransmission that does not start a burst follows the last one within the trace. -/
theorem exists_last_entry {i : ℕ} (hi : FirstNewReTx q trace i) (hready : q.ready = true)
    (hburst : ngscopeReTxIsNewBurst trace i = false) :
    ∃ p, i-8 ≤ p ∧ p < i ∧ q.bufLastTti = trace.tti p := by
  have hlt := hi.lt_size
  obtain ⟨start, last, htrace', hlast, hle, hend, hnewer⟩ :=
    exists_time_of_recentLast htrace hsize hrecent hready (by omega)
  obtain ⟨j, hj, hreTx⟩ : ∃ j ∈ before8 i, trace.reTx j = true := by
    unfold ngscopeReTxIsNewBurst at hburst
    rw [if_neg (by omega)] at hburst
    simpa using hburst
  obtain ⟨hle8, hji⟩ := mem_before8.mp hj
  -- what keeps entry `i` from starting a burst is old, so the last one is no earlier
  have hold := hi.old j hji hreTx
  rw [hnewer j (by omega)] at hold
  have hnew := (hnewer i hlt).mp hi.newer
  refine ⟨last-start, by omega, by omega, ?_⟩
  have htti := htrace' (last-start) (by omega)
  rw [Nat.add_sub_cancel' (by omega)] at htti
  exact UInt16.toNat.inj (hlast.trans htti.symm)

end

/-! ### Two calls and one -/

theorem updateReTxBuf_fst (q : NgscopeReorderingBuf) (trace : NgscopeReTxCa) :
    (updateReTxBuf q trace).1 = scanReTx trace (List.range trace.size) q := rfl

section
variable {piece trace : NgscopeReTxCa} {q : NgscopeReorderingBuf} {s m : ℕ}

theorem quiet_piece (hpiece : piece.Piece trace s m) (hinactive : q.bufferActive = false) {j : ℕ}
    (hj : j < m-s) (hold : trace.reTx (s+j) = true → SkipsEntry q trace (s+j)) :
    SkipsEntry q piece j ∨ (takeEntry q piece j = q ∧ ¬ BurstOver q piece j) := by
  cases hreTx : trace.reTx (s+j) with
  | true =>
    have hskip := (skipsEntry_piece hpiece (show s ≤ s+j by omega) (by omega)).mpr (hold hreTx)
    rw [Nat.add_sub_cancel_left] at hskip
    exact Or.inl hskip
  | false =>
    refine Or.inr ⟨?_, fun hover => absurd (hinactive.symm.trans hover.1) (by decide)⟩
    unfold takeEntry
    rw [hpiece.reTx j hj, hreTx]
    rfl

/-- Without a new retransmission a piece changes nothing. -/
theorem updateReTxBuf_piece_old (hpiece : piece.Piece trace s m)
    (hinactive : q.bufferActive = false)
    (hold : ∀ i < m, trace.reTx i = true → SkipsEntry q trace i) :
    (updateReTxBuf q piece).1 = q := by
  rw [updateReTxBuf_fst, hpiece.size, ← List.append_nil (List.range (m-s))]
  refine scanReTx_append (fun j hj => ?_) []
  have hj := List.mem_range.mp hj
  exact quiet_piece hpiece hinactive hj (hold (s+j) (by omega))

variable {tail : ℕ} (htrace : trace.Contiguous tail) (hsize : trace.size < 5120)
include htrace hsize

/-- Within a burst the loop over a piece goes on after the last retransmission. -/
theorem updateReTxBuf_piece_burst (hpiece : piece.Piece trace s m) (hm : m ≤ trace.size) {l : ℕ}
    (h : BurstAt q trace l) (hs : s ≤ l-8) (hlm : l < m) :
    (updateReTxBuf q piece).1 = scanReTx trace (List.range' (l+1) (m-(l+1))) q := by
  have hsplit : List.range (m-s) =
      List.range' 0 (l+1-s) ++ List.range' (l+1-s) (m-(l+1)) := by
    rw [List.range_eq_range', show m-s = l+1-s+(m-(l+1)) by omega, ← List.range'_append_1,
      Nat.zero_add]
  rw [updateReTxBuf_fst, hpiece.size, hsplit, scanReTx_append (fun j hj => Or.inl ?_)]
  · exact scanReTx_piece hpiece hm htrace hsize h (by omega) l.lt_succ_self (by omega) (by omega)
  · have hj := List.mem_range'_1.mp hj
    rw [show j = s+j-s by omega, skipsEntry_piece hpiece (by omega) (by omega),
      h.skipsEntry_iff htrace hsize (by omega)]
    omega

variable (hrecent : RecentLast q trace) (hinactive : q.bufferActive = false)
include hrecent hinactive

/-- The first new retransmission is taken, and the loop goes on after it in the trace. -/
theorem updateReTxBuf_piece_first (hpiece : piece.Piece trace s m) (hm : m ≤ trace.size) {i : ℕ}
    (hi : FirstNewReTx q trace i) (hs : s ≤ i-8) (him : i < m) :
    (updateReTxBuf q piece).1 =
      scanReTx trace (List.range' (i+1) (m-(i+1))) (takeReTx q trace i) := by
  have hburst := burstAt_takeReTx hinactive hi.lt_size
  have hsi : s ≤ i := by omega
  have htake : takeEntry q piece (i-s) = takeReTx q trace i := by
    rw [takeEntry_piece hpiece hm htrace hsize hs him, takeEntry, if_pos hi.reTx]
    intro hnew hflags
    have hready : q.ready = true := hflags.resolve_left (by simp [hinactive])
    obtain ⟨p, hp, hpi, hlast⟩ := exists_last_entry htrace hsize hrecent hi hready hnew
    exact ⟨p, by omega, hpi, hlast⟩
  have hskip : ¬ SkipsEntry q piece (i-s) := by
    rw [skipsEntry_piece hpiece hsi him, skipsEntry_iff_not_newer htrace hsize hrecent hi.lt_size,
      not_not]
    exact hi.newer
  have hover : ¬ BurstOver (takeEntry q piece (i-s)) piece (i-s) := by
    rw [htake, burstOver_piece hpiece hsi him,
      hburst.burstOver_iff htrace hsize le_rfl hi.lt_size]
    omega
  rw [updateReTxBuf_fst, hpiece.size, range_split (show i-s < m-s by omega),
    scanReTx_append (fun j hj => ?_), scanReTx_takes hskip hover, htake,
    show i-s+1 = i+1-s by omega, show m-s-(i+1-s) = m-(i+1) by omega]
  · exact scanReTx_piece hpiece hm htrace hsize hburst hsi i.lt_succ_self (by omega) (by omega)
  · have hj := List.mem_range.mp hj
    refine quiet_piece hpiece hinactive (by omega) (fun hreTx => ?_)
    rw [skipsEntry_iff_not_newer htrace hsize hrecent (by omega)]
    exact hi.old (s+j) (by omega) hreTx

/-- Two calls on overlapping pieces leave the buffer as one call on the whole trace. -/
theorem updateReTxBuf_pieces {earlier later : NgscopeReTxCa}
    (hearlier : earlier.Piece trace 0 m) (hlater : later.Piece trace s trace.size)
    (hm : m ≤ trace.size) (hs : ∀ i, FirstNewReTx q trace i → s ≤ i-8) :
    (updateReTxBuf (updateReTxBuf q earlier).1 later).1 = (updateReTxBuf q trace).1 := by
  by_cases hnew : ∃ i, i < trace.size ∧ trace.reTx i = true ∧ NewerThanLast q trace i
  · obtain ⟨i, hi⟩ := exists_firstNewReTx hnew
    have hlt := hi.lt_size
    have hsi := hs i hi
    rw [updateReTxBuf_piece_first htrace hsize hrecent hinactive trace.piece_self le_rfl hi
      (Nat.zero_le _) hlt]
    rcases Nat.lt_or_ge i m with him | hmi
    · -- the burst is found in the prefix, and the suffix continues it
      rw [updateReTxBuf_piece_first htrace hsize hrecent hinactive hearlier hm hi
        (Nat.zero_le _) him]
      obtain ⟨l, hl, hil, hlm, hrest⟩ := scanReTx_resume htrace hsize
        (burstAt_takeReTx hinactive hlt) i.lt_succ_self (fun j hij hji => absurd hji (by omega))
        (show i+1+(m-(i+1))+(trace.size-m) ≤ trace.size by omega)
      rw [show i+1+(m-(i+1))+(trace.size-m) = trace.size by omega,
        show m-(i+1)+(trace.size-m) = trace.size-(i+1) by omega] at hrest
      rw [← hrest]
      exact updateReTxBuf_piece_burst htrace hsize hlater le_rfl hl (by omega) (by omega)
    · -- the prefix ends before it and changes nothing
      rw [updateReTxBuf_piece_old hearlier hinactive (fun j hj hreTx => ?_)]
      · exact updateReTxBuf_piece_first htrace hsize hrecent hinactive hlater le_rfl hi hsi hlt
      · rw [skipsEntry_iff_not_newer htrace hsize hrecent (by omega)]
        exact hi.old j (by omega) hreTx
  · have hold : ∀ i < trace.size, trace.reTx i = true → SkipsEntry q trace i := by
      intro i hi hreTx
      rw [skipsEntry_iff_not_newer htrace hsize hrecent hi]
      exact fun hnewer => hnew ⟨i, hi, hreTx, hnewer⟩
    rw [updateReTxBuf_piece_old hearlier hinactive (fun i hi => hold i (by omega)),
      updateReTxBuf_piece_old hlater hinactive hold,
      updateReTxBuf_piece_old trace.piece_self hinactive hold]

/-- Two calls on overlapping pieces of a trace leave the buffer as one call on the whole trace,
when the second piece starts at least eight entries before the first new retransmission; two calls
on the same trace leave it as one. -/
theorem update_reTx_buf_incremental {earlier later : NgscopeReTxCa}
    (hearlier : earlier.Piece trace 0 m) (hlater : later.Piece trace s trace.size)
    (hm : m ≤ trace.size) (hs : ∀ i, FirstNewReTx q trace i → s ≤ i-8) :
    (updateReTxBuf (updateReTxBuf q earlier).1 later).1 = (updateReTxBuf q trace).1 ∧
      (updateReTxBuf (updateReTxBuf q trace).1 trace).1 = (updateReTxBuf q trace).1 :=
  ⟨updateReTxBuf_pieces htrace hsize hrecent hinactive hearlier hlater hm hs,
    updateReTxBuf_pieces htrace hsize hrecent hinactive trace.piece_self trace.piece_self le_rfl
      (fun _ _ => Nat.zero_le _)⟩

end

/-- The entries from `s` to before `m`, in arrays of their own. -/
def NgscopeReTxCa.slice (trace : NgscopeReTxCa) (s m : ℕ) : NgscopeReTxCa where
  reTx := fun k => trace.reTx (s+k)
  tti := fun k => trace.tti (s+k)
  tbs := fun k => trace.tbs (s+k)
  rxTUs := fun k => trace.rxTUs (s+k)
  size := m-s

theorem NgscopeReTxCa.piece_slice (trace : NgscopeReTxCa) (s m : ℕ) :
    (trace.slice s m).Piece trace s m :=
  ⟨rfl, fun _ _ => rfl, fun _ _ => rfl, fun _ _ => rfl, fun _ _ => rfl⟩

/-- Thirty TTIs with a burst of two retransmissions and a later one. -/
def burstTrace : NgscopeReTxCa where
  reTx := fun k => k = 10 ∨ k = 14 ∨ k = 25
  tti := fun k => UInt16.ofNat (100+k)
  tbs := fun k => UInt32.ofNat k
  rxTUs := fun k => UInt64.ofNat (1000*k)
  size := 30

/-- A buffer whose last retransmission was ten TTIs before the trace. -/
def waitingBuf : NgscopeReorderingBuf := { ngscopeReTxInitBuf with ready := true, bufLastTti := 90 }

theorem contiguous_burstTrace : burstTrace.Contiguous 100 := by
  unfold NgscopeReTxCa.Contiguous IsTtiOf
  decide

theorem recentLast_waitingBuf : RecentLast waitingBuf burstTrace := fun _ _ => by decide

theorem update_reTx_buf_incremental_burst :
    (updateReTxBuf (updateReTxBuf waitingBuf (burstTrace.slice 0 12)).1
        (burstTrace.slice 2 30)).1 = (updateReTxBuf waitingBuf burstTrace).1 ∧
      (updateReTxBuf (updateReTxBuf waitingBuf burstTrace).1 burstTrace).1 =
        (updateReTxBuf waitingBuf burstTrace).1 := by
  refine update_reTx_buf_incremental contiguous_burstTrace (by decide) recentLast_waitingBuf rfl
    (burstTrace.piece_slice 0 12) (burstTrace.piece_slice 2 30) (by decide) (fun i hi => ?_)
  have hreTx : i = 10 ∨ i = 14 ∨ i = 25 := by simpa [burstTrace] using hi.reTx
  omega

end CopaNgscope
