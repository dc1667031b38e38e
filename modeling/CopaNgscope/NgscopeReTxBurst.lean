import Mathlib.Algebra.BigOperators.Intervals
import Mathlib.Algebra.Order.BigOperators.Group.Finset
import CopaNgscope.NgscopeReTxIncremental

/-! A burst in closed form: the chain of retransmissions at most eight TTIs apart, and the buffer
that `update_reTx_buf` leaves after it. -/
namespace CopaNgscope
open scoped BigOperators

/-! ### Chains of retransmissions -/

/-- Entry `b` is the next retransmission after `a`, at most eight entries later. -/
structure NextInBurst (trace : NgscopeReTxCa) (a b : ℕ) : Prop where
  lt : a < b
  le : b ≤ a+8
  lt_size : b < trace.size
  reTx : trace.reTx b = true
  between : ∀ k, a < k → k < b → trace.reTx k = false

/-- No retransmission follows `a` within eight entries. -/
def BurstEnds (trace : NgscopeReTxCa) (a : ℕ) : Prop :=
  ∀ k, a < k → k ≤ a+8 → k < trace.size → trace.reTx k = false

/-- The maximal chain from the retransmission `a` on: those that follow it, and the last one. -/
inductive BurstChain (trace : NgscopeReTxCa) : ℕ → List ℕ → ℕ → Prop
  | ends {a : ℕ} (h : BurstEnds trace a) : BurstChain trace a [] a
  | next {a b last : ℕ} {bs : List ℕ} (h : NextInBurst trace a b)
      (rest : BurstChain trace b bs last) : BurstChain trace a (b :: bs) last

theorem BurstEnds.or_next (trace : NgscopeReTxCa) (a : ℕ) :
    BurstEnds trace a ∨ ∃ b, NextInBurst trace a b := by
  classical
  by_cases hnext : ∃ b, a < b ∧ b ≤ a+8 ∧ b < trace.size ∧ trace.reTx b = true
  · obtain ⟨hlt, hle, hsize, hreTx⟩ := Nat.find_spec hnext
    refine Or.inr ⟨Nat.find hnext, hlt, hle, hsize, hreTx, ?_⟩
    intro k hak hk
    have hmin := Nat.find_min hnext hk
    by_contra hset
    exact hmin ⟨hak, by omega, by omega, by simpa using hset⟩
  · refine Or.inl ?_
    intro k hak hle hsize
    by_contra hset
    exact hnext ⟨k, hak, hle, hsize, by simpa using hset⟩

theorem exists_burstChain (trace : NgscopeReTxCa) (a : ℕ) :
    ∃ bs last, BurstChain trace a bs last := by
  -- by induction on the entries that are left
  induction hn : trace.size-a using Nat.strong_induction_on generalizing a with
  | _ n ih =>
    rcases BurstEnds.or_next trace a with hends | hnext
    · exact ⟨[], a, .ends hends⟩
    · obtain ⟨b, hb⟩ := hnext
      have hlt := hb.lt
      have hsize := hb.lt_size
      obtain ⟨bs, last, hrest⟩ := ih (trace.size-b) (by omega) b rfl
      exact ⟨b :: bs, last, .next hb hrest⟩

section
variable {trace : NgscopeReTxCa} {a last : ℕ} {bs : List ℕ}

theorem BurstChain.le_last (h : BurstChain trace a bs last) : a ≤ last := by
  induction h with
  | ends _ => exact le_refl _
  | next hb _ ih => exact hb.lt.le.trans ih

theorem BurstChain.lt_of_mem (h : BurstChain trace a bs last) : ∀ b ∈ bs, a < b := by
  induction h with
  | ends _ =>
    intro b hb
    cases hb
  | next hnext _ ih =>
    intro b hb
    rcases List.mem_cons.mp hb with rfl | hb
    · exact hnext.lt
    · exact hnext.lt.trans (ih b hb)

theorem BurstChain.last_reTx (h : BurstChain trace a bs last) (hreTx : trace.reTx a = true)
    (hsize : a < trace.size) : trace.reTx last = true ∧ last < trace.size := by
  induction h with
  | ends _ => exact ⟨hreTx, hsize⟩
  | next hnext _ ih => exact ih hnext.reTx hnext.lt_size

end

/-! ### Sums of bits -/

theorem before8_eq_range' (i : ℕ) : before8 i = List.range' (i-8) (i-(i-8)) := by
  rw [before8]
  split_ifs with h
  · rw [List.range_eq_range', show i-8 = 0 by omega, Nat.sub_zero]
  · rw [show i-(i-8) = 8 by omega, List.range'_eq_map_range]

theorem sum_Ico_eq (f : ℕ → ℕ) (a b : ℕ) :
    ∑ k ∈ Finset.Ico a b, f k = ((List.range' a (b-a)).map f).sum := rfl

theorem sum_Ioo_eq (f : ℕ → ℕ) (a b : ℕ) :
    ∑ k ∈ Finset.Ioo a b, f k = ((List.range' (a+1) (b-a-1)).map f).sum := rfl

theorem toNat_sumTbsNewBurst {trace : NgscopeReTxCa} {i : ℕ} (hi : i < trace.size) :
    (ngscopeReTxSumTbsNewBurst trace i).toNat =
      (∑ k ∈ Finset.Ico (i-8) i, (trace.tbs k).toNat)%2^32 := by
  rw [ngscopeReTxSumTbsNewBurst, if_neg (by omega), toNat_foldl_add32, List.map_map,
    before8_eq_range', sum_Ico_eq, UInt32.toNat_zero, Nat.zero_add]
  rfl

theorem indexRange_between (a b : ℕ) :
    (indexRange ((a:ℤ)+1) ((b:ℤ)-1)).map Int.toNat = List.range' (a+1) (b-a-1) := by
  rw [indexRange, show ((b:ℤ)-1-((a:ℤ)+1)+1).toNat = b-a-1 by omega, List.range'_eq_map_range,
    List.map_map]
  apply List.map_congr_left
  intro k _
  rw [Function.comp_apply]
  omega

theorem toNat_sumTbsInBurst {trace : NgscopeReTxCa} {a b : ℕ} (hab : a < b)
    (hb : b < trace.size) : (ngscopeReTxSumTbsInBurst trace a b).toNat =
      (∑ k ∈ Finset.Ioo a b, (trace.tbs k).toNat)%2^32 := by
  have hlist : (indexRange ((a:ℤ)+1) ((b:ℤ)-1)).map (fun i => (trace.tbs i.toNat).toNat) =
      (List.range' (a+1) (b-a-1)).map (fun k => (trace.tbs k).toNat) := by
    rw [← indexRange_between, List.map_map]
    rfl
  rw [ngscopeReTxSumTbsInBurst, if_neg (by omega), toNat_foldl_add32, List.map_map, sum_Ioo_eq,
    UInt32.toNat_zero, Nat.zero_add, ← hlist]
  rfl

/-- The bits that a chain adds to the buffer, gap by gap. -/
def chainBits (trace : NgscopeReTxCa) : ℕ → List ℕ → ℕ
  | _, [] => 0
  | a, b :: bs => (ngscopeReTxSumTbsInBurst trace a b).toNat+11520*4+chainBits trace b bs

/-- The bits strictly between the first entry of a chain and its last one, outside the chain. -/
def gapBits (trace : NgscopeReTxCa) (a last : ℕ) (bs : List ℕ) : ℕ :=
  ∑ k ∈ (Finset.Ioo a last).filter (· ∉ bs), (trace.tbs k).toNat

section
variable {trace : NgscopeReTxCa} {a b last : ℕ} {bs : List ℕ}

/-- The gap up to the next member, and those after it. -/
theorem gapBits_next (hnext : NextInBurst trace a b) (hrest : BurstChain trace b bs last) :
    gapBits trace a last (b :: bs) =
      ∑ k ∈ Finset.Ioo a b, (trace.tbs k).toNat+gapBits trace b last bs := by
  have hab := hnext.lt
  have hlast := hrest.le_last
  have hmem := hrest.lt_of_mem
  have hunion : (Finset.Ioo a last).filter (· ∉ b :: bs) =
      Finset.Ioo a b ∪ (Finset.Ioo b last).filter (· ∉ bs) := by
    ext k
    simp only [Finset.mem_filter, Finset.mem_union, Finset.mem_Ioo, List.mem_cons, not_or]
    constructor
    · intro hk
      obtain ⟨⟨hak, hkl⟩, hkb, hkbs⟩ := hk
      rcases Nat.lt_or_ge k b with hlt | hge
      · exact Or.inl ⟨hak, hlt⟩
      · exact Or.inr ⟨⟨by omega, hkl⟩, hkbs⟩
    · intro hk
      rcases hk with ⟨hak, hkb⟩ | ⟨⟨hbk, hkl⟩, hkbs⟩
      · refine ⟨⟨hak, by omega⟩, by omega, ?_⟩
        intro hk
        have := hmem k hk
        omega
      · exact ⟨⟨by omega, hkl⟩, by omega, hkbs⟩
  have hdisj : Disjoint (Finset.Ioo a b) ((Finset.Ioo b last).filter (· ∉ bs)) := by
    rw [Finset.disjoint_left]
    intro k hk hk'
    simp only [Finset.mem_filter, Finset.mem_Ioo] at hk hk'
    omega
  rw [gapBits, hunion, Finset.sum_union hdisj, gapBits]

/-- When the bits of the gaps fit, they are added without wrapping. -/
theorem chainBits_eq (h : BurstChain trace a bs last) (hfit : gapBits trace a last bs < 2^32) :
    chainBits trace a bs = gapBits trace a last bs+bs.length*46080 := by
  induction h with
  | ends _ => simp [chainBits, gapBits]
  | next hnext hrest ih =>
    rw [gapBits_next hnext hrest] at hfit ⊢
    rw [chainBits, ih (by omega), toNat_sumTbsInBurst hnext.lt hnext.lt_size,
      Nat.mod_eq_of_lt (by omega), List.length_cons]
    omega

end

/-! ### The loop along a chain -/

/-- The buffer is active and has just taken the retransmission `l`. -/
structure TookReTx (q : NgscopeReorderingBuf) (trace : NgscopeReTxCa) (l : ℕ) : Prop
    extends BurstAt q trace l where
  reTx : trace.reTx l = true
  lastT : q.bufLastT = trace.rxTUs l

/-- The buffer after a chain with the members `bs` behind the one it has taken. -/
def afterChain (q : NgscopeReorderingBuf) (trace : NgscopeReTxCa) (a last : ℕ) (bs : List ℕ) :
    NgscopeReorderingBuf :=
  { q with
    bufSize := q.bufSize+chainBits trace a bs
    bufLastTti := trace.tti last
    bufLastT := trace.rxTUs last }

theorem isNewBurst_eq_false {trace : NgscopeReTxCa} {i k : ℕ} (hi : i < trace.size)
    (hle : i-8 ≤ k) (hlt : k < i) (hreTx : trace.reTx k = true) :
    ngscopeReTxIsNewBurst trace i = false := by
  rw [ngscopeReTxIsNewBurst, if_neg (by omega), List.all_eq_false]
  exact ⟨k, mem_before8.mpr ⟨hle,hlt⟩, by simpa using hreTx⟩

theorem isNewBurst_eq_true {trace : NgscopeReTxCa} {i : ℕ} (hi : i < trace.size)
    (h : ∀ k, i-8 ≤ k → k < i → trace.reTx k = false) : ngscopeReTxIsNewBurst trace i = true := by
  rw [ngscopeReTxIsNewBurst, if_neg (by omega), List.all_eq_true]
  intro k hk
  obtain ⟨hle, hlt⟩ := mem_before8.mp hk
  rw [h k hle hlt]
  rfl

section
variable {q : NgscopeReorderingBuf} {trace : NgscopeReTxCa} {start a b last : ℕ} {bs : List ℕ}

/-- The next member of the chain is taken as part of the burst. -/
theorem TookReTx.takeEntry_next (h : TookReTx q trace a) (hnext : NextInBurst trace a b) :
    takeEntry q trace b = setReTxTtiInBurst q trace b := by
  have hold : ngscopeReTxIsNewBurst trace b = false :=
    isNewBurst_eq_false hnext.lt_size (by have := hnext.le; omega) hnext.lt h.reTx
  rw [takeEntry, if_pos hnext.reTx, takeReTx, if_pos h.active, if_neg (by simp [hold])]

/-- A retransmission nine entries after the last one is not taken. -/
theorem TookReTx.takeEntry_late (h : TookReTx q trace a) (hends : BurstEnds trace a)
    (hsize : a+9 < trace.size) : takeEntry q trace (a+9) = q := by
  have hnew : ngscopeReTxIsNewBurst trace (a+9) = true := by
    apply isNewBurst_eq_true hsize
    intro k hle hlt
    exact hends k (by omega) (by omega) (by omega)
  rw [takeEntry, takeReTx, if_pos h.active, if_pos hnew, ite_self]

theorem TookReTx.next (h : TookReTx q trace a) (hnext : NextInBurst trace a b) :
    TookReTx (setReTxTtiInBurst q trace b) trace b :=
  ⟨⟨rfl, h.ready, hnext.lt_size, rfl⟩, hnext.reTx, rfl⟩

theorem afterChain_nil (h : TookReTx q trace a) : afterChain q trace a a [] = q := by
  have hlast := h.last
  have hlastT := h.lastT
  rw [afterChain, ← hlast, ← hlastT, chainBits, Nat.cast_zero, add_zero]

/-- The entries up to the next member of a chain, or the eight behind its end. -/
theorem range'_split {a b n : ℕ} (hab : a < b) (hb : b < n) : List.range' (a+1) (n-(a+1)) =
    List.range' (a+1) (b-(a+1)) ++ b :: List.range' (b+1) (n-(b+1)) := by
  have hrest : b :: List.range' (b+1) (n-(b+1)) = List.range' b (n-b) := by
    rw [← List.range'_succ]
    congr 1
    omega
  rw [hrest, show n-(a+1) = b-(a+1)+(n-b) by omega, ← List.range'_append_1]
  congr 2
  omega

variable (htrace : trace.Contiguous start) (hsize : trace.size < 5120)
include htrace hsize

theorem afterChain_next (h : TookReTx q trace a) :
    afterChain (setReTxTtiInBurst q trace b) trace b last bs =
      afterChain q trace a last (b :: bs) := by
  have hfind : findElementInArrayUint16 (firstEntries trace.tti trace.size) q.bufLastTti = a := by
    rw [h.last]
    exact htrace.find_tti (by unfold maxTti; omega) h.lt_size
  have hsize : q.bufSize+(((ngscopeReTxSumTbsInBurst trace a b).toNat:ℤ)+11520*4)+
      chainBits trace b bs = q.bufSize+chainBits trace a (b :: bs) := by
    rw [chainBits]
    push_cast
    ring
  simp only [afterChain, setReTxTtiInBurst, hfind, hsize, ← h.active]

/-- The entries within eight of the last one do not end the loop. -/
theorem TookReTx.not_burstOver (h : TookReTx q trace a) {k : ℕ} (hak : a < k) (hle : k ≤ a+8)
    (hk : k < trace.size) : ¬ BurstOver q trace k := by
  rw [h.burstOver_iff htrace hsize hak.le hk]
  omega

/-- Behind the end of a chain the loop passes over up to eight entries. -/
theorem TookReTx.quiet_behind (h : TookReTx q trace a) (hends : BurstEnds trace a) {n : ℕ}
    (hn : n ≤ 8) (hlt : a+n < trace.size) :
    ∀ k ∈ List.range' (a+1) n, trace.reTx k = false ∧ ¬ BurstOver q trace k := by
  intro k hk
  have hk := List.mem_range'_1.mp hk
  exact ⟨hends k (by omega) (by omega) (by omega),
    h.not_burstOver htrace hsize (by omega) (by omega) (by omega)⟩

/-- It passes over the entries between two members of a chain. -/
theorem TookReTx.quiet_between (h : TookReTx q trace a) (hnext : NextInBurst trace a b) :
    ∀ k ∈ List.range' (a+1) (b-(a+1)), trace.reTx k = false ∧ ¬ BurstOver q trace k := by
  intro k hk
  have hk := List.mem_range'_1.mp hk
  have hle := hnext.le
  have hb := hnext.lt_size
  exact ⟨hnext.between k (by omega) (by omega),
    h.not_burstOver htrace hsize (by omega) (by omega) (by omega)⟩

/-- The entry nine behind the end of a chain is looked at and ends the loop. -/
theorem TookReTx.stops_late (h : TookReTx q trace a) (hends : BurstEnds trace a)
    (hlate : a+9 < trace.size) :
    ¬ SkipsEntry q trace (a+9) ∧ BurstOver (takeEntry q trace (a+9)) trace (a+9) := by
  rw [h.skipsEntry_iff htrace hsize hlate, h.takeEntry_late hends hlate,
    h.burstOver_iff htrace hsize (by omega) hlate]
  omega

/-- The next member of a chain is looked at and does not end the loop. -/
theorem TookReTx.goes_on (h : TookReTx q trace a) (hnext : NextInBurst trace a b) :
    ¬ SkipsEntry q trace b ∧ ¬ BurstOver (takeEntry q trace b) trace b := by
  have hlt := hnext.lt
  have hb := hnext.lt_size
  rw [h.skipsEntry_iff htrace hsize hb, h.takeEntry_next hnext,
    (h.next hnext).burstOver_iff htrace hsize (le_refl _) hb]
  omega

/-- The loop behind the retransmission taken goes along its chain and no further. -/
theorem scanReTx_chain (h : TookReTx q trace a) (hchain : BurstChain trace a bs last) :
    scanReTx trace (List.range' (a+1) (trace.size-(a+1))) q = afterChain q trace a last bs := by
  have hpass {q : NgscopeReorderingBuf} {k : ℕ}
      (hk : trace.reTx k = false ∧ ¬ BurstOver q trace k) :
      SkipsEntry q trace k ∨ (takeEntry q trace k = q ∧ ¬ BurstOver q trace k) :=
    Or.inr ⟨takeEntry_of_not_reTx hk.1 q, hk.2⟩
  induction hchain generalizing q with
  | @ends a hends =>
    rw [afterChain_nil h]
    have hlt := h.lt_size
    rcases Nat.lt_or_ge (a+9) trace.size with hlate | hshort
    · -- the first entry that is too late ends the loop
      obtain ⟨hskip, hover⟩ := h.stops_late htrace hsize hends hlate
      rw [range'_split (show a < a+9 by omega) hlate, scanReTx_append, scanReTx_over hskip hover,
        h.takeEntry_late hends hlate]
      intro k hk
      exact hpass (h.quiet_behind htrace hsize hends (by omega) (by omega) k hk)
    · rw [← List.append_nil (List.range' (a+1) (trace.size-(a+1))), scanReTx_append]
      · rfl
      · intro k hk
        exact hpass (h.quiet_behind htrace hsize hends (by omega) (by omega) k hk)
  | @next a b last bs hnext hrest ih =>
    obtain ⟨hskip, hover⟩ := h.goes_on htrace hsize hnext
    rw [range'_split hnext.lt hnext.lt_size, scanReTx_append, scanReTx_takes hskip hover,
      h.takeEntry_next hnext, ih (h.next hnext), afterChain_next htrace hsize h]
    intro k hk
    exact hpass (h.quiet_between htrace hsize hnext k hk)

end

/-! ### The update of an inactive buffer -/

theorem tookReTx_takeReTx {q : NgscopeReorderingBuf} (hinactive : q.bufferActive = false)
    {trace : NgscopeReTxCa} {i : ℕ} (hi : i < trace.size) (hreTx : trace.reTx i = true) :
    TookReTx (takeReTx q trace i) trace i := by
  have hburst := burstAt_takeReTx hinactive hi
  refine ⟨hburst, hreTx, ?_⟩
  rw [takeReTx, if_neg (by simp [hinactive])]
  split_ifs
  · rfl
  · rfl

section
variable {q : NgscopeReorderingBuf} {trace : NgscopeReTxCa} {tail : ℕ}
  (htrace : trace.Contiguous tail) (hsize : trace.size < 5120) (hrecent : RecentLast q trace)
include htrace hsize hrecent

/-- Without a new retransmission all are left out. -/
theorem skipsEntry_of_none (hnone : ¬ ∃ i, FirstNewReTx q trace i) :
    ∀ i < trace.size, trace.reTx i = true → SkipsEntry q trace i := by
  intro i hi hreTx
  rw [skipsEntry_iff_not_newer htrace hsize hrecent hi]
  intro hnewer
  exact hnone (exists_firstNewReTx ⟨i, hi, hreTx, hnewer⟩)

theorem FirstNewReTx.not_skipsEntry {i : ℕ} (hi : FirstNewReTx q trace i) :
    ¬ SkipsEntry q trace i := by
  rw [skipsEntry_iff_not_newer htrace hsize hrecent hi.lt_size, not_not]
  exact hi.newer

/-- The loop goes on behind the first new retransmission once it is the last of the burst. -/
theorem FirstNewReTx.takes {i : ℕ} (hi : FirstNewReTx q trace i)
    (htook : TookReTx (takeReTx q trace i) trace i) :
    takeEntry q trace i = takeReTx q trace i ∧ ¬ SkipsEntry q trace i ∧
      ¬ BurstOver (takeEntry q trace i) trace i := by
  have htake : takeEntry q trace i = takeReTx q trace i := if_pos hi.reTx
  refine ⟨htake, hi.not_skipsEntry htrace hsize hrecent, ?_⟩
  rw [htake, htook.burstOver_iff htrace hsize (le_refl _) hi.lt_size]
  omega

variable (hinactive : q.bufferActive = false)
include hinactive

/-- The first new retransmission is taken, and the chain from it. -/
theorem updateReTxBuf_first {i : ℕ} (hi : FirstNewReTx q trace i) {bs : List ℕ} {last : ℕ}
    (hchain : BurstChain trace i bs last) :
    updateReTxBuf q trace = (afterChain (takeReTx q trace i) trace i last bs,true) := by
  have htook := tookReTx_takeReTx hinactive hi.lt_size hi.reTx
  obtain ⟨htake, hskip, hover⟩ := hi.takes htrace hsize hrecent htook
  rw [updateReTxBuf, range_split hi.lt_size, updateReTxLoop_append,
    updateReTxLoop_takes hskip hover, htake, hi.reTx, Bool.false_or]
  · apply Prod.ext
    · rw [updateReTxLoop_fst]
      exact scanReTx_chain htrace hsize htook hchain
    · exact updateReTxLoop_found trace _ _
  · intro j hj
    have hj := List.mem_range.mp hj
    apply quietEntry_of_inactive hinactive
    intro hreTx
    rw [skipsEntry_iff_not_newer htrace hsize hrecent (hj.trans hi.lt_size)]
    exact hi.old j hj hreTx

/-- An update of an inactive buffer in closed form: without a new retransmission nothing happens;
otherwise, where the first new one starts a burst, the buffer spans its chain. -/
theorem update_reTx_buf_burst :
    ((¬ ∃ i, FirstNewReTx q trace i) → updateReTxBuf q trace = (q,false)) ∧
    ∀ i, FirstNewReTx q trace i →
      (q.ready = false ∨ ∀ k, i-8 ≤ k → k < i → trace.reTx k = false) →
      ∃ bs last, BurstChain trace i bs last ∧
        (∑ k ∈ Finset.Ico (i-8) i, (trace.tbs k).toNat < 2^32 →
          ∑ k ∈ (Finset.Ioo i last).filter (· ∉ bs), (trace.tbs k).toNat < 2^32 →
          updateReTxBuf q trace = ({ q with
            bufferActive := true
            ready := true
            bufStartTti := trace.tti i
            bufLastTti := trace.tti last
            bufStartT := trace.rxTUs i
            bufLastT := trace.rxTUs last
            bufSize := (∑ k ∈ Finset.Ico (i-8) i, (trace.tbs k).toNat : ℕ)+
              (∑ k ∈ (Finset.Ioo i last).filter (· ∉ bs), (trace.tbs k).toNat : ℕ)+
              (bs.length+1)*46080 }, true)) := by
  refine ⟨fun hnone => updateReTxBuf_of_old (skipsEntry_of_none htrace hsize hrecent hnone), ?_⟩
  intro i hi hstart
  obtain ⟨bs, last, hchain⟩ := exists_burstChain trace i
  refine ⟨bs, last, hchain, ?_⟩
  intro hbefore hgaps
  have hnew : ngscopeReTxIsNewBurst trace i = true ∨ q.ready = false := by
    rcases hstart with hready | hquiet
    · exact Or.inr hready
    · exact Or.inl (isNewBurst_eq_true hi.lt_size hquiet)
  have htake : takeReTx q trace i = setReTxStartTti q trace i := by
    rw [takeReTx, if_neg (by simp [hinactive]), if_pos hnew]
  have hbits := chainBits_eq hchain hgaps
  rw [gapBits] at hbits
  have hbufSize : ((ngscopeReTxSumTbsNewBurst trace i).toNat:ℤ)+11520*4+chainBits trace i bs =
      (∑ k ∈ Finset.Ico (i-8) i, (trace.tbs k).toNat : ℕ)+
        (∑ k ∈ (Finset.Ioo i last).filter (· ∉ bs), (trace.tbs k).toNat : ℕ)+
        (bs.length+1)*46080 := by
    rw [toNat_sumTbsNewBurst hi.lt_size, Nat.mod_eq_of_lt hbefore, hbits]
    push_cast
    ring
  rw [updateReTxBuf_first htrace hsize hrecent hinactive hi hchain, htake]
  simp only [afterChain, setReTxStartTti, hbufSize]

end

theorem firstNewReTx_burstTrace : FirstNewReTx waitingBuf burstTrace 10 := by
  refine ⟨by decide, by decide, fun _ => by decide, ?_⟩
  intro j hj hreTx
  have hcases : j = 10 ∨ j = 14 ∨ j = 25 := by simpa [burstTrace] using hreTx
  omega

theorem update_reTx_buf_burst_burstTrace :
    ∃ bs last, BurstChain burstTrace 10 bs last ∧
      updateReTxBuf waitingBuf burstTrace = ({ waitingBuf with
        bufferActive := true
        ready := true
        bufStartTti := burstTrace.tti 10
        bufLastTti := burstTrace.tti last
        bufStartT := burstTrace.rxTUs 10
        bufLastT := burstTrace.rxTUs last
        bufSize := (∑ k ∈ Finset.Ico (10-8) 10, (burstTrace.tbs k).toNat : ℕ)+
          (∑ k ∈ (Finset.Ioo 10 last).filter (· ∉ bs), (burstTrace.tbs k).toNat : ℕ)+
          (bs.length+1)*46080 }, true) := by
  obtain ⟨bs, last, hchain, hupdate⟩ := (update_reTx_buf_burst contiguous_burstTrace (by decide)
    recentLast_waitingBuf rfl).2 10 firstNewReTx_burstTrace (Or.inr (by decide))
  refine ⟨bs, last, hchain, hupdate (by decide) ?_⟩
  have hlast : last < 30 := (hchain.last_reTx (by decide) (by decide)).2
  calc ∑ k ∈ (Finset.Ioo 10 last).filter (· ∉ bs), (burstTrace.tbs k).toNat
      ≤ ∑ k ∈ Finset.range 30, (burstTrace.tbs k).toNat := by
        refine Finset.sum_le_sum_of_subset (fun k hk => ?_)
        have hbelow := (Finset.mem_Ioo.mp (Finset.mem_filter.mp hk).1).2
        exact Finset.mem_range.mpr (hbelow.trans hlast)
    _ < 2^32 := by decide

/-- The burst of entries 10 and 14: the bits of entries 2 to 9 and 11 to 13, and two blocks. -/
example : updateReTxBuf waitingBuf burstTrace =
    ({ waitingBuf with
      bufferActive := true
      bufSize := 44+36+2*46080
      bufStartTti := 110
      bufLastTti := 114
      bufStartT := 10000
      bufLastT := 14000 }, true) := by decide +kernel

end CopaNgscope
