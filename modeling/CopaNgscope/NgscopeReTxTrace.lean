import CopaNgscope.NgscopeDciRing
import CopaNgscope.NgscopeReTx

/-! The loop of `update_reTx_buf` entry by entry, and contiguous traces: the circular
comparisons in terms of the times behind the TTIs, and the search for a TTI. -/
namespace CopaNgscope

/-! ### The loop -/

/-- The loop leaves the entry out as no later than the last retransmission. -/
def SkipsEntry (q : NgscopeReorderingBuf) (trace : NgscopeReTxCa) (i : ℕ) : Prop :=
  ttiASeB (wrapTti (trace.tti i)) (wrapTti q.bufLastTti) = true ∧ q.ready = true

/-- The buffer after an entry that is not left out. -/
def takeEntry (q : NgscopeReorderingBuf) (trace : NgscopeReTxCa) (i : ℕ) : NgscopeReorderingBuf :=
  if trace.reTx i then takeReTx q trace i else q

/-- The loop stops after the entry as too late for the burst. -/
def BurstOver (q : NgscopeReorderingBuf) (trace : NgscopeReTxCa) (i : ℕ) : Prop :=
  q.bufferActive = true ∧ ttiALB (wrapTti (trace.tti i)) (wrapTti (q.bufLastTti+8)) = true

theorem updateReTxLoop_skips {q : NgscopeReorderingBuf} {trace : NgscopeReTxCa} {i : ℕ}
    (h : SkipsEntry q trace i) (is : List ℕ) (found : Bool) :
    updateReTxLoop trace (i :: is) q found = updateReTxLoop trace is q found := by
  rw [updateReTxLoop]
  exact if_pos h

theorem updateReTxLoop_over {q : NgscopeReorderingBuf} {trace : NgscopeReTxCa} {i : ℕ}
    (h : ¬ SkipsEntry q trace i) (hover : BurstOver (takeEntry q trace i) trace i)
    (is : List ℕ) (found : Bool) :
    updateReTxLoop trace (i :: is) q found = (takeEntry q trace i,found || trace.reTx i) := by
  rw [updateReTxLoop]
  exact (if_neg h).trans (if_pos hover)

theorem updateReTxLoop_takes {q : NgscopeReorderingBuf} {trace : NgscopeReTxCa} {i : ℕ}
    (h : ¬ SkipsEntry q trace i) (hover : ¬ BurstOver (takeEntry q trace i) trace i)
    (is : List ℕ) (found : Bool) :
    updateReTxLoop trace (i :: is) q found =
      updateReTxLoop trace is (takeEntry q trace i) (found || trace.reTx i) := by
  rw [updateReTxLoop]
  exact (if_neg h).trans (if_neg hover)

/-- What taking a retransmission keeps, the loop over the trace keeps. -/
theorem updateReTxLoop_invariant {P : NgscopeReorderingBuf → Prop} {trace : NgscopeReTxCa}
    {is : List ℕ} (htake : ∀ i ∈ is, trace.reTx i = true → ∀ q, P q → P (takeReTx q trace i))
    {q : NgscopeReorderingBuf} (h : P q) (found : Bool) :
    P (updateReTxLoop trace is q found).1 := by
  induction is generalizing q found with
  | nil => exact h
  | cons i is ih =>
    have ih := @ih (fun j hj => htake j (List.mem_cons_of_mem i hj))
    have hnext : P (takeEntry q trace i) := by
      unfold takeEntry
      split_ifs with hreTx
      · exact htake i List.mem_cons_self hreTx q h
      · exact h
    by_cases hskip : SkipsEntry q trace i
    · rw [updateReTxLoop_skips hskip]
      exact ih h found
    · by_cases hover : BurstOver (takeEntry q trace i) trace i
      · rw [updateReTxLoop_over hskip hover]
        exact hnext
      · rw [updateReTxLoop_takes hskip hover]
        exact ih hnext _

/-- A retransmission found stays found. -/
theorem updateReTxLoop_found (trace : NgscopeReTxCa) (is : List ℕ) (q : NgscopeReorderingBuf) :
    (updateReTxLoop trace is q true).2 = true := by
  induction is generalizing q with
  | nil => rfl
  | cons i is ih =>
    by_cases hskip : SkipsEntry q trace i
    · rw [updateReTxLoop_skips hskip]
      exact ih q
    · by_cases hover : BurstOver (takeEntry q trace i) trace i
      · rw [updateReTxLoop_over hskip hover, Bool.true_or]
      · rw [updateReTxLoop_takes hskip hover, Bool.true_or]
        exact ih _

/-- Entry `i` leaves the buffer and the loop alone. -/
def QuietEntry (q : NgscopeReorderingBuf) (trace : NgscopeReTxCa) (i : ℕ) : Prop :=
  SkipsEntry q trace i ∨ (trace.reTx i = false ∧ ¬ BurstOver q trace i)

theorem takeEntry_of_not_reTx {trace : NgscopeReTxCa} {i : ℕ} (h : trace.reTx i = false)
    (q : NgscopeReorderingBuf) : takeEntry q trace i = q := by
  rw [takeEntry, if_neg (by simp [h])]

/-- While the buffer is inactive, only a retransmission that is not left out changes it. -/
theorem quietEntry_of_inactive {q : NgscopeReorderingBuf} {trace : NgscopeReTxCa} {i : ℕ}
    (hinactive : q.bufferActive = false) (h : trace.reTx i = true → SkipsEntry q trace i) :
    QuietEntry q trace i := by
  cases hreTx : trace.reTx i with
  | true => exact Or.inl (h hreTx)
  | false =>
    have hover : ¬ BurstOver q trace i := fun h => absurd (hinactive.symm.trans h.1) (by decide)
    exact Or.inr ⟨hreTx, hover⟩

/-- Quiet entries have no effect on the loop. -/
theorem updateReTxLoop_append {q : NgscopeReorderingBuf} {trace : NgscopeReTxCa} {is : List ℕ}
    (his : ∀ i ∈ is, QuietEntry q trace i) (js : List ℕ) (found : Bool) :
    updateReTxLoop trace (is ++ js) q found = updateReTxLoop trace js q found := by
  induction is with
  | nil => rfl
  | cons i is ih =>
    obtain ⟨hi, hrest⟩ := List.forall_mem_cons.mp his
    rw [List.cons_append]
    by_cases hskip : SkipsEntry q trace i
    · rw [updateReTxLoop_skips hskip]
      exact ih hrest
    · obtain ⟨hreTx, hover⟩ := hi.resolve_left hskip
      have hsame := takeEntry_of_not_reTx hreTx q
      rw [updateReTxLoop_takes hskip (by rwa [hsame]), hsame, hreTx, Bool.or_false]
      exact ih hrest

/-- Without a retransmission that is not left out nothing happens. -/
theorem updateReTxLoop_old {q : NgscopeReorderingBuf} {trace : NgscopeReTxCa} {is : List ℕ}
    (his : ∀ i ∈ is, trace.reTx i = true → SkipsEntry q trace i) (found : Bool) :
    updateReTxLoop trace is q found = (q,found) := by
  induction is with
  | nil => rfl
  | cons i is ih =>
    obtain ⟨hi, hrest⟩ := List.forall_mem_cons.mp his
    by_cases hskip : SkipsEntry q trace i
    · rw [updateReTxLoop_skips hskip]
      exact ih hrest
    · have hreTx : trace.reTx i = false := by simpa using fun h => hskip (hi h)
      have hsame := takeEntry_of_not_reTx hreTx q
      by_cases hover : BurstOver (takeEntry q trace i) trace i
      · rw [updateReTxLoop_over hskip hover, hsame, hreTx, Bool.or_false]
      · rw [updateReTxLoop_takes hskip hover, hsame, hreTx, Bool.or_false]
        exact ih hrest

theorem updateReTxBuf_of_old {q : NgscopeReorderingBuf} {trace : NgscopeReTxCa}
    (hold : ∀ i < trace.size, trace.reTx i = true → SkipsEntry q trace i) :
    updateReTxBuf q trace = (q,false) :=
  updateReTxLoop_old (fun i hi => hold i (List.mem_range.mp hi)) false

theorem range_split {k n : ℕ} (hk : k < n) :
    List.range n = List.range k ++ (k :: List.range' (k+1) (n-(k+1))) := by
  calc List.range n = List.range' 0 (k+(n-k)) := by
        rw [List.range_eq_range', Nat.add_sub_cancel' hk.le]
    _ = List.range k ++ List.range' (0+k) (n-k) := by
        rw [← List.range'_append_1, List.range_eq_range']
    _ = List.range k ++ (k :: List.range' (k+1) (n-(k+1))) := by
        rw [Nat.zero_add, show n-k = n-(k+1)+1 by omega, List.range'_succ]

/-! ### Comparing TTIs -/

theorem unwrapTtiArray_pair {a b : UInt16} (ha : a.toNat < 10240) (hb : b.toNat < 10240) :
    unwrapTtiArray [a,b] =
      [if a.toNat+5120 < b.toNat then a+10240 else a,
        if b.toNat+5120 < a.toNat then b+10240 else b] := by
  have hmax : (maxInArrayUint16V [a,b]).toNat = max a.toNat b.toNat := by
    obtain ⟨hmem, hle⟩ := maxInArrayUint16V_spec (show [a,b] ≠ [] by simp)
    have hlea := hle a (by simp)
    have hleb := hle b (by simp)
    rcases List.mem_pair.mp hmem with h | h
    · rw [h] at hlea hleb ⊢
      omega
    · rw [h] at hlea hleb ⊢
      omega
  -- an element is lifted when the larger one is more than half a cycle ahead of it
  have hlift : ∀ c : UInt16, c.toNat < 10240 →
      ((((maxInArrayUint16V [a,b]).toNat:ℤ)-c.toNat).natAbs >
        (((maxInArrayUint16V [a,b]).toNat:ℤ)-(c.toNat+10240)).natAbs ↔
      c.toNat+5120 < max a.toNat b.toNat) := by
    intro c hc
    rw [hmax]
    omega
  unfold unwrapTtiArray
  rw [if_neg (by simp)]
  simp only [List.map_cons, List.map_nil, hlift a ha, hlift b hb]
  congr 1
  · congr 1
    apply propext
    omega
  · congr 2
    apply propext
    omega

/-- Half a cycle apart the comparison falls back on the numbers. -/
theorem ttiASeB_iff {a b : UInt16} (ha : a.toNat < 10240) (hb : b.toNat < 10240) :
    ttiASeB a b = true ↔
      (a.toNat ≤ b.toNat ∧ b.toNat ≤ a.toNat+5120) ∨ b.toNat+5120 < a.toNat := by
  have hadd : ∀ c : UInt16, c.toNat < 10240 → (c+10240).toNat = c.toNat+10240 := by
    intro c hc
    rw [UInt16.toNat_add, show (10240:UInt16).toNat = 10240 from rfl]
    omega
  unfold ttiASeB
  rw [unwrapTtiArray_pair ha hb]
  simp only [decide_eq_true_eq, UInt16.le_iff_toNat_le]
  split_ifs
  · omega
  · rw [hadd a ha]
    omega
  · rw [hadd b hb]
    omega
  · omega

theorem ttiALB_eq {a b : UInt16} (ha : a.toNat < 10240) (hb : b.toNat < 10240) :
    ttiALB a b = !ttiASeB a b := by
  unfold ttiALB ttiASeB
  rw [unwrapTtiArray_pair ha hb]
  simp only [← decide_not, UInt16.not_le]

/-- The TTI of a time is its remainder modulo the cycle. -/
def IsTtiOf (t : UInt16) (time : ℕ) : Prop := t.toNat = time%maxTti

theorem IsTtiOf.lt {t : UInt16} {time : ℕ} (h : IsTtiOf t time) : t.toNat < 10240 := by
  rw [h, maxTti]
  exact Nat.mod_lt _ (by omega)

@[simp] theorem IsTtiOf.wrapTti_eq {t : UInt16} {time : ℕ} (h : IsTtiOf t time) :
    wrapTti t = t := by
  apply UInt16.toNat.inj
  rw [toNat_wrapTti, Nat.mod_eq_of_lt h.lt]

/-- Less than half a cycle apart, TTIs compare as their times. -/
theorem ttiASeB_iff_le {a b : UInt16} {x y : ℕ} (ha : IsTtiOf a x) (hb : IsTtiOf b y)
    (hxy : x < y+5120) (hyx : y < x+5120) : ttiASeB a b = true ↔ x ≤ y := by
  rw [ttiASeB_iff ha.lt hb.lt, ha, hb, maxTti]
  omega

theorem ttiALB_iff_lt {a b : UInt16} {x y : ℕ} (ha : IsTtiOf a x) (hb : IsTtiOf b y)
    (hxy : x < y+5120) (hyx : y < x+5120) : ttiALB a b = true ↔ y < x := by
  rw [ttiALB_eq ha.lt hb.lt, Bool.not_eq_true', ← Bool.not_eq_true,
    ttiASeB_iff_le ha hb hxy hyx, not_le]

/-- A TTI some time after another counts as later for the first half of each cycle. -/
theorem not_ttiASeB_iff {a b : UInt16} {x e : ℕ} (ha : IsTtiOf a (x+e)) (hb : IsTtiOf b x) :
    ¬ ttiASeB a b = true ↔
      (0 < e%maxTti ∧ e%maxTti < 5120) ∨ (e%maxTti = 5120 ∧ b.toNat < a.toNat) := by
  rw [ttiASeB_iff ha.lt hb.lt, ha, hb, maxTti]
  omega

theorem isTtiOf_wrapTti_add {t : UInt16} {x k : ℕ} (h : IsTtiOf t x) (hk : k < 10240) :
    IsTtiOf (wrapTti (t+UInt16.ofNat k)) (x+k) := by
  have hlt := h.lt
  unfold IsTtiOf at h ⊢
  rw [toNat_wrapTti, UInt16.toNat_add, UInt16.toNat_ofNat_of_lt' (show k < 65536 by omega), h,
    maxTti]
  rw [h, maxTti] at hlt
  omega

/-! ### Contiguous traces -/

/-- The entries follow each other TTI by TTI from the time `start` on. -/
def NgscopeReTxCa.Contiguous (trace : NgscopeReTxCa) (start : ℕ) : Prop :=
  ∀ k < trace.size, IsTtiOf (trace.tti k) (start+k)

/-- In a trace of at most a cycle the search finds the only entry with a TTI. -/
theorem NgscopeReTxCa.Contiguous.find_tti {trace : NgscopeReTxCa} {start p : ℕ}
    (h : trace.Contiguous start) (hsize : trace.size ≤ maxTti) (hp : p < trace.size) :
    findElementInArrayUint16 (firstEntries trace.tti trace.size) (trace.tti p) = p := by
  have hlen : p < (firstEntries trace.tti trace.size).length := by simpa using hp
  have hget : (firstEntries trace.tti trace.size)[p] = trace.tti p := getElem_firstEntries _ _ _ _
  -- within one cycle no TTI comes twice
  have hnodup : (firstEntries trace.tti trace.size).Nodup := by
    apply List.Nodup.map_on _ List.nodup_range
    intro i hi j hj hij
    have hi' := h i (List.mem_range.mp hi)
    have hj' := h j (List.mem_range.mp hj)
    rw [hij, IsTtiOf, hj'] at hi'
    have hi := List.mem_range.mp hi
    have hj := List.mem_range.mp hj
    unfold maxTti at hi' hsize
    omega
  unfold findElementInArrayUint16
  rw [← hget, if_pos (List.getElem_mem hlen), hnodup.idxOf_getElem p hlen]

end CopaNgscope
