import Mathlib.Algebra.Order.Field.Rat
import Mathlib.Tactic.Linarith
import CopaNgscope.CellPartition
import CopaNgscope.RemyCC

/-! What a sender of `RemyCC` remembers, as `memory-default.hh` and `memory-default.cc` compute it,
and the ranges of `memoryrange.hh`. Doubles are exact rationals. -/
namespace CopaNgscope
open CellPartition

structure Memory where
  recSendEwma : ℚ
  recRecEwma : ℚ
  rttRatio : ℚ
  slowRecRecEwma : ℚ
  lastTickSent : ℚ
  lastTickReceived : ℚ
  lastReceiverTimestamp : ℚ
  minRtt : ℚ
  rttEstimate : ℚ
  largestAck : ℤ
deriving DecidableEq

/-- The constructor from a vector. -/
def memoryOf (recSendEwma recRecEwma rttRatio slowRecRecEwma : ℚ) : Memory :=
  ⟨recSendEwma, recRecEwma, rttRatio, slowRecRecEwma, 0, 0, 0, 0, 0, 0⟩

def memory : Memory := memoryOf 0 0 0 0

def maxMemory : Memory := memoryOf 163840 163840 163840 163840

namespace Memory

/-- The last receiver timestamp survives. -/
def reset (m : Memory) : Memory := { memory with lastReceiverTimestamp := m.lastReceiverTimestamp }

def datasize : ℕ := 4

def field (m : Memory) (num : ℕ) : ℚ :=
  if num = 0 then m.recSendEwma else if num = 1 then m.recRecEwma
  else if num = 2 then m.rttRatio else m.slowRecRecEwma

/-- An assignment to `mutable_field( num )`. -/
def setField (m : Memory) (num : ℕ) (v : ℚ) : Memory :=
  if num = 0 then { m with recSendEwma := v } else if num = 1 then { m with recRecEwma := v }
  else if num = 2 then { m with rttRatio := v } else { m with slowRecRecEwma := v }

/-- `operator>=`. -/
def Ge (m other : Memory) : Prop :=
  other.recSendEwma ≤ m.recSendEwma ∧ other.recRecEwma ≤ m.recRecEwma ∧
    other.rttRatio ≤ m.rttRatio ∧ other.slowRecRecEwma ≤ m.slowRecRecEwma

/-- `operator<`, which is not the negation. -/
def Lt (m other : Memory) : Prop :=
  m.recSendEwma < other.recSendEwma ∧ m.recRecEwma < other.recRecEwma ∧
    m.rttRatio < other.rttRatio ∧ m.slowRecRecEwma < other.slowRecRecEwma

/-- `operator==`, which compares the second field with itself. -/
def Same (m other : Memory) : Prop :=
  m.recSendEwma = other.recSendEwma ∧ m.recRecEwma = m.recRecEwma ∧
    m.rttRatio = other.rttRatio ∧ m.slowRecRecEwma = other.slowRecRecEwma

instance (m other : Memory) : Decidable (m.Ge other) := inferInstanceAs (Decidable (_ ∧ _))

instance (m other : Memory) : Decidable (m.Lt other) := inferInstanceAs (Decidable (_ ∧ _))

instance (m other : Memory) : Decidable (m.Same other) := inferInstanceAs (Decidable (_ ∧ _))

/-- One round of `packets_received`; `none` is a failed assertion. -/
def packetReceived (m : Memory) (flowId : ℤ) (linkRateNormalizingFactor : ℚ) (x : Packet) :
    Option Memory :=
  if x.flowId ≠ flowId then some m
  else
    let rtt := x.tickReceived-x.tickSent
    let r :=
      if m.lastTickSent = 0 ∨ m.lastTickReceived = 0 then
        some { m with
          lastTickSent := x.tickSent
          lastTickReceived := x.tickReceived
          lastReceiverTimestamp := x.receiverTimestamp
          minRtt := rtt
          rttEstimate := rtt }
      else
        let m :=
          -- the averages are only updated without a gap
          if x.seqNum-1 = m.largestAck then
            { m with
              recSendEwma := (1-1/8)*m.recSendEwma+
                1/8*(x.tickSent-m.lastTickSent)*linkRateNormalizingFactor
              recRecEwma := (1-1/8)*m.recRecEwma+
                1/8*(x.receiverTimestamp-m.lastReceiverTimestamp)*linkRateNormalizingFactor
              slowRecRecEwma := (1-1/256)*m.slowRecRecEwma+
                1/256*(x.receiverTimestamp-m.lastReceiverTimestamp)*linkRateNormalizingFactor
              lastTickSent := x.tickSent
              lastTickReceived := x.tickReceived
              lastReceiverTimestamp := x.receiverTimestamp }
          else m
        let minRtt := min m.minRtt rtt
        -- assert( _rtt_ratio >= 1.0 )
        if rtt/minRtt < 1 then none
        else
          some { m with
            minRtt := minRtt
            rttRatio := rtt/minRtt
            rttEstimate := (1-1/8)*m.rttEstimate+1/8*rtt }
    r.map fun m => { m with largestAck := max m.largestAck x.seqNum }

def packetsReceived (m : Memory) (packets : List Packet) (flowId : ℤ)
    (linkRateNormalizingFactor : ℚ) : Option Memory :=
  packets.foldlM (fun m x => m.packetReceived flowId linkRateNormalizingFactor x) m

/-! ### Fields -/

theorem forall_datasize {p : ℕ → Prop} : (∀ i, i < datasize → p i) ↔ p 0 ∧ p 1 ∧ p 2 ∧ p 3 := by
  constructor
  · intro h
    exact ⟨h 0 (by decide), h 1 (by decide), h 2 (by decide), h 3 (by decide)⟩
  · rintro ⟨h0, h1, h2, h3⟩ i hi
    have hcases : i = 0 ∨ i = 1 ∨ i = 2 ∨ i = 3 := by
      unfold datasize at hi
      omega
    rcases hcases with rfl | rfl | rfl | rfl
    · exact h0
    · exact h1
    · exact h2
    · exact h3

@[simp] theorem field_setField_self (m : Memory) (num : ℕ) (v : ℚ) :
    (m.setField num v).field num = v := by
  unfold field setField
  split_ifs <;> rfl

theorem field_setField_of_ne (m : Memory) {num i : ℕ} (hnum : num < datasize) (hi : i < datasize)
    (hne : i ≠ num) (v : ℚ) : (m.setField num v).field i = m.field i := by
  unfold datasize at hnum hi
  unfold field setField
  split_ifs <;> first | rfl | omega

/-- The fields that are tracked. -/
def fields (m : Memory) (i : Fin datasize) : ℚ := m.field i

theorem fields_setField (m : Memory) (i : Fin datasize) (v : ℚ) :
    (m.setField i v).fields = Function.update m.fields i v := by
  funext j
  by_cases hj : j = i
  · rw [hj, Function.update_self]
    exact field_setField_self m i v
  · rw [Function.update_of_ne hj]
    exact field_setField_of_ne m i.isLt j.isLt (fun h => hj (Fin.ext h)) v

end Memory

/-! ### Ranges -/

/-- What a range has seen only decides the medians that it is bisected at. -/
structure MemoryRange where
  lower : Memory
  upper : Memory
deriving DecidableEq

namespace MemoryRange

def Contains (r : MemoryRange) (query : Memory) : Prop := query.Ge r.lower ∧ query.Lt r.upper

instance (r : MemoryRange) (query : Memory) : Decidable (r.Contains query) :=
  inferInstanceAs (Decidable (_ ∧ _))

/-- `operator==`. -/
def Same (r other : MemoryRange) : Prop := r.lower.Same other.lower ∧ r.upper.Same other.upper

instance (r other : MemoryRange) : Decidable (r.Same other) := inferInstanceAs (Decidable (_ ∧ _))

def rangeMedian (r : MemoryRange) : Memory :=
  (List.range Memory.datasize).foldl
    (fun m i => m.setField i ((r.lower.field i+r.upper.field i)/2)) r.lower

/-- What `bisect` does to a range on one axis; `none` is a failed assertion. -/
def double (median : ℚ) (i : ℕ) (x : MemoryRange) : Option (List MemoryRange) :=
  -- where nothing would be left below, the middle is tried
  let v :=
    if x.lower.Same (x.upper.setField i median) then (x.lower.field i+x.upper.field i)/2
    else median
  let ersatzLower := x.lower.setField i v
  let ersatzUpper := x.upper.setField i v
  if x.lower.Same ersatzUpper then
    -- the axis cannot be doubled
    if ersatzLower.Same x.upper ∨ ¬ x.lower.Same ersatzLower then none else some [x]
  else some [⟨x.lower, ersatzUpper⟩, ⟨ersatzLower, x.upper⟩]

/-- The medians are those that the accumulators of `r` estimate. -/
def bisect (r : MemoryRange) (median : ℕ → ℚ) : Option (List MemoryRange) :=
  ((List.range Memory.datasize).foldlM
    (fun (ret : List MemoryRange) i => (ret.mapM (double (median i) i)).map List.flatten)
    [r]).bind fun ret =>
      if ret = [] then none else some ret

/-- The range as a box of the tracked fields. -/
def box (r : MemoryRange) : Box (Fin Memory.datasize) ℚ := ⟨r.lower.fields, r.upper.fields⟩

theorem contains_iff (r : MemoryRange) (query : Memory) : r.Contains query ↔
    (r.lower.recSendEwma ≤ query.recSendEwma ∧ query.recSendEwma < r.upper.recSendEwma) ∧
      (r.lower.recRecEwma ≤ query.recRecEwma ∧ query.recRecEwma < r.upper.recRecEwma) ∧
        (r.lower.rttRatio ≤ query.rttRatio ∧ query.rttRatio < r.upper.rttRatio) ∧
          (r.lower.slowRecRecEwma ≤ query.slowRecRecEwma ∧
            query.slowRecRecEwma < r.upper.slowRecRecEwma) := by
  constructor
  · rintro ⟨⟨h0, h1, h2, h3⟩, k0, k1, k2, k3⟩
    exact ⟨⟨h0, k0⟩, ⟨h1, k1⟩, ⟨h2, k2⟩, h3, k3⟩
  · rintro ⟨⟨h0, k0⟩, ⟨h1, k1⟩, ⟨h2, k2⟩, h3, k3⟩
    exact ⟨⟨h0, h1, h2, h3⟩, k0, k1, k2, k3⟩

theorem contains_iff_mem_box (r : MemoryRange) (query : Memory) :
    r.Contains query ↔ Box.Mem query.fields r.box := by
  have hmem : Box.Mem query.fields r.box ↔ ∀ i, i < Memory.datasize →
      r.lower.field i ≤ query.field i ∧ query.field i < r.upper.field i :=
    ⟨fun h i hi => h ⟨i, hi⟩, fun h i => h i i.isLt⟩
  rw [hmem, Memory.forall_datasize]
  exact contains_iff r query

/-! ### Bisection -/

def Inside (query : Memory) (r : MemoryRange) : Prop := r.Contains query

instance : DecidableRel Inside := fun query r => inferInstanceAs (Decidable (r.Contains query))

/-- The medians are in the range and below its upper bounds. -/
def Splits (r : MemoryRange) (median : ℕ → ℚ) : Prop :=
  ∀ i, i < Memory.datasize → r.lower.field i ≤ median i ∧ median i < r.upper.field i

instance (r : MemoryRange) (median : ℕ → ℚ) : Decidable (r.Splits median) :=
  decidable_of_iff _ (Memory.forall_datasize
    (p := fun i => r.lower.field i ≤ median i ∧ median i < r.upper.field i)).symm

/-- On the axes from `i` on, `x` has the bounds of `r`. -/
def Agrees (r : MemoryRange) (i : ℕ) (x : MemoryRange) : Prop :=
  ∀ j, i ≤ j → j < Memory.datasize →
    x.lower.field j = r.lower.field j ∧ x.upper.field j = r.upper.field j

variable {r x : MemoryRange} {median : ℕ → ℚ} {i : ℕ}

/-- Of a range that is not yet cut on the axis, no point between its bounds is taken for one at
which it cannot be cut. -/
theorem not_same_setField (hsplit : r.Splits median) (hagrees : r.Agrees i x)
    (hi : i < Memory.datasize) {v : ℚ} (hv : r.lower.field i < v ∨ i = 1) :
    ¬ x.lower.Same (x.upper.setField i v) := by
  rintro ⟨h0, _, h2, h3⟩
  -- the second field is not compared, but the third one is not cut yet
  by_cases h1 : i = 1
  · subst h1
    obtain ⟨hl, hu⟩ := hagrees 2 (by decide) (by decide)
    have hlt := (hsplit 2 (by decide)).1.trans_lt (hsplit 2 (by decide)).2
    rw [← hl, ← hu] at hlt
    exact hlt.ne h2
  · have hfield : x.lower.field i = (x.upper.setField i v).field i := by
      have hcases : i = 0 ∨ i = 2 ∨ i = 3 := by
        unfold Memory.datasize at hi
        omega
      rcases hcases with rfl | rfl | rfl
      · exact h0
      · exact h2
      · exact h3
    rw [Memory.field_setField_self, (hagrees i (le_refl i) hi).1] at hfield
    exact (hv.resolve_right h1).ne hfield

/-- On each axis a range is cut in two, at the median or in the middle. -/
theorem double_eq (hsplit : r.Splits median) (hagrees : r.Agrees i x) (hi : i < Memory.datasize) :
    ∃ v, x.lower.field i ≤ v ∧ v ≤ x.upper.field i ∧
      double (median i) i x =
        some [⟨x.lower, x.upper.setField i v⟩, ⟨x.lower.setField i v, x.upper⟩] := by
  obtain ⟨hl, hu⟩ := hagrees i (le_refl i) hi
  obtain ⟨hle, hlt⟩ := hsplit i hi
  have hmid : r.lower.field i < (x.lower.field i+x.upper.field i)/2 := by
    rw [hl, hu]
    linarith
  by_cases hsame : x.lower.Same (x.upper.setField i (median i))
  · refine ⟨(x.lower.field i+x.upper.field i)/2, ?_, ?_, ?_⟩
    · rw [hl, hu]
      linarith
    · rw [hl, hu]
      linarith
    · rw [double, if_pos hsame]
      exact if_neg (not_same_setField hsplit hagrees hi (Or.inl hmid))
  · refine ⟨median i, hl.le.trans hle, hlt.le.trans hu.ge, ?_⟩
    rw [double, if_neg hsame]
    exact if_neg hsame

theorem partitions_cut_axis (hi : i < Memory.datasize) {v : ℚ} (hl : x.lower.field i ≤ v)
    (hu : v ≤ x.upper.field i) :
    Partitions Inside [⟨x.lower, x.upper.setField i v⟩, ⟨x.lower.setField i v, x.upper⟩] x := by
  apply partitions_cut (fun query : Memory => query.fields ⟨i, hi⟩ < v)
  · intro query
    rw [Inside, Inside, contains_iff_mem_box, contains_iff_mem_box]
    have hbox : box ⟨x.lower, x.upper.setField i v⟩ =
        ⟨x.box.lower, Function.update x.box.upper ⟨i, hi⟩ v⟩ := by
      rw [box, Memory.fields_setField x.upper ⟨i, hi⟩ v]
      rfl
    rw [hbox]
    exact mem_cut_below hu query.fields
  · intro query
    rw [Inside, Inside, contains_iff_mem_box, contains_iff_mem_box]
    have hbox : box ⟨x.lower.setField i v, x.upper⟩ =
        ⟨Function.update x.box.lower ⟨i, hi⟩ v, x.box.upper⟩ := by
      rw [box, Memory.fields_setField x.lower ⟨i, hi⟩ v]
      rfl
    rw [hbox]
    exact mem_cut_above hl query.fields

/-- A cut on one axis leaves the bounds on the others. -/
theorem agrees_cut (hagrees : r.Agrees i x) (hi : i < Memory.datasize) {v : ℚ} {y : MemoryRange}
    (hy : y ∈ [⟨x.lower, x.upper.setField i v⟩, ⟨x.lower.setField i v, x.upper⟩]) :
    r.Agrees (i+1) y := by
  intro j hj hj4
  obtain ⟨hl, hu⟩ := hagrees j (by omega) hj4
  have hne : j ≠ i := by omega
  rcases List.mem_pair.mp hy with rfl | rfl
  · exact ⟨hl, (Memory.field_setField_of_ne _ hi hj4 hne v).trans hu⟩
  · exact ⟨(Memory.field_setField_of_ne _ hi hj4 hne v).trans hl, hu⟩

theorem mapM_eq_some {α β : Type*} {f : α → Option β} {g : α → β} {xs : List α}
    (h : ∀ x ∈ xs, f x = some (g x)) : xs.mapM f = some (xs.map g) := by
  induction xs with
  | nil => rfl
  | cons x xs ih =>
    obtain ⟨hx, hrest⟩ := List.forall_mem_cons.mp h
    rw [List.mapM_cons, hx, ih hrest]
    rfl

/-- After `n` axes the ranges partition the first one, and are uncut on the other axes. -/
theorem bisect_axes (hsplit : r.Splits median) {n : ℕ} (hn : n ≤ Memory.datasize) :
    ∃ ret, (List.range n).foldlM
        (fun (ret : List MemoryRange) i => (ret.mapM (double (median i) i)).map List.flatten) [r] =
          some ret ∧
      (∀ x ∈ ret, r.Agrees n x) ∧ Partitions Inside ret r := by
  -- by induction on the number of axes
  induction n with
  | zero =>
    refine ⟨[r], rfl, ?_, partitions_singleton r⟩
    intro x hx
    rw [List.mem_singleton.mp hx]
    exact fun j _ _ => ⟨rfl, rfl⟩
  | succ n ih =>
    obtain ⟨ret, hret, hagrees, hparts⟩ := ih (by omega)
    have hcut : ∀ x ∈ ret, ∃ ys, double (median n) n x = some ys ∧ Partitions Inside ys x ∧
        ∀ y ∈ ys, r.Agrees (n+1) y := by
      intro x hx
      obtain ⟨v, hl, hu, hdouble⟩ := double_eq hsplit (hagrees x hx) (by omega)
      exact ⟨_, hdouble, partitions_cut_axis (by omega) hl hu,
        fun y hy => agrees_cut (hagrees x hx) (by omega) hy⟩
    choose! f hdouble hcells hnext using hcut
    refine ⟨ret.flatMap f, ?_, ?_, ?_⟩
    · rw [List.range_succ, List.foldlM_append, hret]
      change ((ret.mapM (double (median n) n)).map List.flatten).bind some = _
      rw [mapM_eq_some hdouble, Option.map_some, Option.bind_some, List.flatMap_def]
    · intro y hy
      obtain ⟨x, hx, hyx⟩ := List.mem_flatMap.mp hy
      exact hnext x hx y hyx
    · apply Partitions.flatMap (g := id)
      · rw [List.map_id]
        exact hparts
      · exact hcells

/-- `bisect` partitions a range. -/
theorem bisect_partitions (hsplit : r.Splits median) :
    ∃ ret, r.bisect median = some ret ∧ ret ≠ [] ∧ Partitions Inside ret r := by
  obtain ⟨ret, hret, _, hparts⟩ := bisect_axes hsplit (le_refl Memory.datasize)
  have hlower : Inside r.lower r := by
    rw [Inside, contains_iff_mem_box]
    intro i
    exact ⟨le_refl _, (hsplit i i.isLt).1.trans_lt (hsplit i i.isLt).2⟩
  have hne : ret ≠ [] := by
    obtain ⟨c, _, hc, _⟩ := hparts.exists_cell hlower
    exact List.ne_nil_of_mem hc
  exact ⟨ret, by rw [bisect, hret, Option.bind_some, if_neg hne], hne, hparts⟩

end MemoryRange

end CopaNgscope
