import Mathlib.Data.List.Sort
import CopaNgscope.NgscopeUtil

/-! Unwrapped TTIs compare as the TTIs do around the circle. The largest unwrapped TTI is then
the latest one, and the four comparisons of `ngscope_util.cc` are the circular order. -/
namespace CopaNgscope
open CircularDistance

/-- The comparator handed to `qsort`: both operands are promoted to `int`. -/
def cmpfuncUint16 (a b : UInt16) : ℤ := (a.toNat:ℤ)-b.toNat

/-- libc's `qsort`, which merges runs by the sign of the comparator. -/
def quickSortUint16 (array : List UInt16) : List UInt16 :=
  array.mergeSort (fun a b => cmpfuncUint16 a b ≤ 0)

/-- `max_tti_in_array`. The array is a local one of the caller, so what is left in it after
unwrapping and sorting is not kept. -/
def maxTtiInArray (array : List UInt16) : UInt16 :=
  match array with
  | [] => 0
  | [a] => a
  | array => wrapTti (maxInArrayUint16V (quickSortUint16 (unwrapTtiArray array)))

/-- `tti_a_le_b`: is `a` circularly no earlier than `b`. -/
def ttiALeB (a b : UInt16) : Bool :=
  match unwrapTtiArray [a,b] with
  | [x,y] => y ≤ x
  | _ => false

/-- `tti_a_s_b`: is `a` circularly earlier than `b`. -/
def ttiASB (a b : UInt16) : Bool :=
  match unwrapTtiArray [a,b] with
  | [x,y] => x < y
  | _ => false

theorem perm_quickSortUint16 (array : List UInt16) : (quickSortUint16 array).Perm array :=
  List.mergeSort_perm array _

/-! ### The line that unwrapping lays the TTIs on -/

/-- The TTIs lie within half a cycle after the base `b`. -/
def AfterBase (b : ℕ) (array : List UInt16) : Prop :=
  ∀ a ∈ array, a.toNat < maxTti ∧ cdist maxTti b a.toNat < 5120

theorem AfterBase.lt {b : ℕ} {array : List UInt16} (h : AfterBase b array) :
    ∀ x ∈ array.map UInt16.toNat, x < maxTti := by
  intro x hx
  obtain ⟨a, ha, rfl⟩ := List.mem_map.mp hx
  exact (h a ha).1

/-- Unwrapping walks from the oldest TTI to each of the others; so does every walk from the
base. -/
theorem AfterBase.exists_oldest {b : ℕ} {array : List UInt16} (h : AfterBase b array)
    (hne : array ≠ []) :
    ∃ o < maxTti,
      (∀ a ∈ array, cdist maxTti b a.toNat = cdist maxTti b o+cdist maxTti o a.toNat) ∧
      (unwrapTtiArray array).map UInt16.toNat =
        array.map (fun a => o+cdist maxTti o a.toNat) := by
  have hhalf : ∀ x ∈ array.map UInt16.toNat, 2*cdist maxTti b x < maxTti := by
    intro x hx
    obtain ⟨a, ha, rfl⟩ := List.mem_map.mp hx
    have hlt := (h a ha).2
    have hcycle : maxTti = 10240 := rfl
    omega
  obtain ⟨o, ho⟩ := exists_isOldest (by decide) (by simpa using hne) ⟨b, hhalf⟩
  -- the base need not be a TTI of the array, but o is the first one met from it
  refine ⟨o, h.lt o ho.1, fun a ha => ho.cdist_base hhalf (List.mem_map_of_mem ha), ?_⟩
  rw [← Function.comp_def (fun x => o+cdist maxTti o x) UInt16.toNat, ← List.map_map]
  exact map_toNat_unwrapTtiArray h.lt ho

@[simp] theorem length_unwrapTtiArray (array : List UInt16) :
    (unwrapTtiArray array).length = array.length := by
  unfold unwrapTtiArray
  split_ifs
  · rfl
  · exact List.length_map _

theorem unwrapTtiArray_ne_nil {array : List UInt16} (hne : array ≠ []) :
    unwrapTtiArray array ≠ [] := by
  rw [← List.length_pos_iff, length_unwrapTtiArray]
  exact List.length_pos_iff.mpr hne

theorem toNat_getD_unwrapTtiArray {array : List UInt16} {o : ℕ}
    (hmap : (unwrapTtiArray array).map UInt16.toNat =
      array.map (fun a => o+cdist maxTti o a.toNat)) {i : ℕ} (hi : i < array.length) :
    ((unwrapTtiArray array).getD i 0).toNat =
      o+cdist maxTti o (array.getD i 0).toNat := by
  have hget := congrArg (fun xs => xs.getD i 0) hmap
  simpa [List.getD_eq_getElem?_getD, hi] using hget

/-- Unwrapping moves each TTI by whole cycles, and what it gives compares as the distances from
the base do. -/
theorem AfterBase.unwrap {b : ℕ} {array : List UInt16} (h : AfterBase b array) :
    (∀ i < array.length, ((unwrapTtiArray array).getD i 0).toNat%maxTti =
      (array.getD i 0).toNat%maxTti) ∧
    ∀ i < array.length, ∀ j < array.length,
      ((unwrapTtiArray array).getD i 0 ≤ (unwrapTtiArray array).getD j 0 ↔
        cdist maxTti b (array.getD i 0).toNat ≤ cdist maxTti b (array.getD j 0).toNat) := by
  rcases eq_or_ne array [] with rfl | hne
  · exact ⟨fun i hi => absurd hi (Nat.not_lt_zero i), fun i hi => absurd hi (Nat.not_lt_zero i)⟩
  obtain ⟨o, _, hbase, hmap⟩ := h.exists_oldest hne
  have hmem (i : ℕ) (hi : i < array.length) : array.getD i 0 ∈ array := by
    rw [List.getD_eq_getElem?_getD, List.getElem?_eq_getElem hi]
    exact List.getElem_mem hi
  constructor
  · intro i hi
    rw [toNat_getD_unwrapTtiArray hmap hi]
    exact add_cdist_mod (by decide) o _
  · intro i hi j hj
    rw [UInt16.le_iff_toNat_le, toNat_getD_unwrapTtiArray hmap hi,
      toNat_getD_unwrapTtiArray hmap hj, hbase _ (hmem i hi), hbase _ (hmem j hj)]
    omega

/-! ### The latest TTI -/

/-- Sorting and taking the maximum finds a largest element. -/
theorem max_quickSortUint16_spec {array : List UInt16} (hne : array ≠ []) :
    maxInArrayUint16V (quickSortUint16 array) ∈ array ∧
      ∀ x ∈ array, x.toNat ≤ (maxInArrayUint16V (quickSortUint16 array)).toNat := by
  have hperm := perm_quickSortUint16 array
  have hne' : quickSortUint16 array ≠ [] := fun hnil => hne (List.nil_perm.mp (hnil ▸ hperm))
  obtain ⟨hmem, hle⟩ := maxInArrayUint16V_spec hne'
  exact ⟨hperm.mem_iff.mp hmem, fun x hx => hle x (hperm.mem_iff.mpr hx)⟩

theorem wrapTti_of_mem_unwrap {array : List UInt16} (hlt : ∀ a ∈ array, a.toNat < maxTti)
    {x : UInt16} (hx : x ∈ unwrapTtiArray array) : wrapTti x ∈ array := by
  have hself (a : UInt16) (ha : a ∈ array) : wrapTti a = a := by
    apply UInt16.toNat.inj
    exact (toNat_wrapTti a).trans (Nat.mod_eq_of_lt (hlt a ha))
  have hlift (a : UInt16) (ha : a ∈ array) : wrapTti (a+10240) = a := by
    have hlt' := hlt a ha
    unfold maxTti at hlt'
    apply UInt16.toNat.inj
    rw [toNat_wrapTti, UInt16.toNat_add, show (10240:UInt16).toNat = 10240 from rfl]
    omega
  unfold unwrapTtiArray at hx
  split_ifs at hx
  · rwa [hself x hx]
  · obtain ⟨a, ha, hxa⟩ := List.mem_map.mp hx
    split_ifs at hxa
    · rwa [← hxa, hlift a ha]
    · rwa [← hxa, hself a ha]

/-- Whatever the TTIs are, the result is one of them. -/
theorem maxTtiInArray_mem {array : List UInt16} (hne : array ≠ [])
    (hlt : ∀ a ∈ array, a.toNat < maxTti) : maxTtiInArray array ∈ array := by
  match array, hne with
  | [a], _ => exact List.mem_cons_self
  | a :: c :: rest, hne =>
    exact wrapTti_of_mem_unwrap hlt (max_quickSortUint16_spec (unwrapTtiArray_ne_nil hne)).1

/-- Wrapped again, the largest unwrapped TTI is the one that it came from. -/
theorem AfterBase.maxTtiInArray_spec {b : ℕ} {array : List UInt16} (h : AfterBase b array)
    (hne : array ≠ []) :
    maxTtiInArray array ∈ array ∧
      ∀ a ∈ array, cdist maxTti b a.toNat ≤ cdist maxTti b (maxTtiInArray array).toNat := by
  refine ⟨maxTtiInArray_mem hne (fun a ha => (h a ha).1), ?_⟩
  match array, hne with
  | [a], _ => simp [maxTtiInArray]
  | a :: c :: rest, hne =>
    obtain ⟨o, _, hbase, hmap⟩ := h.exists_oldest hne
    obtain ⟨hmem, hmax⟩ := max_quickSortUint16_spec (unwrapTtiArray_ne_nil hne)
    have hmem' := List.mem_map_of_mem (f := UInt16.toNat) hmem
    rw [hmap] at hmem'
    obtain ⟨m, hm, hval⟩ := List.mem_map.mp hmem'
    -- wrapping undoes the cycles that were added to m
    have hwrap : maxTtiInArray (a :: c :: rest) = m := by
      apply UInt16.toNat.inj
      calc (maxTtiInArray (a :: c :: rest)).toNat = (o+cdist maxTti o m.toNat)%10240 := by
            rw [hval]
            exact toNat_wrapTti _
        _ = m.toNat%10240 := add_cdist_mod (by decide) o _
        _ = m.toNat := Nat.mod_eq_of_lt (h m hm).1
    intro x hx
    -- on the line, x stands before the maximum
    have hx' : o+cdist maxTti o x.toNat ∈ (unwrapTtiArray (a :: c :: rest)).map UInt16.toNat := by
      rw [hmap]
      exact List.mem_map_of_mem hx
    obtain ⟨y, hy, hyx⟩ := List.mem_map.mp hx'
    have hle := hmax y hy
    rw [hwrap, hbase x hx, hbase m hm]
    omega

/-! ### The comparisons -/

/-- A pair of TTIs is compared by the distances from any base half a cycle before both. -/
theorem unwrapTtiArray_pair_le {b : ℕ} {x y : UInt16} (h : AfterBase b [x,y]) :
    ∃ x' y', unwrapTtiArray [x,y] = [x',y'] ∧
      (x' ≤ y' ↔ cdist maxTti b x.toNat ≤ cdist maxTti b y.toNat) ∧
      (y' ≤ x' ↔ cdist maxTti b y.toNat ≤ cdist maxTti b x.toNat) := by
  obtain ⟨x', y', hpair⟩ := List.length_eq_two.mp (length_unwrapTtiArray [x,y])
  have hxy := h.unwrap.2 0 (by simp) 1 (by simp)
  have hyx := h.unwrap.2 1 (by simp) 0 (by simp)
  rw [hpair] at hxy hyx
  exact ⟨x', y', hpair, hxy, hyx⟩

theorem ttiCompare_iff {b : ℕ} {x y : UInt16} (h : AfterBase b [x,y]) :
    (ttiALB x y = true ↔ cdist maxTti b y.toNat < cdist maxTti b x.toNat) ∧
      (ttiALeB x y = true ↔ cdist maxTti b y.toNat ≤ cdist maxTti b x.toNat) ∧
      (ttiASB x y = true ↔ cdist maxTti b x.toNat < cdist maxTti b y.toNat) ∧
      (ttiASeB x y = true ↔ cdist maxTti b x.toNat ≤ cdist maxTti b y.toNat) := by
  obtain ⟨x', y', hpair, hxy, hyx⟩ := unwrapTtiArray_pair_le h
  rw [ttiALB, ttiALeB, ttiASB, ttiASeB, hpair]
  simp only [decide_eq_true_eq]
  refine ⟨?_, hyx, ?_, hxy⟩
  · rw [← UInt16.not_le, hxy, not_le]
  · rw [← UInt16.not_le, hyx, not_le]

theorem AfterBase.pair {b : ℕ} {array : List UInt16} (h : AfterBase b array) {x y : UInt16}
    (hx : x ∈ array) (hy : y ∈ array) : AfterBase b [x,y] := by
  intro a ha
  rcases List.mem_pair.mp ha with rfl | rfl
  · exact h _ hx
  · exact h _ hy

/-- Within half a cycle after a base, unwrapping embeds the circular order in the numbers: what
it gives is congruent to the TTIs and compares as their distances do, the maximum is the latest
TTI, and the four comparisons are the circular order. -/
theorem unwrapTtiArray_order_embedding {b : ℕ} {array : List UInt16} (hne : array ≠ [])
    (hbase : ∀ a ∈ array, a.toNat < maxTti ∧ cdist maxTti b a.toNat < 5120) :
    (unwrapTtiArray array).length = array.length ∧
      (∀ i < array.length, ((unwrapTtiArray array).getD i 0).toNat%maxTti =
        (array.getD i 0).toNat%maxTti) ∧
      (∀ i < array.length, ∀ j < array.length,
        ((unwrapTtiArray array).getD i 0 ≤ (unwrapTtiArray array).getD j 0 ↔
          cdist maxTti b (array.getD i 0).toNat ≤ cdist maxTti b (array.getD j 0).toNat)) ∧
      maxTtiInArray array ∈ array ∧
      (∀ a ∈ array, cdist maxTti b a.toNat ≤ cdist maxTti b (maxTtiInArray array).toNat) ∧
      ∀ x ∈ array, ∀ y ∈ array,
        (ttiALB x y = true ↔ cdist maxTti b y.toNat < cdist maxTti b x.toNat) ∧
        (ttiALeB x y = true ↔ cdist maxTti b y.toNat ≤ cdist maxTti b x.toNat) ∧
        (ttiASB x y = true ↔ cdist maxTti b x.toNat < cdist maxTti b y.toNat) ∧
        (ttiASeB x y = true ↔ cdist maxTti b x.toNat ≤ cdist maxTti b y.toNat) := by
  have h : AfterBase b array := hbase
  obtain ⟨hmem, hlatest⟩ := h.maxTtiInArray_spec hne
  refine ⟨length_unwrapTtiArray array, h.unwrap.1, h.unwrap.2, hmem, hlatest, ?_⟩
  intro x hx y hy
  exact ttiCompare_iff (h.pair hx hy)

/-- Across the wrap: TTI 1 comes after TTI 10239. -/
theorem unwrapTtiArray_order_embedding_wrap :
    maxTtiInArray [10239,1] ∈ [10239,1] ∧ ttiALB 1 10239 = true := by
  have hbase : ∀ a ∈ ([10239,1] : List UInt16), a.toNat < maxTti ∧
      cdist maxTti 10000 a.toNat < 5120 := by
    intro a ha
    rcases List.mem_pair.mp ha with rfl | rfl
    · decide
    · decide
  have h := unwrapTtiArray_order_embedding (List.cons_ne_nil _ _) hbase
  obtain ⟨_, _, _, hmem, _, hcompare⟩ := h
  exact ⟨hmem, (hcompare 1 (by simp) 10239 (by simp)).1.mpr (by decide)⟩

end CopaNgscope
