import Mathlib.Data.List.Sort
import CopaNgscope.CircularDistance

/-! The array and TTI helpers of `ngscope_util.cc`. An array and its size are a list;
C's `int` and `long` are integers, and a conversion to them wraps as the machine's does. -/
namespace CopaNgscope
open CircularDistance

/-- A TTI counts subframes modulo `MAX_TTI`. -/
def maxTti : ℕ := 10240

/-- The C conversion of a `uint64_t` to `long`. -/
def toLong (x : UInt64) : ℤ := Int.bmod x.toNat (2^64)

theorem toLong_of_lt {x : UInt64} (h : x.toNat < 2^63) : toLong x = x.toNat := by
  unfold toLong
  exact Int.bmod_eq_of_le (by omega) (by omega)

theorem toLong_of_ge {x : UInt64} (h : 2^63 ≤ x.toNat) : toLong x = (x.toNat:ℤ)-2^64 := by
  have hx := x.toNat_lt
  unfold toLong
  rw [← Int.sub_bmod_right, Int.bmod_eq_of_le (by omega) (by omega)]
  norm_num

theorem toLong_cases (x : UInt64) : (toLong x = x.toNat ∧ x.toNat < 2^63) ∨
    (toLong x = (x.toNat:ℤ)-2^64 ∧ 2^63 ≤ x.toNat) := by
  rcases lt_or_ge x.toNat (2^63) with h | h
  · exact Or.inl ⟨toLong_of_lt h, h⟩
  · exact Or.inr ⟨toLong_of_ge h, h⟩

/-- The C conversion of a `uint64_t` to `int`. -/
def toInt (x : UInt64) : ℤ := Int.bmod x.toNat (2^32)

/-! ### Sums, minima and maxima -/

def sumArrayUint64 (array : List UInt64) : UInt64 := array.foldl (· + ·) 0

/-- Dividing by a zero size traps, so the callers exclude it. -/
def meanArrayUint64 (array : List UInt64) : UInt64 :=
  sumArrayUint64 array/UInt64.ofNat array.length

/-- The loop shared by the minimum and maximum searches: start from `array[0]` and
replace the value by every element that is better. -/
def scanArray {α : Type*} (better : α → α → Bool) (zero : α) (array : List α) : α :=
  array.foldl (fun v a => if better a v then a else v) (array.headD zero)

def minInArrayUint16V (array : List UInt16) : UInt16 := scanArray (fun a v => a < v) 0 array

def maxInArrayUint16V (array : List UInt16) : UInt16 := scanArray (fun a v => v < a) 0 array

theorem foldl_scan {α : Type*} (better : α → α → Bool) (key : α → ℤ)
    (hkey : ∀ a v, better a v = true ↔ key a < key v) (xs : List α) (v : α) :
    let r := xs.foldl (fun v a => if better a v then a else v) v
    (r = v ∨ r ∈ xs) ∧ key r ≤ key v ∧ ∀ x ∈ xs, key r ≤ key x := by
  induction xs generalizing v with
  | nil => simp
  | cons a xs ih =>
    obtain ⟨hmem, hle, hall⟩ := ih (if better a v then a else v)
    simp only [List.foldl_cons]
    by_cases hb : better a v = true
    · have hlt := (hkey a v).mp hb
      simp only [hb, if_true] at hmem hle hall ⊢
      refine ⟨?_, by omega, ?_⟩
      · rcases hmem with h | h
        · exact Or.inr (by rw [h]; exact List.mem_cons_self)
        · exact Or.inr (List.mem_cons_of_mem a h)
      · intro x hx
        rcases List.mem_cons.mp hx with rfl | hx
        · exact hle
        · exact hall x hx
    · have hge : ¬ key a < key v := fun h => hb ((hkey a v).mpr h)
      simp only [Bool.not_eq_true] at hb
      simp only [hb, Bool.false_eq_true, if_false] at hmem hle hall ⊢
      refine ⟨hmem.imp_right (List.mem_cons_of_mem a), hle, ?_⟩
      intro x hx
      rcases List.mem_cons.mp hx with rfl | hx
      · omega
      · exact hall x hx

/-- The search returns an element that no other one beats. -/
theorem scanArray_spec {α : Type*} (better : α → α → Bool) (zero : α) (key : α → ℤ)
    (hkey : ∀ a v, better a v = true ↔ key a < key v) {array : List α} (hne : array ≠ []) :
    scanArray better zero array ∈ array ∧
      ∀ x ∈ array, key (scanArray better zero array) ≤ key x := by
  obtain ⟨hmem, _, hall⟩ := foldl_scan better key hkey array (array.headD zero)
  refine ⟨?_, hall⟩
  rcases hmem with h | h
  · unfold scanArray
    rw [h]
    cases array with
    | nil => exact absurd rfl hne
    | cons a as => exact List.mem_cons_self
  · exact h

theorem minInArrayUint16V_spec {array : List UInt16} (hne : array ≠ []) :
    minInArrayUint16V array ∈ array ∧
      ∀ x ∈ array, (minInArrayUint16V array).toNat ≤ x.toNat := by
  obtain ⟨hmem, hle⟩ := scanArray_spec (fun a v => a < v) (0:UInt16) (fun a => (a.toNat:ℤ))
    (by intro a v; simp [UInt16.lt_iff_toNat_lt]) hne
  exact ⟨hmem, fun x hx => by exact_mod_cast hle x hx⟩

theorem maxInArrayUint16V_spec {array : List UInt16} (hne : array ≠ []) :
    maxInArrayUint16V array ∈ array ∧
      ∀ x ∈ array, x.toNat ≤ (maxInArrayUint16V array).toNat := by
  obtain ⟨hmem, hle⟩ := scanArray_spec (fun a v => v < a) (0:UInt16) (fun a => -(a.toNat:ℤ))
    (by intro a v; simp [UInt16.lt_iff_toNat_lt]) hne
  refine ⟨hmem, fun x hx => ?_⟩
  have h := hle x hx
  unfold maxInArrayUint16V
  omega

theorem toNat_foldl_add (xs : List UInt64) (s : UInt64) :
    (xs.foldl (· + ·) s).toNat = (s.toNat+(xs.map UInt64.toNat).sum)%2^64 := by
  induction xs generalizing s with
  | nil => simp [Nat.mod_eq_of_lt s.toNat_lt]
  | cons x xs ih =>
    rw [List.foldl_cons, ih, UInt64.toNat_add, Nat.mod_add_mod, List.map_cons, List.sum_cons,
      Nat.add_assoc]

theorem toNat_foldl_add32 (xs : List UInt32) (s : UInt32) :
    (xs.foldl (· + ·) s).toNat = (s.toNat+(xs.map UInt32.toNat).sum)%2^32 := by
  induction xs generalizing s with
  | nil => simp [Nat.mod_eq_of_lt s.toNat_lt]
  | cons x xs ih =>
    rw [List.foldl_cons, ih, UInt32.toNat_add, Nat.mod_add_mod, List.map_cons, List.sum_cons,
      Nat.add_assoc]

/-- The sum wraps at 64 bits, the division does not. -/
theorem toNat_meanArrayUint64 {array : List UInt64} (hlen : array.length < 2^64) :
    (meanArrayUint64 array).toNat = (array.map UInt64.toNat).sum%2^64/array.length := by
  have hs : (sumArrayUint64 array).toNat = (array.map UInt64.toNat).sum%2^64 := by
    rw [sumArrayUint64, toNat_foldl_add, UInt64.toNat_zero, Nat.zero_add]
  rw [meanArrayUint64, UInt64.toNat_div, hs, UInt64.toNat_ofNat_of_lt' hlen]

/-! ### Searching an array -/

/-- The index of the first occurrence, or -1. -/
def findElementInArrayUint16 (array : List UInt16) (ele : UInt16) : ℤ :=
  if ele ∈ array then array.idxOf ele else -1

/-! ### TTI arithmetic -/

def wrapTti (tti : UInt16) : UInt16 := tti%10240

/-- Lift the TTIs that have wrapped past the numerically largest one by one cycle. -/
def unwrapTtiArray (array : List UInt16) : List UInt16 :=
  if array.length = 1 then array
  else
    let maxTti := maxInArrayUint16V array
    array.map fun a =>
      if ((maxTti.toNat:ℤ)-a.toNat).natAbs > ((maxTti.toNat:ℤ)-(a.toNat+10240)).natAbs
      then a+10240 else a

def ttiDistance (start finish : UInt16) : ℤ :=
  if start < finish then (finish.toNat:ℤ)-start.toNat+1 else (finish.toNat:ℤ)+10240-start.toNat+1

/-- `tti_a_l_b`: is `a` circularly later than `b`. -/
def ttiALB (a b : UInt16) : Bool :=
  match unwrapTtiArray [a,b] with
  | [x,y] => y < x
  | _ => false

/-- `tti_a_se_b`: is `a` circularly no later than `b`. -/
def ttiASeB (a b : UInt16) : Bool :=
  match unwrapTtiArray [a,b] with
  | [x,y] => x ≤ y
  | _ => false

@[simp] theorem toNat_wrapTti (tti : UInt16) : (wrapTti tti).toNat = tti.toNat%10240 := by
  simp [wrapTti]

/-- On TTIs less than half a cycle apart, unwrapping lays them out on a line that
starts at the oldest one. -/
theorem map_toNat_unwrapTtiArray {array : List UInt16} {o : ℕ}
    (hlt : ∀ x ∈ array.map UInt16.toNat, x < 10240)
    (ho : IsOldest 10240 (array.map UInt16.toNat) o) :
    (unwrapTtiArray array).map UInt16.toNat =
      (array.map UInt16.toNat).map (fun x => o+cdist 10240 o x) := by
  have hne : array ≠ [] := by
    rintro rfl
    simpa using ho.1
  unfold unwrapTtiArray
  split_ifs with h1
  · obtain ⟨a, rfl⟩ := List.length_eq_one_iff.mp h1
    have hoa : o = a.toNat := by simpa using ho.1
    simp [hoa]
  · -- an element is lifted when it lies before the oldest one in numbers
    obtain ⟨hmem, hmax⟩ := maxInArrayUint16V_spec hne
    rw [List.map_map, List.map_map]
    apply List.map_congr_left
    intro a ha
    obtain ⟨m, hm, hom⟩ := List.mem_map.mp ho.1
    have hM := hlt _ (List.mem_map_of_mem hmem)
    have hoM := ho.2 _ (List.mem_map_of_mem hmem)
    have hoa := ho.2 _ (List.mem_map_of_mem ha)
    have hmM := hmax m hm
    have haM := hmax a ha
    have ha' := hlt _ (List.mem_map_of_mem ha)
    simp only [Function.comp_apply]
    unfold cdist at hoM hoa ⊢
    split_ifs with hcmp
    · rw [UInt16.toNat_add, show (10240:UInt16).toNat = 10240 from rfl]
      omega
    · omega

/-! ### Nearest neighbours -/

/-- The first index whose element is nearest to `num`; 0 for an empty array. -/
def nearestNeighbourIndex (array : List UInt64) (num : UInt64) : ℕ :=
  (array.zipIdx.foldl (fun (s : ℤ × ℕ) (x : UInt64 × ℕ) =>
    let distTmp : ℤ := (toLong x.1-toLong num).natAbs
    if x.2 = 0 then (distTmp, s.2) else if distTmp < s.1 then (distTmp, x.2) else s) (0,0)).2

/-- The same search, which returns the element; the array must not be empty. -/
def nearestNeighbour (array : List UInt64) (num : UInt64) : UInt64 :=
  array.getD (nearestNeighbourIndex array num) 0

def nearestNeighbourDistWOffset (array : List UInt64) (num : UInt64) (offset : ℤ) : ℤ :=
  (array.zipIdx.foldl (fun (distMin : ℤ) (x : UInt64 × ℕ) =>
    let distTmp : ℤ := (toLong x.1+offset-toLong num).natAbs
    if x.2 = 0 then distTmp else if distTmp < distMin then distTmp else distMin) 0)

def correlate2Vec (array1 array2 : List UInt64) : ℤ :=
  array1.foldl (fun dist a => dist+(toLong (nearestNeighbour array2 a)-toLong a).natAbs) 0

def correlate2VecWOffset (array1 array2 : List UInt64) (offset : ℤ) : ℤ :=
  array1.foldl (fun dist a => dist+nearestNeighbourDistWOffset array2 a offset) 0

/-- The `int` offset is converted to `uint64_t` before it is added. -/
def shiftVecWOffset (array : List UInt64) (offset : ℤ) : List UInt64 :=
  array.map (fun a => a+UInt64.ofInt offset)

/-! ### Sorting -/

/-- The comparator handed to `qsort`: the 64-bit difference converted to `int`. -/
def cmpfuncUint64 (a b : UInt64) : ℤ := toInt (a-b)

/-- libc's `qsort`, which merges runs by the sign of the comparator. -/
def quickSortUint64 (array : List UInt64) : List UInt64 :=
  array.mergeSort (fun a b => cmpfuncUint64 a b ≤ 0)

end CopaNgscope
