import Mathlib.Data.List.GetD
import Mathlib.Tactic.Ring

/-! Arrays as the bytes they lie in: a column of numbers of one width, low byte first, and copies
of a number of bytes. `none` is a copy that leaves one of its arrays. -/
namespace CopaNgscope.ByteColumn

def leBytes : ℕ → ℕ → List UInt8
  | 0, _ => []
  | width+1, x => UInt8.ofNat x :: leBytes width (x/2^8)

def leValue : List UInt8 → ℕ
  | [] => 0
  | b :: bs => b.toNat+2^8*leValue bs

def column (width : ℕ) (xs : List ℕ) : List UInt8 := xs.flatMap (leBytes width)

/-- `size` cleared elements. -/
def calloc (size width : ℕ) : List UInt8 := List.replicate (size*width) 0

def memcpy (dst src : List UInt8) (n : ℕ) : Option (List UInt8) :=
  if n ≤ dst.length ∧ n ≤ src.length then some (src.take n ++ dst.drop n) else none

/-- The `k`-th element of a column. -/
def element (width : ℕ) (bytes : List UInt8) (k : ℕ) : ℕ :=
  leValue ((bytes.drop (k*width)).take width)

@[simp] theorem length_leBytes (width x : ℕ) : (leBytes width x).length = width := by
  induction width generalizing x with
  | zero => rfl
  | succ width ih => rw [leBytes, List.length_cons, ih]

theorem leValue_leBytes (width x : ℕ) : leValue (leBytes width x) = x%2^(8*width) := by
  induction width generalizing x with
  | zero => simp [leBytes, leValue, Nat.mod_one]
  | succ width ih =>
    have hpow : 2^(8*(width+1)) = 2^8*2^(8*width) := by ring
    rw [leBytes, leValue, ih, UInt8.toNat_ofNat', hpow, Nat.mod_mul]

/-! ### Columns -/

@[simp] theorem column_nil (width : ℕ) : column width [] = [] := rfl

theorem column_cons (width x : ℕ) (xs : List ℕ) :
    column width (x :: xs) = leBytes width x ++ column width xs := List.flatMap_cons

theorem column_append (width : ℕ) (xs ys : List ℕ) :
    column width (xs ++ ys) = column width xs ++ column width ys := List.flatMap_append

@[simp] theorem length_column (width : ℕ) (xs : List ℕ) :
    (column width xs).length = xs.length*width := by
  induction xs with
  | nil => simp
  | cons x xs ih =>
    rw [column_cons, List.length_append, length_leBytes, ih, List.length_cons]
    ring

theorem leBytes_zero (width : ℕ) : leBytes width 0 = List.replicate width 0 := by
  induction width with
  | zero => rfl
  | succ width ih =>
    rw [leBytes, Nat.zero_div, ih]
    rfl

theorem calloc_eq_column (size width : ℕ) :
    calloc size width = column width (List.replicate size 0) := by
  induction size with
  | zero => simp [calloc]
  | succ size ih =>
    rw [List.replicate_succ, column_cons, ← ih, leBytes_zero, calloc, calloc,
      List.replicate_append_replicate]
    congr 1
    ring

theorem take_column (width m : ℕ) (xs : List ℕ) :
    (column width xs).take (m*width) = column width (xs.take m) := by
  induction xs generalizing m with
  | nil => simp
  | cons x xs ih =>
    cases m with
    | zero => simp
    | succ m =>
      have hm : (m+1)*width = (leBytes width x).length+m*width := by
        rw [length_leBytes]
        ring
      rw [column_cons, hm, List.take_length_add_append, ih, List.take_succ_cons, column_cons]

theorem drop_column (width m : ℕ) (xs : List ℕ) :
    (column width xs).drop (m*width) = column width (xs.drop m) := by
  induction xs generalizing m with
  | nil => simp
  | cons x xs ih =>
    cases m with
    | zero => simp
    | succ m =>
      have hm : (m+1)*width = (leBytes width x).length+m*width := by
        rw [length_leBytes]
        ring
      rw [column_cons, hm, List.drop_length_add_append, ih, List.drop_succ_cons]

/-- An element of a column is the number that was put there, or zero behind the end. -/
theorem element_column (width : ℕ) {xs : List ℕ} (hxs : ∀ x ∈ xs, x < 2^(8*width)) (k : ℕ) :
    element width (column width xs) k = xs.getD k 0 := by
  rw [element, drop_column]
  by_cases hk : k < xs.length
  · have htake := take_column width 1 (xs.drop k)
    rw [Nat.one_mul] at htake
    rw [htake, List.drop_eq_getElem_cons hk, List.take_succ_cons, List.take_zero, column_cons,
      column_nil, List.append_nil, leValue_leBytes, List.getD_eq_getElem xs 0 hk,
      Nat.mod_eq_of_lt (hxs _ (List.getElem_mem hk))]
  · rw [List.drop_eq_nil_of_le (not_lt.mp hk), column_nil, List.take_nil,
      List.getD_eq_default xs 0 (not_lt.mp hk)]
    rfl

/-- Copying the bytes of `m` elements copies `m` elements. -/
theorem memcpy_column {width m : ℕ} {dst src : List ℕ} (hdst : m ≤ dst.length)
    (hsrc : m ≤ src.length) : memcpy (column width dst) (column width src) (m*width) =
      some (column width (src.take m ++ dst.drop m)) := by
  rw [memcpy, if_pos ⟨by rw [length_column]; gcongr, by rw [length_column]; gcongr⟩, take_column,
    drop_column, column_append]

/-- What stands in a cleared array of `size` after the copy of `m` elements. -/
theorem getD_copied {xs : List ℕ} {size m : ℕ} (hsrc : m ≤ xs.length) (k : ℕ) :
    (xs.take m ++ (List.replicate size 0).drop m).getD k 0 = if k < m then xs.getD k 0 else 0 := by
  have hlen : (xs.take m).length = m := by
    rw [List.length_take]
    omega
  by_cases hk : k < m
  · rw [if_pos hk, List.getD_append _ _ _ _ (hlen.symm ▸ hk), List.getD_eq_getElem?_getD,
      List.getElem?_take_of_lt hk, ← List.getD_eq_getElem?_getD]
  · rw [if_neg hk, List.getD_append_right _ _ _ _ (by omega), List.drop_replicate]
    rw [List.getD_eq_getElem?_getD]
    exact List.getElem?_getD_replicate_default_eq _ _ _

/-- A copy onto an array without elements leaves it. -/
theorem memcpy_nil (src : List UInt8) {n : ℕ} (hn : 0 < n) : memcpy [] src n = none := by
  rw [memcpy, if_neg]
  intro h
  exact absurd h.1 (by simpa using hn.ne')

end CopaNgscope.ByteColumn
