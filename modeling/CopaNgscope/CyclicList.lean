import Mathlib.Data.Int.GCD
import Mathlib.Data.List.GetD
import Mathlib.Data.List.Rotate
import Mathlib.Data.List.Perm.Basic

/-! A list that is read round and round, and what its rotations that change nothing say about it:
it is a block repeated, and so is what is read. -/
namespace CopaNgscope.CyclicList

variable {α : Type*}

section
variable [Inhabited α]

/-- The first `k` elements of the list repeated without end. -/
def cycle (xs : List α) (k : ℕ) : List α :=
  (List.range k).map fun i => xs.getD (i%xs.length) default

@[simp] theorem length_cycle (xs : List α) (k : ℕ) : (cycle xs k).length = k := by
  simp [cycle]

theorem cycle_succ (xs : List α) (k : ℕ) :
    cycle xs (k+1) = cycle xs k ++ [xs.getD (k%xs.length) default] := by
  rw [cycle, List.range_succ, List.map_append, List.map_singleton]
  rfl

theorem cycle_length (xs : List α) : cycle xs xs.length = xs := by
  refine List.ext_getElem (length_cycle xs _) (fun i hi hi' => ?_)
  simp only [cycle, List.getElem_map, List.getElem_range]
  rw [Nat.mod_eq_of_lt hi', List.getD_eq_getElem _ _ hi']

theorem mem_of_mem_cycle {xs : List α} (hne : xs ≠ []) {k : ℕ} {x : α} (hx : x ∈ cycle xs k) :
    x ∈ xs := by
  obtain ⟨i, _, rfl⟩ := List.mem_map.mp hx
  have hlt : i%xs.length < xs.length := Nat.mod_lt _ (List.length_pos_iff.mpr hne)
  rw [List.getD_eq_getElem _ _ hlt]
  exact List.getElem_mem hlt

/-- Taking the first element and putting it behind the others, `k` times. -/
theorem rotate_succ {xs : List α} (hne : xs ≠ []) (k : ℕ) :
    ∃ rest, xs.rotate k = xs.getD (k%xs.length) default :: rest ∧
      xs.rotate (k+1) = rest ++ [xs.getD (k%xs.length) default] := by
  have hlen : 0 < (xs.rotate k).length := by
    rw [List.length_rotate]
    exact List.length_pos_iff.mpr hne
  cases hrot : xs.rotate k with
  | nil => simp [hrot] at hlen
  | cons y rest =>
    have hhead : y = xs.getD (k%xs.length) default := by
      have hget := List.getElem_rotate xs k 0 hlen
      have hlt : k%xs.length < xs.length := Nat.mod_lt _ (List.length_pos_iff.mpr hne)
      simp only [hrot, List.getElem_cons_zero, Nat.zero_add] at hget
      rw [hget, List.getD_eq_getElem _ _ hlt]
    refine ⟨rest, by rw [hhead], ?_⟩
    rw [← List.rotate_rotate, hrot, List.rotate_cons_succ, List.rotate_zero, hhead]

end

/-! ### Rotations that change nothing -/

theorem rotate_mul {xs : List α} {k : ℕ} (h : xs.rotate k = xs) (m : ℕ) :
    xs.rotate (k*m) = xs := by
  induction m with
  | zero => rw [Nat.mul_zero, List.rotate_zero]
  | succ m ih => rw [Nat.mul_succ, ← List.rotate_rotate, ih, h]

/-- A rotation changes nothing exactly if the one by the greatest common divisor does not. -/
theorem rotate_eq_iff_gcd {xs : List α} (hne : xs ≠ []) (k : ℕ) :
    xs.rotate k = xs ↔ xs.rotate (k.gcd xs.length) = xs := by
  have hpos := List.length_pos_iff.mpr hne
  constructor
  · intro h
    rcases Nat.lt_or_ge (k.gcd xs.length) xs.length with hlt | hge
    · -- some multiple of k leaves the divisor as remainder
      obtain ⟨m, _, hm⟩ := Nat.exists_mul_mod_eq_gcd hlt
      rw [← hm, List.rotate_mod]
      exact rotate_mul h m
    · have heq := Nat.le_antisymm (Nat.le_of_dvd hpos (Nat.gcd_dvd_right k xs.length)) hge
      rw [heq, List.rotate_length]
  · intro h
    obtain ⟨m, hm⟩ := Nat.gcd_dvd_left k xs.length
    conv_lhs => rw [hm]
    exact rotate_mul h m

section
variable [Inhabited α] {xs : List α} {d : ℕ}

/-- Then every element stands in the first `d` as well. -/
theorem getD_eq_of_rotate (h : xs.rotate d = xs) (hpos : 0 < d) {i : ℕ} (hi : i < xs.length) :
    xs.getD i default = xs.getD (i%d) default := by
  have hstep (j : ℕ) (hj : j+d < xs.length) : xs.getD (j+d) default = xs.getD j default := by
    have hj' : j < xs.length := by omega
    have hget := List.getElem_rotate xs d j (by rwa [List.length_rotate])
    simp only [h, Nat.mod_eq_of_lt hj] at hget
    rw [List.getD_eq_getElem _ _ hj, List.getD_eq_getElem _ _ hj', hget]
  induction i using Nat.strong_induction_on with
  | _ i ih =>
    rcases Nat.lt_or_ge i d with hlt | hge
    · rw [Nat.mod_eq_of_lt hlt]
    · have hback := hstep (i-d) (by omega)
      rw [Nat.sub_add_cancel hge] at hback
      rw [hback, ih (i-d) (by omega) (by omega), ← Nat.mod_eq_sub_mod hge]

/-- Reading the list is reading its first block. -/
theorem cycle_take (hne : xs ≠ []) (h : xs.rotate d = xs) (hd : d ∣ xs.length) (hpos : 0 < d)
    (k : ℕ) : cycle xs k = cycle (xs.take d) k := by
  have hle := Nat.le_of_dvd (List.length_pos_iff.mpr hne) hd
  refine List.map_congr_left (fun i _ => ?_)
  have hlt : i%xs.length < xs.length := Nat.mod_lt _ (List.length_pos_iff.mpr hne)
  rw [getD_eq_of_rotate h hpos hlt, Nat.mod_mod_of_dvd i hd, List.length_take,
    Nat.min_eq_left hle, List.getD_eq_getElem?_getD, List.getD_eq_getElem?_getD,
    List.getElem?_take_of_lt (Nat.mod_lt i hpos)]

theorem cycle_add_length (xs : List α) (k m : ℕ) :
    cycle xs (m*xs.length+k) = cycle xs (m*xs.length) ++ cycle xs k := by
  rw [cycle, List.range_add, List.map_append, List.map_map]
  congr 1
  refine List.map_congr_left (fun i _ => ?_)
  rw [Function.comp_apply, Nat.mul_add_mod_self_right]

end

/-- Reading a block `m` times round gives every element `m` times. -/
theorem perm_cycle_mul [Inhabited α] (xs : List α) (m : ℕ) :
    (cycle xs (m*xs.length)).Perm (xs.flatMap (List.replicate m)) := by
  induction m with
  | zero => simp [cycle]
  | succ m ih =>
    have hsucc : (List.replicate (m+1) : α → List α) = fun x => List.replicate m x ++ [x] :=
      funext fun x => List.replicate_succ'
    rw [Nat.succ_mul, cycle_add_length, cycle_length, hsucc]
    calc (cycle xs (m*xs.length) ++ xs).Perm (xs.flatMap (List.replicate m) ++ xs) :=
          ih.append_right xs
      List.Perm _ (xs.flatMap (List.replicate m) ++ xs.flatMap fun x => [x]) := by simp
      List.Perm _ (xs.flatMap fun x => List.replicate m x ++ [x]) :=
        List.flatMap_append_perm xs _ _

end CopaNgscope.CyclicList
