import Mathlib.Data.List.DropRight
import Mathlib.Data.List.Infix
import Mathlib.Data.List.Pairwise
import Mathlib.Order.Lattice

/-! A monotone deque: a new element removes the larger ones at the back, and elements that are
too old leave at the front, except for the last one. Its front is the least element of the
window. The elements are compared by `key` and aged by `time`. -/
namespace CopaNgscope.MonotoneDeque

variable {β α τ : Type*} [LinearOrder α] [LinearOrder τ] (key : β → α) (time : β → τ)

/-- Remove the elements at the back that are larger than `x`, and append `x`. -/
def push (xs : List β) (x : β) : List β := xs.rdropWhile (fun y => key x < key y) ++ [x]

/-- Remove the elements at the front that are older than `limit`, but never the last one. -/
def expire (limit : τ) : List β → List β
  | x :: y :: xs => if time x < limit then expire limit (y :: xs) else x :: y :: xs
  | xs => xs

/-- The keys and the times do not decrease from the front to the back. -/
structure Monotone (xs : List β) : Prop where
  key_le : xs.Pairwise (fun x y => key x ≤ key y)
  time_le : xs.Pairwise (fun x y => time x ≤ time y)

/-! ### Ends -/

@[simp] theorem getLast?_push (xs : List β) (x : β) : (push key xs x).getLast? = some x := by
  simp [push]

theorem expire_suffix (limit : τ) (xs : List β) : expire time limit xs <:+ xs := by
  fun_induction expire time limit xs with
  | case1 x y xs _ ih => exact ih.trans (List.suffix_cons x (y :: xs))
  | case2 => exact List.suffix_refl _
  | case3 => exact List.suffix_refl _

@[simp] theorem getLast?_expire (limit : τ) (xs : List β) :
    (expire time limit xs).getLast? = xs.getLast? := by
  fun_induction expire time limit xs with
  | case1 x y xs _ ih => rw [ih, List.getLast?_cons_cons]
  | case2 => rfl
  | case3 => rfl

/-- A new element below all the others is the only one that stays. -/
theorem push_of_lt {xs : List β} {x : β} (h : ∀ y ∈ xs, key x < key y) : push key xs x = [x] := by
  have hnil : xs.rdropWhile (fun y => key x < key y) = [] := by
    rw [List.rdropWhile_eq_nil_iff]
    simpa using h
  rw [push, hnil, List.nil_append]

/-- A front that is not above the new element stays the front. -/
theorem head?_push {x y : β} {ys : List β} (h : key y ≤ key x) :
    (push key (y :: ys) x).head? = some y := by
  have hne : (y :: ys).rdropWhile (fun z => key x < key z) ≠ [] := by
    rw [ne_eq, List.rdropWhile_eq_nil_iff]
    intro hall
    have := hall y List.mem_cons_self
    simp only [decide_eq_true_eq] at this
    exact absurd this (not_lt.mpr h)
  obtain ⟨t, ht⟩ := List.rdropWhile_prefix (fun z => decide (key x < key z)) (y :: ys)
  cases hd : (y :: ys).rdropWhile (fun z => key x < key z) with
  | nil => exact absurd hd hne
  | cons z zs =>
    rw [hd, List.cons_append, List.cons.injEq] at ht
    rw [push, hd, ht.1]
    rfl

/-! ### Order -/

variable {key time}

theorem Monotone.suffix {xs ys : List β} (h : Monotone key time xs) (hs : ys <:+ xs) :
    Monotone key time ys :=
  ⟨h.key_le.sublist hs.sublist, h.time_le.sublist hs.sublist⟩

theorem Monotone.push {xs : List β} {x : β} (h : Monotone key time xs)
    (hx : ∀ y ∈ xs, time y ≤ time x) : Monotone key time (push key xs x) := by
  have hpre := List.rdropWhile_prefix (fun y => decide (key x < key y)) xs
  refine ⟨?_, ?_⟩
  · refine List.pairwise_append.mpr ⟨h.key_le.sublist hpre.sublist, List.pairwise_singleton _ _, ?_⟩
    intro y hy z hz
    obtain rfl := List.mem_singleton.mp hz
    -- the back that stopped the removal is not above `x`, and the others are not above it
    have hlast := List.rdropWhile_last_not (fun w => decide (key z < key w)) xs
      (List.ne_nil_of_mem hy)
    simp only [decide_eq_true_eq, not_lt] at hlast
    have hback := (h.key_le.sublist hpre.sublist).rel_getLast_of_rel_getLast_getLast hy le_rfl
    exact hback.trans hlast
  · refine List.pairwise_append.mpr
      ⟨h.time_le.sublist hpre.sublist, List.pairwise_singleton _ _, ?_⟩
    intro y hy z hz
    obtain rfl := List.mem_singleton.mp hz
    exact hx y (hpre.subset hy)

/-- In a monotone deque nothing is below the front. -/
theorem Monotone.head_le {x : β} {xs : List β} (h : Monotone key time (x :: xs)) :
    ∀ y ∈ x :: xs, key x ≤ key y := by
  intro y hy
  rcases List.mem_cons.mp hy with rfl | hy
  · exact le_rfl
  · exact (List.pairwise_cons.mp h.key_le).1 y hy

/-! ### Two deques fed with the same elements -/

variable (key time)

theorem rdropWhile_suffix {p : β → Bool} {xs ys : List β} (h : ys <:+ xs) :
    ys.rdropWhile p <:+ xs.rdropWhile p := by
  obtain ⟨pre, rfl⟩ := h
  induction ys using List.reverseRecOn with
  | nil => exact List.nil_suffix
  | append_singleton ys y ih =>
    rw [← List.append_assoc, List.rdropWhile_concat, List.rdropWhile_concat]
    split_ifs
    · exact ih
    · rw [List.append_assoc]
      exact List.suffix_append _ _

/-- A deque that is the back part of another one stays so when both get the same element. -/
theorem push_suffix {xs ys : List β} (h : ys <:+ xs) (x : β) : push key ys x <:+ push key xs x := by
  obtain ⟨t, ht⟩ := rdropWhile_suffix (p := fun y => key x < key y) h
  exact ⟨t, by rw [push, push, ← List.append_assoc, ht]⟩

/-- It also stays so when elements leave it earlier. -/
theorem expire_suffix_expire {limit limit' : τ} (hl : limit ≤ limit') {xs ys : List β}
    (h : ys <:+ xs) : expire time limit' ys <:+ expire time limit xs := by
  fun_induction expire time limit xs generalizing ys with
  | case1 x y xs hold ih =>
    rcases List.suffix_cons_iff.mp h with rfl | h
    · rw [expire, if_pos (hold.trans_le hl)]
      exact ih (List.suffix_refl _)
    · exact ih h
  | case2 => exact (expire_suffix time limit' ys).trans h
  | case3 => exact (expire_suffix time limit' ys).trans h

end CopaNgscope.MonotoneDeque
