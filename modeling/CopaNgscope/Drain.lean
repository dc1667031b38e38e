import Mathlib.Algebra.BigOperators.Group.List.Basic
import Mathlib.Algebra.GroupWithZero.Nat
import Mathlib.Data.List.Infix

/-! Draining an amount by a sequence of elements, each of which takes its size: the shortest part
of the sequence that takes it all, or the whole sequence. -/
namespace CopaNgscope.Drain

variable {α : Type*} (size : α → ℕ)

def total (xs : List α) : ℕ := (xs.map size).sum

@[simp] theorem total_nil : total size [] = 0 := rfl

@[simp] theorem total_cons (x : α) (xs : List α) :
    total size (x :: xs) = size x+total size xs := by
  rw [total, List.map_cons, List.sum_cons, total]

theorem total_append (xs ys : List α) : total size (xs ++ ys) = total size xs+total size ys := by
  rw [total, List.map_append, List.sum_append, total, total]

/-- `xs` is the shortest prefix of `us` that reaches the amount, or all of `us` if none does. -/
structure Drains (amount : ℤ) (us xs : List α) : Prop where
  isPrefix : xs <+: us
  shortest : amount ≤ total size xs → ∀ ys, ys <+: us → amount ≤ total size ys → xs <+: ys
  all : total size xs < amount → xs = us

variable {size} {amount : ℤ} {u : α} {us xs : List α}

theorem Drains.nil : Drains size amount [] [] where
  isPrefix := List.prefix_refl _
  shortest := fun _ _ _ _ => List.nil_prefix
  all := fun _ => rfl

/-- An element that takes all that is left is the last one. -/
theorem Drains.last (hpos : 0 < amount) (hu : amount ≤ size u) :
    Drains size amount (u :: us) [u] := by
  refine ⟨List.prefix_append [u] us, ?_, ?_⟩
  · intro _ ys hys hamount
    cases ys with
    | nil =>
      rw [total_nil] at hamount
      exact absurd hpos (by omega)
    | cons y ys =>
      obtain ⟨rfl, _⟩ := List.cons_prefix_cons.mp hys
      exact List.prefix_append [y] ys
  · intro hlt
    rw [total_cons, total_nil] at hlt
    omega

/-- Otherwise the rest is taken by the elements after it. -/
theorem Drains.cons (hu : size u < amount) (h : Drains size (amount-size u) us xs) :
    Drains size amount (u :: us) (u :: xs) := by
  refine ⟨List.cons_prefix_cons.mpr ⟨rfl, h.isPrefix⟩, ?_, ?_⟩
  · intro hamount ys hys hys'
    rw [total_cons] at hamount
    cases ys with
    | nil =>
      rw [total_nil] at hys'
      exact absurd hys' (by omega)
    | cons y ys =>
      obtain ⟨rfl, hrest⟩ := List.cons_prefix_cons.mp hys
      rw [total_cons] at hys'
      have hshortest := h.shortest (by omega) ys hrest (by omega)
      exact List.cons_prefix_cons.mpr ⟨rfl, hshortest⟩
  · intro hlt
    rw [total_cons] at hlt
    rw [h.all (by omega)]

/-- Only the sizes of the elements at hand matter. -/
theorem total_congr {size' : α → ℕ} (h : ∀ x ∈ xs, size x = size' x) :
    total size xs = total size' xs := by
  rw [total, total, List.map_congr_left h]

theorem Drains.congr {size' : α → ℕ} (h : Drains size amount us xs)
    (hsize : ∀ x ∈ us, size x = size' x) : Drains size' amount us xs := by
  have hprefix : ∀ ys, ys <+: us → total size ys = total size' ys := by
    intro ys hys
    exact total_congr fun x hx => hsize x (hys.subset hx)
  refine ⟨h.isPrefix, ?_, ?_⟩
  · intro hamount ys hys hys'
    rw [← hprefix xs h.isPrefix] at hamount
    rw [← hprefix ys hys] at hys'
    exact h.shortest hamount ys hys hys'
  · intro hlt
    rw [← hprefix xs h.isPrefix] at hlt
    exact h.all hlt

/-- What takes it all takes too much by less than one of its elements. -/
theorem Drains.total_le (h : Drains size amount us xs) (hpos : 0 < amount) {most : ℕ}
    (hmost : ∀ x ∈ us, size x ≤ most) : (total size xs:ℤ) ≤ amount+(most-1 : ℕ) := by
  by_contra hnot
  cases hxs : xs using List.reverseRecOn with
  | nil =>
    rw [hxs, total_nil] at hnot
    omega
  | append_singleton ys x =>
    have hx : size x ≤ most := by
      apply hmost
      apply h.isPrefix.subset
      rw [hxs]
      exact List.mem_append_right _ (List.mem_singleton_self x)
    have htotal : total size xs = total size ys+size x := by
      rw [hxs, total_append, total_cons, total_nil, Nat.add_zero]
    -- without its last element it takes it all already
    have hshort := h.shortest (by omega) ys
      ((List.prefix_append ys [x]).trans (hxs ▸ h.isPrefix)) (by omega)
    rw [hxs] at hshort
    have hlength := hshort.length_le
    rw [List.length_append, List.length_singleton] at hlength
    omega

end CopaNgscope.Drain
