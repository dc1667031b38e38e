import Mathlib.Data.List.Pairwise
import Mathlib.Data.List.Sort

/-! Sorting by a comparator that returns a number below, equal to or above 0, where only the
contract of the sort is known. Elements that compare equal may come out in any order, and a
comparator that contradicts itself leaves everything open. -/
namespace CopaNgscope.ComparatorSort

variable {α : Type*}

/-- The comparator orders the elements of the list: the signs of the two directions are opposite,
and what is not above what is not above is not above. -/
def Consistent (cmp : α → α → ℤ) (xs : List α) : Prop :=
  (∀ a ∈ xs, ∀ b ∈ xs, 0 < cmp a b ↔ cmp b a < 0) ∧
    ∀ a ∈ xs, ∀ b ∈ xs, ∀ c ∈ xs, cmp a b ≤ 0 → cmp b c ≤ 0 → cmp a c ≤ 0

instance (cmp : α → α → ℤ) (xs : List α) : Decidable (Consistent cmp xs) :=
  inferInstanceAs (Decidable (_ ∧ _))

/-- Between elements that compare equal all compare equal. -/
theorem Consistent.eq_zero_between {cmp : α → α → ℤ} {xs : List α} (h : Consistent cmp xs)
    {a b c : α} (ha : a ∈ xs) (hb : b ∈ xs) (hc : c ∈ xs) (hab : cmp a b ≤ 0) (hbc : cmp b c ≤ 0)
    (hac : cmp a c = 0) : cmp a b = 0 ∧ cmp b c = 0 := by
  obtain ⟨hswap, htrans⟩ := h
  -- c is not above a either, which closes the circle
  have hca := hswap c hc a ha
  have hba := htrans b hb c hc a ha hbc (by omega)
  have hcb := htrans c hc a ha b hb (by omega) hab
  have hab' := hswap b hb a ha
  have hbc' := hswap c hc b hb
  omega

/-- The contract. -/
def Sorts (sort : (α → α → ℤ) → List α → List α) : Prop :=
  ∀ cmp xs, Consistent cmp xs →
    (sort cmp xs).Perm xs ∧ (sort cmp xs).Pairwise (fun a b => cmp a b ≤ 0)

/-! ### Two sorts that keep it -/

/-- It is enough that the elements of the list are ordered. -/
theorem pairwise_mergeSort_of_mem (le : α → α → Bool) (xs : List α)
    (htrans : ∀ a ∈ xs, ∀ b ∈ xs, ∀ c ∈ xs, le a b → le b c → le a c)
    (htotal : ∀ a ∈ xs, ∀ b ∈ xs, le a b ∨ le b a) :
    (xs.mergeSort le).Pairwise (fun a b => le a b) := by
  -- the order holds on the elements of the list, so they are taken as a type
  let le' : {x // x ∈ xs} → {x // x ∈ xs} → Bool := fun a b => le a.1 b.1
  have hpair : (xs.attach.mergeSort le').Pairwise (fun a b => le' a b) := by
    refine List.pairwise_mergeSort ?_ ?_ xs.attach
    · intro a b c hab hbc
      exact htrans a.1 a.2 b.1 b.2 c.1 c.2 hab hbc
    · intro a b
      rw [Bool.or_eq_true]
      exact htotal a.1 a.2 b.1 b.2
  have hmap : (xs.attach.mergeSort le').map Subtype.val = xs.mergeSort le := by
    rw [List.map_mergeSort (s := le) (fun _ _ _ _ => rfl), List.attach_map_subtype_val]
  rw [← hmap, List.pairwise_map]
  exact hpair

/-- The merge sort, which keeps elements that compare equal in their order. -/
def merging (cmp : α → α → ℤ) (xs : List α) : List α :=
  xs.mergeSort (fun a b => cmp a b ≤ 0)

theorem sorts_merging : @Sorts α merging := by
  intro cmp xs ⟨hswap, htrans⟩
  have hpair := pairwise_mergeSort_of_mem (fun a b => cmp a b ≤ 0) xs
    (by simpa using htrans) ?_
  · refine ⟨List.mergeSort_perm xs _, hpair.imp ?_⟩
    intro a b h
    exact of_decide_eq_true h
  · intro a ha b hb
    have := hswap a ha b hb
    simp only [decide_eq_true_eq]
    omega

variable {β : Type*} [LinearOrder β] (key : α → β)

/-- Elements that compare equal come out in descending order of the key, and so does everything if
the comparator contradicts itself. -/
def contrary (cmp : α → α → ℤ) (xs : List α) : List α :=
  if Consistent cmp xs then xs.mergeSort (fun a b => cmp a b < 0 ∨ cmp a b = 0 ∧ key b ≤ key a)
  else xs.mergeSort (fun a b => key b ≤ key a)

theorem pairwise_contrary {cmp : α → α → ℤ} {xs : List α} (h : Consistent cmp xs) :
    (contrary key cmp xs).Pairwise (fun a b => cmp a b < 0 ∨ cmp a b = 0 ∧ key b ≤ key a) := by
  obtain ⟨hswap, htrans⟩ := h
  let le : α → α → Bool := fun a b => cmp a b < 0 ∨ cmp a b = 0 ∧ key b ≤ key a
  have hpair := pairwise_mergeSort_of_mem le xs ?_ ?_
  · rw [contrary, if_pos ⟨hswap, htrans⟩]
    exact hpair.imp (fun h => of_decide_eq_true h)
  · simp only [le, decide_eq_true_eq]
    intro a ha b hb c hc hab hbc
    have hac := htrans a ha b hb c hc (by omega) (by omega)
    rcases hac.lt_or_eq with hlt | heq
    · exact Or.inl hlt
    · obtain ⟨heqab, heqbc⟩ :=
        Consistent.eq_zero_between ⟨hswap, htrans⟩ ha hb hc (by omega) (by omega) heq
      refine Or.inr ⟨heq, le_trans (b := key b) ?_ ?_⟩
      · exact (hbc.resolve_left (by omega)).2
      · exact (hab.resolve_left (by omega)).2
  · intro a ha b hb
    have hab := hswap a ha b hb
    have hba := hswap b hb a ha
    simp only [le, decide_eq_true_eq]
    rcases lt_trichotomy (cmp a b) 0 with hneg | hzero | hpos
    · exact Or.inl (Or.inl hneg)
    · have hzero' : cmp b a = 0 := by omega
      exact (le_total (key b) (key a)).imp (fun h => Or.inr ⟨hzero, h⟩)
        (fun h => Or.inr ⟨hzero', h⟩)
    · exact Or.inr (Or.inl (hab.mp hpos))

theorem pairwise_contrary_of_not {cmp : α → α → ℤ} {xs : List α} (h : ¬Consistent cmp xs) :
    (contrary key cmp xs).Pairwise (fun a b => key b ≤ key a) := by
  rw [contrary, if_neg h]
  refine (pairwise_mergeSort_of_mem (fun a b => key b ≤ key a) xs ?_ ?_).imp ?_
  · simp only [decide_eq_true_eq]
    intro a _ b _ c _ hab hbc
    exact hbc.trans hab
  · simp only [decide_eq_true_eq]
    intro a _ b _
    exact le_total (key b) (key a)
  · intro a b h
    exact of_decide_eq_true h

theorem sorts_contrary : Sorts (contrary key) := by
  intro cmp xs h
  refine ⟨?_, (pairwise_contrary key h).imp (by omega)⟩
  rw [contrary, if_pos h]
  exact List.mergeSort_perm xs _

/-! ### Ascending order -/

variable {key}

/-- In ascending order the smaller element stands first. -/
theorem rel_of_lt {r : α → α → Prop} {xs : List α} (hpair : xs.Pairwise r)
    (hle : xs.Pairwise fun a b => key a ≤ key b) {a b : α} (ha : a ∈ xs) (hb : b ∈ xs)
    (hlt : key a < key b) : r a b := by
  have hforth : xs.Pairwise (fun x y => key x < key y → r x y) := by
    refine hpair.imp ?_
    intro x y h _
    exact h
  have hback : xs.Pairwise (flip fun x y => key x < key y → r x y) := by
    refine hle.imp ?_
    intro x y h hlt
    exact absurd h (not_le.mpr hlt)
  exact hforth.forall_of_forall_of_flip (fun x _ h => absurd h (lt_irrefl _)) hback ha hb hlt

variable (key)

/-- The comparator tells the order of any two elements with different keys. -/
def Agrees (cmp : α → α → ℤ) (xs : List α) : Prop :=
  ∀ a ∈ xs, ∀ b ∈ xs, key a < key b → cmp a b < 0 ∧ 0 < cmp b a

variable {key}

section
variable {cmp : α → α → ℤ} (hself : ∀ a b, key a = key b → cmp a b = 0) {xs : List α}
include hself

theorem Agrees.le_zero_iff (h : Agrees key cmp xs) {a b : α} (ha : a ∈ xs) (hb : b ∈ xs) :
    cmp a b ≤ 0 ↔ key a ≤ key b := by
  rcases lt_trichotomy (key a) (key b) with hlt | heq | hlt
  · exact iff_of_true (h a ha b hb hlt).1.le hlt.le
  · exact iff_of_true (hself a b heq).le heq.le
  · exact iff_of_false (not_le.mpr (h b hb a ha hlt).2) (not_le.mpr hlt)

theorem Agrees.consistent (h : Agrees key cmp xs) : Consistent cmp xs := by
  refine ⟨fun a ha b hb => ?_, fun a ha b hb c hc => ?_⟩
  · rcases lt_trichotomy (key a) (key b) with hlt | heq | hlt
    · have := h a ha b hb hlt
      omega
    · rw [hself a b heq, hself b a heq.symm]
    · have := h b hb a ha hlt
      omega
  · rw [h.le_zero_iff hself ha hb, h.le_zero_iff hself hb hc, h.le_zero_iff hself ha hc]
    exact le_trans

/-- Every sort that keeps the contract gives ascending order exactly if the comparator tells the
order of the elements. -/
theorem ascending_iff :
    (∀ sort, Sorts sort →
      (sort cmp xs).Perm xs ∧ (sort cmp xs).Pairwise (fun a b => key a ≤ key b)) ↔
      Agrees key cmp xs := by
  constructor
  · intro h a ha b hb hlt
    obtain ⟨hperm, hle⟩ := h (contrary key) (sorts_contrary key)
    have ha' := hperm.mem_iff.mpr ha
    have hb' := hperm.mem_iff.mpr hb
    by_cases hcons : Consistent cmp xs
    · have hfirst := rel_of_lt (pairwise_contrary key hcons) hle ha' hb' hlt
      have hneg : cmp a b < 0 := by
        rcases hfirst with hneg | ⟨_, hba⟩
        · exact hneg
        · exact absurd hba (not_le.mpr hlt)
      exact ⟨hneg, (hcons.1 b hb a ha).mpr hneg⟩
    · -- ascending and descending at once
      have hdesc := pairwise_contrary_of_not key hcons
      exact absurd (rel_of_lt hdesc hle ha' hb' hlt) (not_le.mpr hlt)
  · intro h sort hsort
    obtain ⟨hperm, hpair⟩ := hsort cmp xs (h.consistent hself)
    refine ⟨hperm, hpair.imp_of_mem ?_⟩
    intro a b ha hb hab
    exact (h.le_zero_iff hself (hperm.mem_iff.mp ha) (hperm.mem_iff.mp hb)).mp hab

end

end CopaNgscope.ComparatorSort
