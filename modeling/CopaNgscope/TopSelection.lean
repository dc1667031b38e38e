import Mathlib.Data.List.GetD
import Mathlib.Data.List.Induction
import Mathlib.Data.List.Perm.Basic
import Mathlib.Data.List.Sort
import Mathlib.Order.MinMax

/-! Selection of the largest elements: a list in descending order takes in one element after the
other and loses its smallest one each time. What stays is the head of the sorted list. -/
namespace CopaNgscope.TopSelection

variable {α : Type*} [LinearOrder α]

/-- The largest element first. -/
def descending (xs : List α) : List α := xs.mergeSort (· ≥ ·)

theorem perm_descending (xs : List α) : (descending xs).Perm xs := List.mergeSort_perm xs _

@[simp] theorem length_descending (xs : List α) : (descending xs).length = xs.length :=
  (perm_descending xs).length_eq

theorem pairwise_descending (xs : List α) : (descending xs).Pairwise (· ≥ ·) :=
  List.pairwise_mergeSort' (· ≥ ·) xs

/-- A list in descending order is what its elements are sorted to. -/
theorem descending_eq {xs ys : List α} (hperm : ys.Perm xs) (hys : ys.Pairwise (· ≥ ·)) :
    descending xs = ys :=
  ((perm_descending xs).trans hperm.symm).eq_of_pairwise' (pairwise_descending xs) hys

theorem descending_congr {xs ys : List α} (hperm : xs.Perm ys) : descending xs = descending ys :=
  descending_eq ((perm_descending ys).trans hperm.symm) (pairwise_descending ys)

/-! ### One element -/

/-- Going through the list, the larger of the element at hand and the one met stays, and the
smaller one goes on. The result is the list after it, and the element left at the end. -/
def sweep : List α → α → List α × α
  | [], x => ([], x)
  | a :: as, x => (max a x :: (sweep as (min a x)).1, (sweep as (min a x)).2)

theorem length_sweep (as : List α) (x : α) : (sweep as x).1.length = as.length := by
  induction as generalizing x with
  | nil => rfl
  | cons a as ih => rw [sweep, List.length_cons, ih, List.length_cons]

/-- No element is lost. -/
theorem perm_sweep (as : List α) (x : α) : ((sweep as x).1 ++ [(sweep as x).2]).Perm (x :: as) := by
  induction as generalizing x with
  | nil => exact List.Perm.refl _
  | cons a as ih =>
    have hpair : [max a x, min a x].Perm [x, a] := by
      rcases le_total a x with h | h
      · rw [max_eq_right h, min_eq_left h]
      · rw [max_eq_left h, min_eq_right h]
        exact List.Perm.swap x a []
    exact ((ih (min a x)).cons _).trans (hpair.append_right as)

/-- Elements of the list after it come from the list or are the element at hand. -/
theorem mem_sweep {as : List α} {x y : α} (hy : y ∈ (sweep as x).1) : y = x ∨ y ∈ as := by
  have hmem := (perm_sweep as x).mem_iff.mp (List.mem_append_left _ hy)
  exact List.mem_cons.mp hmem

/-- In descending order, the list stays so, and the element left at the end is the smallest. -/
theorem pairwise_sweep {as : List α} (h : as.Pairwise (· ≥ ·)) (x : α) :
    (sweep as x).1.Pairwise (· ≥ ·) ∧ ∀ y ∈ (sweep as x).1, (sweep as x).2 ≤ y := by
  induction as generalizing x with
  | nil => exact ⟨List.Pairwise.nil, fun y hy => absurd hy List.not_mem_nil⟩
  | cons a as ih =>
    obtain ⟨ha, has⟩ := List.pairwise_cons.mp h
    obtain ⟨hpair, hleast⟩ := ih has (min a x)
    -- the larger of the two is above all that come after it
    have hmax : ∀ y ∈ (sweep as (min a x)).1, y ≤ max a x := by
      intro y hy
      rcases mem_sweep hy with rfl | hy
      · exact min_le_max
      · exact (ha y hy).trans (le_max_left a x)
    refine ⟨List.pairwise_cons.mpr ⟨hmax, hpair⟩, fun y hy => ?_⟩
    rcases List.mem_cons.mp hy with rfl | hy
    · -- the element left comes from the rest or is the smaller of the two
      have hlast := (perm_sweep as (min a x)).mem_iff.mp
        (List.mem_append_right _ (List.mem_singleton_self _))
      rcases List.mem_cons.mp hlast with hlast | hlast
      · exact hlast.le.trans min_le_max
      · exact (ha _ hlast).trans (le_max_left a x)
    · exact hleast y hy

/-! ### All elements -/

/-- The list after all of `xs` have gone through it, one after the other. -/
def select (as xs : List α) : List α := xs.foldl (fun as x => (sweep as x).1) as

theorem select_concat (as xs : List α) (x : α) :
    select as (xs ++ [x]) = (sweep (select as xs) x).1 := by
  rw [select, List.foldl_append]
  rfl

/-- What was below the whole list stays below it. -/
theorem le_sweep {as : List α} (h : as.Pairwise (· ≥ ·)) {x z : α} (hz : ∀ y ∈ as, z ≤ y) :
    ∀ y ∈ (sweep as x).1, z ≤ y := by
  intro y hy
  have hperm := List.perm_append_comm.trans (perm_sweep as x)
  rcases List.mem_cons.mp (hperm.mem_iff.mp List.mem_cons_self) with hlast | hlast
  · -- nothing has changed
    rw [List.singleton_append, hlast] at hperm
    exact hz y (hperm.cons_inv.mem_iff.mp hy)
  · exact (hz _ hlast).trans ((pairwise_sweep h x).2 y hy)

/-- Of the elements that went in, the list holds the largest ones in descending order. -/
theorem select_eq_take {as : List α} (h : as.Pairwise (· ≥ ·)) (xs : List α) :
    select as xs = (descending (xs ++ as)).take as.length := by
  have hinv : ∃ rest, (select as xs ++ rest).Perm (xs ++ as) ∧
      (select as xs).Pairwise (· ≥ ·) ∧ (∀ z ∈ rest, ∀ y ∈ select as xs, z ≤ y) ∧
      (select as xs).length = as.length := by
    induction xs using List.reverseRecOn with
    | nil => exact ⟨[], by simp [select], h, by simp, rfl⟩
    | append_singleton xs x ih =>
      obtain ⟨rest, hperm, hpair, hbelow, hlen⟩ := ih
      obtain ⟨hpair', hleast⟩ := pairwise_sweep hpair x
      rw [select_concat]
      refine ⟨(sweep (select as xs) x).2 :: rest, ?_, hpair', ?_, ?_⟩
      · rw [List.append_cons, List.append_assoc xs]
        calc ((sweep (select as xs) x).1 ++ [(sweep (select as xs) x).2] ++ rest).Perm
              (x :: (select as xs ++ rest)) := (perm_sweep _ x).append_right rest
          List.Perm _ (x :: (xs ++ as)) := hperm.cons x
          List.Perm _ (xs ++ ([x] ++ as)) := List.perm_middle.symm
      · intro z hz
        rcases List.mem_cons.mp hz with rfl | hz
        · exact hleast
        · exact le_sweep hpair (hbelow z hz)
      · rw [length_sweep, hlen]
  obtain ⟨rest, hperm, hpair, hbelow, hlen⟩ := hinv
  -- what was left over at the end goes behind the list
  have hall : descending (xs ++ as) = select as xs ++ descending rest := by
    refine descending_eq ?_ ?_
    · exact ((perm_descending rest).append_left _).trans hperm
    · refine List.pairwise_append.mpr ⟨hpair, pairwise_descending rest, fun y hy z hz => ?_⟩
      exact hbelow z ((perm_descending rest).mem_iff.mp hz) y hy
  rw [hall, ← hlen, List.take_left]

theorem length_select {as : List α} (h : as.Pairwise (· ≥ ·)) (xs : List α) :
    (select as xs).length = as.length := by
  rw [select_eq_take h, List.length_take, length_descending, List.length_append]
  omega

theorem pairwise_select {as : List α} (h : as.Pairwise (· ≥ ·)) (xs : List α) :
    (select as xs).Pairwise (· ≥ ·) := by
  rw [select_eq_take h]
  exact (pairwise_descending _).sublist (List.take_sublist _ _)

/-- One more element at the end of the list: what is left so far meets it. -/
theorem sweep_concat (as : List α) (a x : α) :
    sweep (as ++ [a]) x = ((sweep as x).1 ++ [max a (sweep as x).2], min a (sweep as x).2) := by
  induction as generalizing x with
  | nil => rfl
  | cons b as ih => rw [List.cons_append, sweep, ih, sweep, List.cons_append]

/-! ### Ranks -/

/-- The element of rank `r` from the largest one, counted from 1. -/
def rank [Inhabited α] (xs : List α) (r : ℕ) : α := (descending xs).getD (r-1) default

/-- Starting from sentinels that no element is below, the largest ones stay, and sentinels where
there are too few. -/
theorem select_replicate {bot : α} {xs : List α} (hbot : ∀ x ∈ xs, bot ≤ x) (n : ℕ) :
    select (List.replicate n bot) xs = (descending xs ++ List.replicate n bot).take n := by
  have hconst : (List.replicate n bot).Pairwise (· ≥ ·) :=
    List.pairwise_replicate.mpr (Or.inr le_rfl)
  have hall : descending (xs ++ List.replicate n bot) =
      descending xs ++ List.replicate n bot := by
    refine descending_eq ((perm_descending xs).append_right _) ?_
    refine List.pairwise_append.mpr ⟨pairwise_descending xs, hconst, fun y hy z hz => ?_⟩
    rw [List.eq_of_mem_replicate hz]
    exact hbot y ((perm_descending xs).mem_iff.mp hy)
  rw [select_eq_take hconst, hall, List.length_replicate]

section
variable [Inhabited α] {bot : α} {xs : List α} (hbot : ∀ x ∈ xs, bot ≤ x) {n : ℕ}
include hbot

/-- The last place holds the element of the rank that the list is long. -/
theorem getD_select_of_le (hn : 1 ≤ n) (hle : n ≤ xs.length) :
    (select (List.replicate n bot) xs).getD (n-1) default = rank xs n := by
  rw [select_replicate hbot, rank, List.take_append_of_le_length (by rwa [length_descending]),
    List.getD_eq_getElem?_getD, List.getD_eq_getElem?_getD, List.getElem?_take_of_lt (by omega)]

/-- With too few elements the last place still holds the sentinel. -/
theorem getD_select_of_lt (hlt : xs.length < n) :
    (select (List.replicate n bot) xs).getD (n-1) default = bot := by
  rw [select_replicate hbot, List.getD_eq_getElem?_getD, List.getElem?_take_of_lt (by omega),
    List.getElem?_append_right (by rw [length_descending]; omega), length_descending,
    List.getElem?_replicate_of_lt (by omega), Option.getD_some]

end

/-! ### Repeated elements -/

omit [LinearOrder α] in
theorem getD_flatMap_replicate (xs : List α) {m : ℕ} (hm : 0 < m) (i : ℕ) (z : α) :
    (xs.flatMap (List.replicate m)).getD i z = xs.getD (i/m) z := by
  induction xs generalizing i with
  | nil => simp
  | cons x xs ih =>
    rw [List.flatMap_cons]
    rcases Nat.lt_or_ge i m with hlt | hge
    · rw [List.getD_append _ _ _ _ (by rwa [List.length_replicate]), Nat.div_eq_of_lt hlt]
      simp [List.getD_eq_getElem?_getD, hlt]
    · rw [List.getD_append_right _ _ _ _ (by rwa [List.length_replicate]), List.length_replicate,
        ih, show i/m = (i-m)/m+1 from ?_, List.getD_cons_succ]
      rw [← Nat.add_div_right _ hm, Nat.sub_add_cancel hge]

theorem rank_congr [Inhabited α] {xs ys : List α} (hperm : xs.Perm ys) (r : ℕ) :
    rank xs r = rank ys r := by
  rw [rank, rank, descending_congr hperm]

theorem rank_mem [Inhabited α] {xs : List α} {r : ℕ} (hr : 1 ≤ r) (hle : r ≤ xs.length) :
    rank xs r ∈ xs := by
  have hlt : r-1 < (descending xs).length := by
    rw [length_descending]
    omega
  rw [rank, List.getD_eq_getElem _ _ hlt]
  exact (perm_descending xs).mem_iff.mp (List.getElem_mem hlt)

/-- With every element there `m` times, `m` ranks each fall on one element. -/
theorem rank_flatMap_replicate [Inhabited α] (xs : List α) {m : ℕ} (hm : 0 < m) (r : ℕ) :
    rank (xs.flatMap (List.replicate m)) r = rank xs ((r-1)/m+1) := by
  have hall : descending (xs.flatMap (List.replicate m)) =
      (descending xs).flatMap (List.replicate m) := by
    refine descending_eq ((perm_descending xs).flatMap_right _) ?_
    refine List.pairwise_flatMap.mpr ⟨fun x _ => ?_, ?_⟩
    · exact List.pairwise_replicate.mpr (Or.inr le_rfl)
    · refine (pairwise_descending xs).imp (fun {a b} hab y hy z hz => ?_)
      rwa [List.eq_of_mem_replicate hy, List.eq_of_mem_replicate hz]
  rw [rank, hall, getD_flatMap_replicate _ hm, rank, Nat.add_sub_cancel]

end CopaNgscope.TopSelection
