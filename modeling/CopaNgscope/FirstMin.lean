import Mathlib.Data.List.GetD
import Mathlib.Data.List.Induction
import Mathlib.Order.Lattice
import Mathlib.Order.Monotone.Basic

/-! The first of the least values of a function on an initial segment of the naturals, and the
loop that searches an array for it. -/
namespace CopaNgscope.FirstMin

/-- `c` is the first index below `n` where `d` is least. -/
structure IsFirstMin {α : Type*} [LinearOrder α] (d : ℕ → α) (n c : ℕ) : Prop where
  lt : c < n
  le : ∀ i < n, d c ≤ d i
  first : ∀ i < c, d c < d i

section
variable {α : Type*} [LinearOrder α] {d e : ℕ → α} {n c : ℕ}

theorem IsFirstMin.one (d : ℕ → α) : IsFirstMin d 1 0 := by
  refine ⟨Nat.one_pos, ?_, ?_⟩
  · intro i hi
    rw [Nat.lt_one_iff.mp hi]
  · intro i hi
    exact absurd hi (Nat.not_lt_zero i)

/-- One more value moves the minimum when it is strictly smaller. -/
theorem IsFirstMin.succ (h : IsFirstMin d n c) :
    IsFirstMin d (n+1) (if d n < d c then n else c) := by
  have hlt := h.lt
  split_ifs with hn
  · refine ⟨Nat.lt_succ_self n, ?_, ?_⟩
    · intro i hi
      rcases Nat.lt_succ_iff_lt_or_eq.mp hi with hi | rfl
      · exact (hn.trans_le (h.le i hi)).le
      · exact le_refl _
    · intro i hi
      exact hn.trans_le (h.le i hi)
  · refine ⟨by omega, ?_, h.first⟩
    intro i hi
    rcases Nat.lt_succ_iff_lt_or_eq.mp hi with hi | rfl
    · exact h.le i hi
    · exact not_lt.mp hn

theorem IsFirstMin.unique (h : IsFirstMin d n c) {c' : ℕ} (h' : IsFirstMin d n c') : c = c' := by
  rcases lt_trichotomy c c' with hc | hc | hc
  · exact absurd (h'.first c hc) (not_lt.mpr (h.le c' h'.lt))
  · exact hc
  · exact absurd (h.first c' hc) (not_lt.mpr (h'.le c h.lt))

theorem IsFirstMin.congr (h : IsFirstMin d n c) (hde : ∀ i < n, d i = e i) :
    IsFirstMin e n c := by
  have hc := hde c h.lt
  refine ⟨h.lt, ?_, ?_⟩
  · intro i hi
    rw [← hc, ← hde i hi]
    exact h.le i hi
  · intro i hi
    rw [← hc, ← hde i (hi.trans h.lt)]
    exact h.first i hi

/-- A strictly monotone image has its minimum at the same index. -/
theorem IsFirstMin.of_strictMono {β : Type*} [LinearOrder β] {f : α → β} (hf : StrictMono f)
    (h : IsFirstMin (fun i => f (d i)) n c) : IsFirstMin d n c :=
  ⟨h.lt, fun i hi => hf.le_iff_le.mp (h.le i hi), fun i hi => hf.lt_iff_lt.mp (h.first i hi)⟩

theorem IsFirstMin.map {β : Type*} [LinearOrder β] {f : α → β} (hf : StrictMono f)
    (h : IsFirstMin d n c) : IsFirstMin (fun i => f (d i)) n c :=
  ⟨h.lt, fun i hi => hf.monotone (h.le i hi), fun i hi => hf (h.first i hi)⟩

end

/-! ### Searching an array -/

section
variable {α β σ : Type*} [LinearOrder α] (key : β → α) (zero : β)

theorem getD_append_length (xs : List β) (x : β) : (xs ++ [x]).getD xs.length zero = x := by
  rw [List.getD_append_right _ _ _ _ (le_refl _), Nat.sub_self]
  rfl

theorem IsFirstMin.append_singleton {xs : List β} {c : ℕ}
    (h : IsFirstMin (fun i => key (xs.getD i zero)) xs.length c) (x : β) :
    IsFirstMin (fun i => key ((xs ++ [x]).getD i zero)) (xs ++ [x]).length
      (if key x < key (xs.getD c zero) then xs.length else c) := by
  have hfront : ∀ i < xs.length, (xs ++ [x]).getD i zero = xs.getD i zero :=
    fun i hi => List.getD_append _ _ _ _ hi
  have hmin : IsFirstMin (fun i => key ((xs ++ [x]).getD i zero)) xs.length c :=
    h.congr fun i hi => by rw [hfront i hi]
  have hnext := hmin.succ
  rw [getD_append_length, hfront c h.lt] at hnext
  rw [List.length_append, List.length_singleton]
  exact hnext

/-- The rule for a loop over an array whose first turn takes the element it sees and whose
later turns take those with a strictly smaller key: what it holds at the end belongs to the
first least element. `R s xs c` says that `s` holds what belongs to index `c` of `xs`. -/
theorem foldl_zipIdx_firstMin (step : σ → β × ℕ → σ) (R : σ → List β → ℕ → Prop)
    (s : σ) (hinit : ∀ x, R (step s (x,0)) [x] 0)
    (htake : ∀ s xs x c, c < xs.length → R s xs c → key x < key (xs.getD c zero) →
      R (step s (x,xs.length)) (xs ++ [x]) xs.length)
    (hkeep : ∀ s xs x c, c < xs.length → R s xs c → ¬ key x < key (xs.getD c zero) →
      R (step s (x,xs.length)) (xs ++ [x]) c)
    {xs : List β} (hne : xs ≠ []) :
    ∃ c, IsFirstMin (fun i => key (xs.getD i zero)) xs.length c ∧
      R (xs.zipIdx.foldl step s) xs c := by
  induction xs using List.reverseRecOn with
  | nil => exact absurd rfl hne
  | append_singleton xs x ih =>
    by_cases hxs : xs = []
    · subst hxs
      exact ⟨0, IsFirstMin.one _, hinit x⟩
    · obtain ⟨c, hmin, hR⟩ := ih hxs
      refine ⟨_, hmin.append_singleton key zero x, ?_⟩
      rw [List.zipIdx_append, List.foldl_append, Nat.zero_add]
      split_ifs with hx
      · exact htake _ xs x c hmin.lt hR hx
      · exact hkeep _ xs x c hmin.lt hR hx

/-- The search that keeps the best element so far. -/
theorem foldl_better_firstMin (better : β → β → Bool)
    (hbetter : ∀ a v, better a v = true ↔ key a < key v) {xs : List β} (hne : xs ≠ []) :
    ∃ c, IsFirstMin (fun i => key (xs.getD i zero)) xs.length c ∧
      xs.foldl (fun v a => if better a v then a else v) (xs.headD zero) = xs.getD c zero := by
  induction xs using List.reverseRecOn with
  | nil => exact absurd rfl hne
  | append_singleton xs x ih =>
    by_cases hxs : xs = []
    · subst hxs
      refine ⟨0, IsFirstMin.one _, ?_⟩
      simp
    · obtain ⟨c, hmin, hfold⟩ := ih hxs
      have hhead : (xs ++ [x]).headD zero = xs.headD zero := by
        cases xs with
        | nil => exact absurd rfl hxs
        | cons y ys => rfl
      refine ⟨_, hmin.append_singleton key zero x, ?_⟩
      rw [hhead, List.foldl_append, hfold, List.foldl_cons, List.foldl_nil]
      by_cases hx : key x < key (xs.getD c zero)
      · rw [if_pos hx, if_pos ((hbetter _ _).mpr hx), getD_append_length]
      · rw [if_neg hx, if_neg (fun h => hx ((hbetter _ _).mp h)),
          List.getD_append _ _ _ _ hmin.lt]

end

end CopaNgscope.FirstMin
