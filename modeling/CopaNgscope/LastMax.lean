import Mathlib.Data.List.Basic
import Mathlib.Order.Lattice

/-! The last of the greatest elements of a list, among those with a property, and how a search
through one list goes on in the next. -/
namespace CopaNgscope.LastMax

variable {α β : Type*} [LinearOrder β] (p : α → Prop) (key : α → β)

/-- `r` is the last of the greatest elements of `xs` with the property, if there is one. -/
inductive IsLastMax (xs : List α) : Option α → Prop
  | absent (h : ∀ y ∈ xs, ¬ p y) : IsLastMax xs none
  | found {x : α} (before after : List α) (split : xs = before ++ x :: after) (hx : p x)
      (hbefore : ∀ y ∈ before, p y → key y ≤ key x)
      (hafter : ∀ y ∈ after, p y → key y < key x) : IsLastMax xs (some x)

/-- What is found later wins if it is at least as great. -/
def later (r : Option α) : Option α → Option α
  | none => r
  | some y => if ∃ x ∈ r, key y < key x then r else some y

variable {p key} {xs ys : List α} {r q : Option α}

theorem IsLastMax.singleton (x : α) [Decidable (p x)] :
    IsLastMax p key [x] (if p x then some x else none) := by
  split_ifs with hx
  · exact .found [] [] rfl hx (fun y hy => absurd hy List.not_mem_nil)
      (fun y hy => absurd hy List.not_mem_nil)
  · apply IsLastMax.absent
    intro y hy
    rw [List.mem_singleton.mp hy]
    exact hx

/-- Everything with the property is at most the greatest. -/
theorem IsLastMax.le {x y : α} (h : IsLastMax p key xs (some x)) (hy : y ∈ xs) (hp : p y) :
    key y ≤ key x := by
  cases h with
  | found before after split hx hbefore hafter =>
    rw [split] at hy
    rcases List.mem_append.mp hy with hy | hy
    · exact hbefore y hy hp
    rcases List.mem_cons.mp hy with rfl | hy
    · exact le_rfl
    · exact (hafter y hy hp).le

theorem IsLastMax.append (h : IsLastMax p key xs r) (h' : IsLastMax p key ys q) :
    IsLastMax p key (xs ++ ys) (later key r q) := by
  have hle : ∀ x ∈ r, ∀ z ∈ xs, p z → key z ≤ key x := by
    intro x hx z hz hp
    rw [Option.mem_def.mp hx] at h
    exact h.le hz hp
  cases h' with
  | absent hys =>
    rw [later]
    cases h with
    | absent hxs =>
      apply IsLastMax.absent
      intro y hy
      exact (List.mem_append.mp hy).elim (hxs y) (hys y)
    | @found x before after split hx hbefore hafter =>
      refine .found before (after ++ ys) ?_ hx hbefore ?_
      · rw [split, List.append_assoc, List.cons_append]
      · intro y hy hp
        rcases List.mem_append.mp hy with hy | hy
        · exact hafter y hy hp
        · exact absurd hp (hys y hy)
  | @found y before after split hy hbefore hafter =>
    rw [later]
    split_ifs with hlater
    · -- the element found before is greater
      obtain ⟨x, hxr, hlt⟩ := hlater
      rw [Option.mem_def.mp hxr] at h ⊢
      cases h with
      | @found x pre post hsplit hx hpre hpost =>
        refine .found pre (post ++ ys) ?_ hx hpre ?_
        · rw [hsplit, List.append_assoc, List.cons_append]
        · intro z hz hp
          rcases List.mem_append.mp hz with hz | hz
          · exact hpost z hz hp
          · exact ((IsLastMax.found before after split hy hbefore hafter).le hz hp).trans_lt hlt
    · refine .found (xs ++ before) after ?_ hy ?_ hafter
      · rw [split, List.append_assoc]
      · intro z hz hp
        rcases List.mem_append.mp hz with hz | hz
        · -- all before it are at most what was found there
          cases h with
          | absent hxs => exact absurd hp (hxs z hz)
          | @found x pre post hsplit hx hpre hpost =>
            have hxy : key x ≤ key y :=
              not_lt.mp (fun hlt => hlater ⟨x, Option.mem_some_self x, hlt⟩)
            exact (hle x (Option.mem_some_self x) z hz hp).trans hxy
        · exact hbefore z hz hp

theorem IsLastMax.map {γ : Type*} {p' : γ → Prop} {key' : γ → β} {f : α → γ}
    (h : IsLastMax p key xs r) (hp : ∀ y ∈ xs, (p y ↔ p' (f y)))
    (hkey : ∀ y ∈ xs, key y = key' (f y)) : IsLastMax p' key' (xs.map f) (r.map f) := by
  cases h with
  | absent hxs =>
    apply IsLastMax.absent
    intro z hz
    obtain ⟨y, hy, rfl⟩ := List.mem_map.mp hz
    exact fun hpy => hxs y hy ((hp y hy).mpr hpy)
  | @found x before after split hx hbefore hafter =>
    subst split
    have hmem : x ∈ before ++ x :: after := List.mem_append_right _ List.mem_cons_self
    refine .found (before.map f) (after.map f) ?_ ((hp x hmem).mp hx) ?_ ?_
    · rw [List.map_append, List.map_cons]
    · intro z hz hpz
      obtain ⟨y, hy, rfl⟩ := List.mem_map.mp hz
      have hymem := List.mem_append_left (x :: after) hy
      rw [← hkey y hymem, ← hkey x hmem]
      exact hbefore y hy ((hp y hymem).mpr hpz)
    · intro z hz hpz
      obtain ⟨y, hy, rfl⟩ := List.mem_map.mp hz
      have hymem := List.mem_append_right before (List.mem_cons_of_mem x hy)
      rw [← hkey y hymem, ← hkey x hmem]
      exact hafter y hy ((hp y hymem).mpr hpz)

end CopaNgscope.LastMax
