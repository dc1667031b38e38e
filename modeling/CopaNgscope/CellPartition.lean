import Mathlib.Data.Fintype.Basic
import Mathlib.Logic.Function.Basic
import Mathlib.Order.Defs.LinearOrder

/-! Cells that partition a whole: a point of the whole is in exactly one cell, any other point is
in none. Boxes that are closed below and open above are cut into such cells. -/
namespace CopaNgscope.CellPartition

section
variable {α β γ : Type*} (Mem : α → β → Prop) [DecidableRel Mem]

/-- The cells that a point is in. -/
def cellsAt (a : α) (cells : List β) : List β := cells.filter (fun c => Mem a c)

def Partitions (cells : List β) (whole : β) : Prop :=
  ∀ a, (cellsAt Mem a cells).length = if Mem a whole then 1 else 0

variable {Mem}

theorem mem_cellsAt {a : α} {cells : List β} {c : β} :
    c ∈ cellsAt Mem a cells ↔ c ∈ cells ∧ Mem a c := by
  rw [cellsAt, List.mem_filter, decide_eq_true_iff]

theorem partitions_singleton (whole : β) : Partitions Mem [whole] whole := by
  intro a
  rw [cellsAt, List.filter_singleton]
  by_cases h : Mem a whole
  · rw [decide_eq_true h, if_pos h]
    rfl
  · rw [decide_eq_false h, if_neg h]
    rfl

theorem Partitions.exists_cell {cells : List β} {whole : β} (h : Partitions Mem cells whole) {a : α}
    (ha : Mem a whole) : ∃ c, cellsAt Mem a cells = [c] ∧ c ∈ cells ∧ Mem a c := by
  have hone := h a
  rw [if_pos ha] at hone
  obtain ⟨c, hc⟩ := List.length_eq_one_iff.mp hone
  exact ⟨c, hc, mem_cellsAt.mp (hc ▸ List.mem_singleton.mpr rfl)⟩

/-- The cells of cells: `g` gives the cell of a part, `f` the cells it is partitioned into. -/
theorem length_cellsAt_flatMap {f : γ → List β} {g : γ → β} {parts : List γ}
    (hf : ∀ c ∈ parts, Partitions Mem (f c) (g c)) (a : α) :
    (cellsAt Mem a (parts.flatMap f)).length = (cellsAt Mem a (parts.map g)).length := by
  induction parts with
  | nil => rfl
  | cons c parts ih =>
    obtain ⟨hc, hrest⟩ := List.forall_mem_cons.mp hf
    have hlength : (cellsAt Mem a (f c)).length = if Mem a (g c) then 1 else 0 := hc a
    have htail := ih hrest
    rw [cellsAt] at hlength htail ⊢
    rw [List.flatMap_cons, List.filter_append, List.length_append, hlength, htail, cellsAt, cellsAt,
      List.map_cons, List.filter_cons]
    by_cases hmem : Mem a (g c)
    · rw [if_pos hmem, decide_eq_true hmem, if_pos rfl, List.length_cons, Nat.add_comm]
    · rw [if_neg hmem, decide_eq_false hmem, if_neg (by decide), Nat.zero_add]

theorem Partitions.flatMap {f : γ → List β} {g : γ → β} {parts : List γ} {whole : β}
    (h : Partitions Mem (parts.map g) whole) (hf : ∀ c ∈ parts, Partitions Mem (f c) (g c)) :
    Partitions Mem (parts.flatMap f) whole := by
  intro a
  rw [length_cellsAt_flatMap hf a]
  exact h a

/-- A whole that is cut in two by a property of its points. -/
theorem partitions_cut {whole below above : β} (p : α → Prop)
    (hbelow : ∀ a, Mem a below ↔ Mem a whole ∧ p a)
    (habove : ∀ a, Mem a above ↔ Mem a whole ∧ ¬ p a) :
    Partitions Mem [below, above] whole := by
  intro a
  by_cases hwhole : Mem a whole
  · by_cases hp : p a
    · have h1 : Mem a below := (hbelow a).mpr ⟨hwhole, hp⟩
      have h2 : ¬ Mem a above := fun h => ((habove a).mp h).2 hp
      simp [cellsAt, hwhole, h1, h2]
    · have h1 : ¬ Mem a below := fun h => hp ((hbelow a).mp h).2
      have h2 : Mem a above := (habove a).mpr ⟨hwhole, hp⟩
      simp [cellsAt, hwhole, h1, h2]
  · have h1 : ¬ Mem a below := fun h => hwhole ((hbelow a).mp h).1
    have h2 : ¬ Mem a above := fun h => hwhole ((habove a).mp h).1
    simp [cellsAt, hwhole, h1, h2]

end

/-! ### Boxes -/

/-- A box is closed below and open above in every coordinate. -/
structure Box (ι δ : Type*) where
  lower : ι → δ
  upper : ι → δ

section
variable {ι δ : Type*} [LinearOrder δ]

def Box.Mem (a : ι → δ) (b : Box ι δ) : Prop := ∀ i, b.lower i ≤ a i ∧ a i < b.upper i

variable [DecidableEq ι] {b : Box ι δ} {i : ι} {m : δ}

theorem mem_cut_below (hm : m ≤ b.upper i) (a : ι → δ) :
    Box.Mem a ⟨b.lower, Function.update b.upper i m⟩ ↔ Box.Mem a b ∧ a i < m := by
  change (∀ j, b.lower j ≤ a j ∧ a j < Function.update b.upper i m j) ↔ _
  rw [Function.forall_update_iff b.upper (fun j v => b.lower j ≤ a j ∧ a j < v)]
  constructor
  · rintro ⟨⟨hlower, hi⟩, hrest⟩
    refine ⟨fun j => ?_, hi⟩
    by_cases hj : j = i
    · rw [hj]
      exact ⟨hlower, hi.trans_le hm⟩
    · exact hrest j hj
  · rintro ⟨h, hi⟩
    exact ⟨⟨(h i).1, hi⟩, fun j _ => h j⟩

theorem mem_cut_above (hm : b.lower i ≤ m) (a : ι → δ) :
    Box.Mem a ⟨Function.update b.lower i m, b.upper⟩ ↔ Box.Mem a b ∧ ¬ a i < m := by
  change (∀ j, Function.update b.lower i m j ≤ a j ∧ a j < b.upper j) ↔ _
  rw [Function.forall_update_iff b.lower (fun j v => v ≤ a j ∧ a j < b.upper j), not_lt]
  constructor
  · rintro ⟨⟨hi, hupper⟩, hrest⟩
    refine ⟨fun j => ?_, hi⟩
    by_cases hj : j = i
    · rw [hj]
      exact ⟨hm.trans hi, hupper⟩
    · exact hrest j hj
  · rintro ⟨h, hi⟩
    exact ⟨⟨hi, (h i).2⟩, fun j _ => h j⟩

end

end CopaNgscope.CellPartition
