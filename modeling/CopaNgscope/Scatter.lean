import Mathlib.Logic.Function.Basic

/-! Accumulating a list of values into an array: each element goes to its own index, where an
operation joins it to what is there. -/
namespace CopaNgscope.Scatter

variable {ι κ α : Type*} [DecidableEq κ]

/-- Add the values `value j` of the elements `js` at their indices `index j`. -/
def scatter (op : α → α → α) (index : ι → κ) (value : ι → α) (js : List ι) (array : κ → α) :
    κ → α :=
  js.foldl (fun f j => Function.update f (index j) (op (f (index j)) (value j))) array

section
variable (op : α → α → α) (index : ι → κ) (value : ι → α)

theorem scatter_cons (j : ι) (js : List ι) (array : κ → α) :
    scatter op index value (j :: js) array = scatter op index value js
      (Function.update array (index j) (op (array (index j)) (value j))) := rfl

/-- What stands at an index afterwards: what stood there, and the values that went there, in
order. -/
theorem scatter_apply (js : List ι) (array : κ → α) (k : κ) :
    scatter op index value js array k =
      ((js.filter (fun j => index j = k)).map value).foldl op (array k) := by
  induction js generalizing array with
  | nil => rfl
  | cons j js ih =>
    rw [scatter_cons, ih]
    by_cases hk : index j = k
    · rw [List.filter_cons_of_pos (by simpa using hk), List.map_cons, List.foldl_cons, hk,
        Function.update_self]
    · rw [List.filter_cons_of_neg (by simpa using hk), Function.update_of_ne (Ne.symm hk)]

end

/-- Several lists one after the other: at each index the values of all of them. -/
theorem foldl_scatter_apply {μ : Type*} (op : α → α → α) (index : μ → ι → κ) (value : μ → ι → α)
    (js : μ → List ι) (is : List μ) (array : κ → α) (k : κ) :
    is.foldl (fun f i => scatter op (index i) (value i) (js i) f) array k =
      (is.flatMap fun i => ((js i).filter (fun j => index i j = k)).map (value i)).foldl op
        (array k) := by
  induction is generalizing array with
  | nil => rfl
  | cons i is ih =>
    rw [List.foldl_cons, ih, scatter_apply, List.flatMap_cons, List.foldl_append]

end CopaNgscope.Scatter
