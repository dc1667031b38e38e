import CopaNgscope.Memory

/-! The rules of `RemyCC`: `whisker.hh`, `whisker.cc`, `whiskertree.hh` and `whiskertree.cc`. The
leaves of a tree that grows by bisection partition the space of memories. -/
namespace CopaNgscope
open CellPartition MemoryRange

structure Whisker where
  generation : UInt32
  windowIncrement : ℤ
  windowMultiple : ℚ
  intersend : ℚ
  domain : MemoryRange
deriving DecidableEq

/-- The constructor with the default values of `get_optimizer`. -/
def whiskerOf (domain : MemoryRange) : Whisker := ⟨0, 1, 1, 3, domain⟩

namespace Whisker

def bisect (w : Whisker) (median : ℕ → ℚ) : Option (List Whisker) :=
  (w.domain.bisect median).map fun ret => ret.map fun x => { w with domain := x }

/-- The conversion to `int` cuts off the fraction. -/
def window (w : Whisker) (previousWindow : ℤ) : ℤ :=
  let v : ℚ := previousWindow*w.windowMultiple+w.windowIncrement
  min (max 0 (Int.tdiv v.num v.den)) 1000000

end Whisker

/-- A node has either one whisker or children. -/
inductive WhiskerTree
  | leaf (domain : MemoryRange) (whisker : Whisker)
  | interior (domain : MemoryRange) (children : List WhiskerTree)

namespace WhiskerTree

def domain : WhiskerTree → MemoryRange
  | .leaf domain _ => domain
  | .interior domain _ => domain

/-- The constructor without arguments. -/
def root : WhiskerTree := .leaf ⟨memory, maxMemory⟩ (whiskerOf ⟨memory, maxMemory⟩)

/-- The constructor from a whisker; `none` is a failed assertion. -/
def ofWhisker (whisker : Whisker) (bisect : Bool) (median : ℕ → ℚ) : Option WhiskerTree :=
  if bisect then
    (whisker.bisect median).map fun ret =>
      .interior whisker.domain (ret.map fun x => .leaf x.domain x)
  else some (.leaf whisker.domain whisker)

mutual

/-- The whisker for a memory, or a null pointer; `none` is a failed assertion. -/
def whisker : WhiskerTree → Memory → Option (Option Whisker)
  | .leaf domain w, m => some (if domain.Contains m then some w else none)
  | .interior domain children, m =>
    if domain.Contains m then whiskerIn children m else some none

/-- The loop over the children. -/
def whiskerIn : List WhiskerTree → Memory → Option (Option Whisker)
  -- assert( false ) after the loop
  | [], _ => none
  | x :: xs, m => (x.whisker m).bind fun ret =>
    match ret with
    | some w => some (some w)
    | none => whiskerIn xs m

end

/-- `none` is a failed assertion or, without a whisker, the end of the process. -/
def useWhisker (t : WhiskerTree) (m : Memory) : Option Whisker := (t.whisker m).bind id

mutual

/-- Whether the leaf was found, and the tree after it; `none` is a failed assertion. -/
def replace (src : Whisker) (dst : WhiskerTree) : WhiskerTree → Option (Bool × WhiskerTree)
  | .leaf domain w =>
    -- the leaf is found by the middle of its range
    if ¬ domain.Contains src.domain.rangeMedian then some (false, .leaf domain w)
    else if src.domain.Same w.domain then some (true, dst)
    else none
  | .interior domain children =>
    if ¬ domain.Contains src.domain.rangeMedian then some (false, .interior domain children)
    else (replaceIn src dst children).map fun children' => (true, .interior domain children')

/-- The loop over the children, one of which has the leaf. -/
def replaceIn (src : Whisker) (dst : WhiskerTree) : List WhiskerTree → Option (List WhiskerTree)
  | [] => none
  | x :: xs => (replace src dst x).bind fun r =>
    if r.1 then some (r.2 :: xs) else (replaceIn src dst xs).map fun xs' => x :: xs'

end

mutual

def leaves : WhiskerTree → List Whisker
  | .leaf _ w => [w]
  | .interior _ children => leavesIn children

def leavesIn : List WhiskerTree → List Whisker
  | [] => []
  | x :: xs => x.leaves ++ leavesIn xs

end

@[elab_as_elim] theorem induct {motive : WhiskerTree → Prop}
    (leaf : ∀ domain w, motive (.leaf domain w))
    (interior : ∀ domain children, (∀ c ∈ children, motive c) →
      motive (.interior domain children)) (t : WhiskerTree) : motive t :=
  match t with
  | .leaf domain w => leaf domain w
  | .interior domain children => interior domain children (fun c _ => induct leaf interior c)

/-- The trees that grow from the root when leaves are replaced by what they are bisected into. -/
inductive Grown : WhiskerTree → Prop
  | root : Grown root
  | replace {t t' dst : WhiskerTree} {w : Whisker} {median : ℕ → ℚ} {found : Bool} :
      Grown t → w ∈ t.leaves → w.domain.Splits median → ofWhisker w true median = some dst →
      replace w dst t = some (found, t') → Grown t'

/-! ### Trees whose leaves partition their domain -/

/-- Each leaf has the domain of its whisker, and children partition the domain of their parent. -/
inductive Tiled : WhiskerTree → Prop
  | leaf (w : Whisker) : Tiled (.leaf w.domain w)
  | interior {domain : MemoryRange} {children : List WhiskerTree} :
      Partitions Inside (children.map WhiskerTree.domain) domain → (∀ c ∈ children, Tiled c) →
      Tiled (.interior domain children)

/-- The leaves whose domain contains a memory. -/
def leavesAt (t : WhiskerTree) (m : Memory) : List Whisker :=
  t.leaves.filter (fun w => w.domain.Contains m)

/-- Lookup finds the only leaf that contains `m`, if the domain does, and none otherwise. -/
def Finds (t : WhiskerTree) (m : Memory) : Prop :=
  if t.domain.Contains m then ∃ w, t.leavesAt m = [w] ∧ t.whisker m = some (some w)
  else t.leavesAt m = [] ∧ t.whisker m = some none

theorem Finds.leavesAt_eq_nil {t : WhiskerTree} {m : Memory} (h : t.Finds m)
    (hm : ¬ t.domain.Contains m) : t.leavesAt m = [] := by
  rw [Finds, if_neg hm] at h
  exact h.1

theorem Finds.contains {t : WhiskerTree} {m : Memory} (h : t.Finds m) {w : Whisker}
    (hw : w ∈ t.leaves) (hm : w.domain.Contains m) : t.domain.Contains m := by
  by_contra hnot
  have hin : w ∈ t.leavesAt m := List.mem_filter.mpr ⟨hw, decide_eq_true hm⟩
  rw [h.leavesAt_eq_nil hnot] at hin
  exact List.not_mem_nil hin

theorem mem_leavesIn {cs : List WhiskerTree} {w : Whisker} :
    w ∈ leavesIn cs ↔ ∃ c ∈ cs, w ∈ c.leaves := by
  induction cs with
  | nil => simp [leavesIn]
  | cons c cs ih => rw [leavesIn, List.mem_append, ih, List.exists_mem_cons_iff]

/-- Among children of which none contains `m` there is no leaf that does. -/
theorem leavesIn_filter_eq_nil {cs : List WhiskerTree} {m : Memory} (h : ∀ c ∈ cs, c.Finds m)
    (hnone : cellsAt Inside m (cs.map WhiskerTree.domain) = []) :
    (leavesIn cs).filter (fun w => w.domain.Contains m) = [] := by
  rw [List.filter_eq_nil_iff]
  intro w hw hmem
  obtain ⟨c, hc, hwc⟩ := mem_leavesIn.mp hw
  have hin : c.domain ∈ cellsAt Inside m (cs.map WhiskerTree.domain) :=
    mem_cellsAt.mpr ⟨List.mem_map_of_mem hc, (h c hc).contains hwc (of_decide_eq_true hmem)⟩
  rw [hnone] at hin
  exact List.not_mem_nil hin

theorem cellsAt_map_cons (c : WhiskerTree) (cs : List WhiskerTree) (m : Memory) :
    cellsAt Inside m ((c :: cs).map WhiskerTree.domain) =
      if c.domain.Contains m then c.domain :: cellsAt Inside m (cs.map WhiskerTree.domain)
      else cellsAt Inside m (cs.map WhiskerTree.domain) := by
  rw [List.map_cons, cellsAt, List.filter_cons]
  by_cases h : Inside m c.domain
  · rw [if_pos (decide_eq_true h), if_pos (show c.domain.Contains m from h)]
    rfl
  · rw [if_neg (by simpa using h), if_neg (show ¬ c.domain.Contains m from h)]
    rfl

/-- Of children of which one contains `m`, the loop finds its leaf. -/
theorem whiskerIn_finds {cs : List WhiskerTree} {m : Memory} (h : ∀ c ∈ cs, c.Finds m)
    (hone : (cellsAt Inside m (cs.map WhiskerTree.domain)).length = 1) :
    ∃ w, (leavesIn cs).filter (fun w => w.domain.Contains m) = [w] ∧
      whiskerIn cs m = some (some w) := by
  induction cs with
  | nil => cases hone
  | cons c cs ih =>
    obtain ⟨hc, hrest⟩ := List.forall_mem_cons.mp h
    rw [cellsAt_map_cons] at hone
    rw [leavesIn, List.filter_append, whiskerIn]
    by_cases hm : c.domain.Contains m
    · -- the first child that contains it is the only one
      rw [if_pos hm, List.length_cons, Nat.succ_inj, List.length_eq_zero_iff] at hone
      rw [Finds, if_pos hm] at hc
      obtain ⟨w, hleaves, hfind⟩ := hc
      refine ⟨w, ?_, ?_⟩
      · rw [leavesIn_filter_eq_nil hrest hone, List.append_nil]
        exact hleaves
      · rw [hfind]
        rfl
    · rw [if_neg hm] at hone
      rw [Finds, if_neg hm] at hc
      obtain ⟨w, hleaves, hfind⟩ := ih hrest hone
      refine ⟨w, ?_, ?_⟩
      · rw [hleaves, show c.leaves.filter (fun w => w.domain.Contains m) = [] from hc.1]
        rfl
      · rw [hc.2]
        exact hfind

/-- Lookup in a tree whose leaves partition its domain. -/
theorem Tiled.finds {t : WhiskerTree} (h : t.Tiled) (m : Memory) : t.Finds m := by
  induction h with
  | leaf w =>
    rw [Finds, leavesAt, leaves, List.filter_singleton]
    by_cases hm : w.domain.Contains m
    · rw [if_pos (show (WhiskerTree.leaf w.domain w).domain.Contains m from hm)]
      refine ⟨w, ?_, ?_⟩
      · simp [hm]
      · rw [whisker, if_pos hm]
    · rw [if_neg (show ¬ (WhiskerTree.leaf w.domain w).domain.Contains m from hm)]
      refine ⟨?_, ?_⟩
      · simp [hm]
      · rw [whisker, if_neg hm]
  | @interior domain children hparts _ ih =>
    rw [Finds, leavesAt, leaves]
    have hcells := hparts m
    by_cases hm : domain.Contains m
    · rw [if_pos (show Inside m domain from hm)] at hcells
      obtain ⟨w, hleaves, hfind⟩ := whiskerIn_finds ih hcells
      rw [if_pos (show (WhiskerTree.interior domain children).domain.Contains m from hm)]
      exact ⟨w, hleaves, by rw [whisker, if_pos hm, hfind]⟩
    · rw [if_neg (show ¬ Inside m domain from hm), List.length_eq_zero_iff] at hcells
      rw [if_neg (show ¬ (WhiskerTree.interior domain children).domain.Contains m from hm)]
      exact ⟨leavesIn_filter_eq_nil ih hcells, by rw [whisker, if_neg hm]⟩

end WhiskerTree

end CopaNgscope
