import Mathlib.Algebra.BigOperators.Group.List.Basic
import CopaNgscope.RunInvariant
import CopaNgscope.WhiskerTreeCounts

/-! Runs of queries of a whisker tree: what its leaves have counted and tracked, which whisker was
used most, and that a leaf can be bisected at what it has tracked. -/
namespace CopaNgscope
open LastMax RunInvariant

namespace UsedTree
open WhiskerTree

/-- `use_whisker`; `none` is a failed assertion or, without a whisker, the end of the process. -/
def useWhisker (t : UsedTree) (m : Memory) (track : Bool) : Option (Whisker × UsedTree) :=
  (t.use m track).bind id

def queryStep (t : UsedTree) (q : Memory × Bool) : Option UsedTree :=
  (t.useWhisker q.1 q.2).map Prod.snd

/-- The queries in a range. -/
def inRange (qs : List (Memory × Bool)) (r : MemoryRange) : List (Memory × Bool) :=
  qs.filter fun q => r.Contains q.1

/-- What the queries do to a leaf. -/
def queried (qs : List (Memory × Bool)) (w : UsedWhisker) : UsedWhisker :=
  { w with
    count := w.count+UInt32.ofNat (inRange qs w.whisker.domain).length
    tracked := w.tracked ++ ((inRange qs w.whisker.domain).filter Prod.snd).map Prod.fst }

theorem queried_nil (w : UsedWhisker) : queried [] w = w := by
  rw [queried, inRange, List.filter_nil, List.filter_nil, List.map_nil, List.append_nil]
  exact congrArg (fun n => { w with count := n }) (UInt32.add_zero w.count)

theorem queried_cons (q : Memory × Bool) (qs : List (Memory × Bool)) (w : UsedWhisker) :
    queried (q :: qs) w = queried qs (w.meet q.1 q.2) := by
  rw [UsedWhisker.meet]
  split_ifs with hm
  · have hin : inRange (q :: qs) w.whisker.domain = q :: inRange qs w.whisker.domain :=
      List.filter_cons_of_pos (decide_eq_true hm)
    have hcount : w.count+UInt32.ofNat (inRange qs w.whisker.domain).length.succ =
        w.count+1+UInt32.ofNat (inRange qs w.whisker.domain).length := by
      rw [← Nat.add_one, Nat.add_comm, UInt32.ofNat_add, ← UInt32.add_assoc]
      rfl
    have htracked : w.tracked ++
          ((q :: inRange qs w.whisker.domain).filter Prod.snd).map Prod.fst =
        (w.use q.1 q.2).tracked ++
          ((inRange qs w.whisker.domain).filter Prod.snd).map Prod.fst := by
      rw [UsedWhisker.use, List.filter_cons]
      dsimp only
      split_ifs
      · rw [List.map_cons, List.append_assoc, List.singleton_append]
      · rfl
    rw [queried, queried, hin, htracked]
    exact congrArg (fun n => UsedWhisker.mk w.whisker n _) hcount
  · have hin : inRange (q :: qs) w.whisker.domain = inRange qs w.whisker.domain :=
      List.filter_cons_of_neg (by simpa using hm)
    rw [queried, queried, hin]

/-- A run of queries in the domain of a tree whose leaves partition it. -/
theorem run_queryStep {t : UsedTree} (h : t.plain.Tiled) {qs : List (Memory × Bool)}
    (hqs : ∀ q ∈ qs, t.domain.Contains q.1) : ∃ t', run queryStep t qs = some t' ∧
      t'.plain = t.plain ∧ t'.leaves = t.leaves.map (queried qs) := by
  induction qs generalizing t with
  | nil =>
    refine ⟨t, rfl, rfl, ?_⟩
    rw [List.map_congr_left (fun w _ => queried_nil w), List.map_id']
  | cons q qs ih =>
    obtain ⟨hq, hrest⟩ := List.forall_mem_cons.mp hqs
    have hcounts := counts_of_tiled h q.1 q.2
    rw [Counts, if_pos hq] at hcounts
    obtain ⟨w, t1, huse, hplain, hleaves⟩ := hcounts
    have hdomain : t1.domain = t.domain := by rw [← domain_plain, hplain, domain_plain]
    obtain ⟨t', hrun, hplain', hleaves'⟩ := ih (hplain ▸ h) (hdomain ▸ hrest)
    refine ⟨t', ?_, hplain'.trans hplain, ?_⟩
    · rw [run_cons, queryStep, useWhisker, huse]
      exact hrun
    · rw [hleaves', hleaves, List.map_map]
      exact List.map_congr_left (fun v _ => (queried_cons q qs v).symm)

/-- No query outside the domain is answered. -/
theorem isSome_run_queryStep {t : UsedTree} (h : t.plain.Tiled) {qs : List (Memory × Bool)} :
    (run queryStep t qs).isSome ↔ ∀ q ∈ qs, t.domain.Contains q.1 := by
  induction qs generalizing t with
  | nil => exact iff_of_true rfl (List.forall_mem_nil _)
  | cons q qs ih =>
    rw [List.forall_mem_cons, run_cons, queryStep, useWhisker]
    have hcounts := counts_of_tiled h q.1 q.2
    by_cases hq : t.domain.Contains q.1
    · rw [Counts, if_pos hq] at hcounts
      obtain ⟨w, t1, huse, hplain, -⟩ := hcounts
      have hdomain : t1.domain = t.domain := by rw [← domain_plain, hplain, domain_plain]
      rw [huse, and_iff_right hq, ← hdomain]
      exact ih (hplain ▸ h)
    · rw [Counts, if_neg hq] at hcounts
      rw [hcounts.1]
      exact iff_of_false Bool.false_ne_true (fun hall => hq hall.1)

/-- Every query in the domain is in the range of one leaf. -/
theorem sum_inRange {t : WhiskerTree} (h : t.Tiled) {qs : List (Memory × Bool)}
    (hqs : ∀ q ∈ qs, t.domain.Contains q.1) :
    (t.leaves.map fun w => (inRange qs w.domain).length).sum = qs.length := by
  induction qs with
  | nil =>
    apply List.sum_eq_zero
    intro n hn
    obtain ⟨w, _, rfl⟩ := List.mem_map.mp hn
    rfl
  | cons q qs ih =>
    obtain ⟨hq, hrest⟩ := List.forall_mem_cons.mp hqs
    have hfinds := h.finds q.1
    rw [Finds, if_pos hq] at hfinds
    obtain ⟨w, hone, _⟩ := hfinds
    have hsplit (ws : List Whisker) :
        (ws.map fun w => (inRange (q :: qs) w.domain).length).sum =
          (ws.filter fun w => w.domain.Contains q.1).length+
            (ws.map fun w => (inRange qs w.domain).length).sum := by
      induction ws with
      | nil => rfl
      | cons v ws ihws =>
        rw [List.map_cons, List.sum_cons, List.map_cons, List.sum_cons, ihws, List.filter_cons,
          inRange, List.filter_cons, ← inRange]
        split_ifs
        · rw [List.length_cons, List.length_cons]
          omega
        · omega
    have hlength : (t.leaves.filter fun w => w.domain.Contains q.1).length = 1 :=
      congrArg List.length hone
    rw [hsplit, ih hrest, hlength, List.length_cons, Nat.add_comm]

theorem ofNat_sum_toNat {α : Type*} (f : α → ℕ) (xs : List α) :
    UInt32.ofNat (xs.map fun x => (UInt32.ofNat (f x)).toNat).sum =
      UInt32.ofNat (xs.map f).sum := by
  induction xs with
  | nil => rfl
  | cons x xs ih =>
    rw [List.map_cons, List.sum_cons, List.map_cons, List.sum_cons, UInt32.ofNat_add, ih,
      UInt32.ofNat_toNat, UInt32.ofNat_add]

/-- After the counts were reset, queries of a tree whose leaves partition its domain. -/
theorem run_after_reset {t : UsedTree} (h : t.plain.Tiled) {qs : List (Memory × Bool)}
    (hqs : ∀ q ∈ qs, t.domain.Contains q.1) : ∃ t', run queryStep t.resetCounts qs = some t' ∧
      t'.plain = t.plain ∧ t'.leaves = t.leaves.map fun w => queried qs w.resetCount := by
  have hplain : t.resetCounts.plain = t.plain :=
    plain_onLeaves (f := UsedWhisker.resetCount) (fun _ => rfl) t
  have hdomain : t.resetCounts.domain = t.domain := by rw [← domain_plain, hplain, domain_plain]
  obtain ⟨t', hrun, hplain', hleaves⟩ := run_queryStep (hplain ▸ h) (hdomain ▸ hqs)
  refine ⟨t', hrun, hplain'.trans hplain, ?_⟩
  rw [hleaves, resetCounts, leaves_onLeaves, List.map_map]
  rfl

theorem isSome_run_after_reset {t : UsedTree} (h : t.plain.Tiled) (qs : List (Memory × Bool)) :
    (run queryStep t.resetCounts qs).isSome ↔ ∀ q ∈ qs, t.domain.Contains q.1 := by
  have hplain : t.resetCounts.plain = t.plain :=
    plain_onLeaves (f := UsedWhisker.resetCount) (fun _ => rfl) t
  have hdomain : t.resetCounts.domain = t.domain := by rw [← domain_plain, hplain, domain_plain]
  rw [isSome_run_queryStep (hplain ▸ h), hdomain]

theorem count_queried_resetCount (qs : List (Memory × Bool)) (w : UsedWhisker) :
    (queried qs w.resetCount).count = UInt32.ofNat (inRange qs w.whisker.domain).length :=
  UInt32.zero_add _

end UsedTree

open UsedTree

/-- A grown tree counts, in any run of queries: it answers them as long as they are in the domain of
the root, the rules stay as they are, every leaf has counted the queries in its range and kept those
that are tracked, and the total is the number of queries, each as far as an `unsigned int` holds it.
A query outside finds no whisker, which ends the process. -/
theorem whisker_tree_counts {t : UsedTree} (ht : t.plain.Grown) (qs : List (Memory × Bool)) :
    ((run queryStep t.resetCounts qs).isSome ↔
      ∀ q ∈ qs, MemoryRange.Contains ⟨memory, maxMemory⟩ q.1) ∧
    ∀ t', run queryStep t.resetCounts qs = some t' → t'.plain = t.plain ∧
      t'.leaves = t.leaves.map (fun w =>
        { w with
          count := UInt32.ofNat (inRange qs w.whisker.domain).length
          tracked := w.tracked ++ ((inRange qs w.whisker.domain).filter Prod.snd).map Prod.fst }) ∧
      t'.totalWhiskerQueries = UInt32.ofNat qs.length ∧
      ∀ m track, ¬ MemoryRange.Contains ⟨memory, maxMemory⟩ m → t'.use m track = some none := by
  obtain ⟨htiled, hroot⟩ := ht.tiled
  rw [domain_plain] at hroot
  have hanswered := isSome_run_after_reset htiled qs
  rw [hroot] at hanswered
  refine ⟨hanswered, ?_⟩
  intro t' hrun
  have hqs : ∀ q ∈ qs, t.domain.Contains q.1 :=
    (isSome_run_after_reset htiled qs).mp (by rw [hrun]; rfl)
  obtain ⟨u, hu, hplain, hleaves⟩ := run_after_reset htiled hqs
  cases hrun.symm.trans hu
  refine ⟨hplain, ?_, ?_, ?_⟩
  · rw [hleaves]
    apply List.map_congr_left
    intro w _
    rw [← count_queried_resetCount]
    rfl
  · have hsum := sum_inRange htiled ((domain_plain t).symm ▸ hqs)
    rw [leaves_plain, List.map_map] at hsum
    have hcounts : t'.leaves.map (fun w => w.count.toNat) = t.leaves.map fun w =>
        (UInt32.ofNat (inRange qs w.whisker.domain).length).toNat := by
      rw [hleaves, List.map_map]
      apply List.map_congr_left
      intro w _
      exact congrArg UInt32.toNat (count_queried_resetCount qs w)
    rw [totalWhiskerQueries_eq, hcounts, ofNat_sum_toNat, ← hsum]
    rfl
  · intro m track hm
    have hfails := counts_of_tiled (hplain.symm ▸ htiled) m track
    have hdomain : t'.domain = ⟨memory, maxMemory⟩ := by
      rw [← domain_plain, hplain, domain_plain, hroot]
    rw [Counts, hdomain, if_neg hm] at hfails
    exact hfails.1

/-- Four queries, of which three are in one leaf of `bisectedRoot` and two of these are tracked. -/
def fourQueries : List (Memory × Bool) :=
  [(memoryOf 16 1 1 1, true), (memoryOf 1 1 1 1, true), (memoryOf 17 2 1 3, false),
    (memoryOf 20 1 2 1, true)]

theorem fourQueries_contains :
    ∀ q ∈ fourQueries, MemoryRange.Contains ⟨memory, maxMemory⟩ q.1 := by
  decide +kernel

theorem whisker_tree_counts_fourQueries :
    ∃ t', run queryStep (fresh WhiskerTree.bisectedRoot).resetCounts fourQueries = some t' ∧
      t'.totalWhiskerQueries = 4 ∧ t'.use (memoryOf 1 1 163840 1) true = some none := by
  obtain ⟨hanswered, hcounts⟩ := whisker_tree_counts
    ((plain_fresh WhiskerTree.bisectedRoot).symm ▸ WhiskerTree.grown_bisectedRoot) fourQueries
  obtain ⟨t', hrun⟩ := Option.isSome_iff_exists.mp (hanswered.mpr fourQueries_contains)
  obtain ⟨-, -, htotal, houtside⟩ := hcounts t' hrun
  exact ⟨t', hrun, htotal, houtside _ true (by decide +kernel)⟩

/-- After fewer than 2^32 queries the whisker that is used most is one in whose range the most
queries were, of those up to a generation: the last one of these, and none where no query was. -/
theorem most_used_after_queries {t : UsedTree} (ht : t.plain.Tiled) {qs : List (Memory × Bool)}
    (hqs : ∀ q ∈ qs, t.domain.Contains q.1) (hlen : qs.length < 2^32)
    (maxGeneration : UInt32) :
    ∃ t', run queryStep t.resetCounts qs = some t' ∧
      IsLastMax (fun w : Whisker => w.generation ≤ maxGeneration ∧ 0 < (inRange qs w.domain).length)
        (fun w => (inRange qs w.domain).length) t.plain.leaves
        ((t'.mostUsed maxGeneration).map UsedWhisker.whisker) := by
  obtain ⟨t', hrun, hplain, hleaves⟩ := run_after_reset ht hqs
  refine ⟨t', hrun, ?_⟩
  rw [← hplain, leaves_plain]
  have huses : ∀ w ∈ t'.leaves, uses w = (inRange qs w.whisker.domain).length := by
    intro w hw
    rw [hleaves] at hw
    obtain ⟨v, _, rfl⟩ := List.mem_map.mp hw
    have hle : (inRange qs v.whisker.domain).length ≤ qs.length := List.length_filter_le _ _
    rw [uses, count_queried_resetCount]
    exact UInt32.toNat_ofNat_of_lt' (hle.trans_lt hlen)
  apply (mostUsed_isLastMax maxGeneration t').map
  · intro w hw
    rw [Eligible, ← huses w hw]
    exact and_congr_right (fun _ => UInt32.lt_iff_toNat_lt)
  · exact huses

/-- The leaves of `bisectedRoot` from 16 on, with their generation set to 3. -/
def laterRules : UsedTree :=
  (fresh WhiskerTree.bisectedRoot).onLeaves fun w =>
    w.demote (if 16 ≤ w.whisker.domain.lower.recSendEwma then 3 else 0)

/-- The leaf of three queries is of a later generation, so that the one of a single query counts. -/
theorem most_used_after_queries_laterRules :
    ∃ t', run queryStep laterRules.resetCounts fourQueries = some t' ∧
      IsLastMax
        (fun w : Whisker => w.generation ≤ 2 ∧ 0 < (inRange fourQueries w.domain).length)
        (fun w => (inRange fourQueries w.domain).length) laterRules.plain.leaves
        ((t'.mostUsed 2).map UsedWhisker.whisker) ∧
      ((t'.mostUsed 2).map fun w => w.count) = some 1 ∧
      ((t'.mostUsed 3).map fun w => w.count) = some 3 := by
  have hfresh : (fresh WhiskerTree.bisectedRoot).plain.Tiled :=
    (plain_fresh WhiskerTree.bisectedRoot).symm ▸ WhiskerTree.grown_bisectedRoot.tiled.1
  have htiled : laterRules.plain.Tiled := by
    apply tiled_onLeaves
    · intro w
      rfl
    · exact hfresh
  have hqs : ∀ q ∈ fourQueries, laterRules.domain.Contains q.1 := by decide +kernel
  obtain ⟨t', hrun, hmost⟩ := most_used_after_queries htiled hqs (by decide) 2
  refine ⟨t', hrun, hmost, ?_, ?_⟩
  · have hfound := Option.some.inj (hrun.symm.trans (Option.some_get (by decide +kernel)).symm)
    rw [hfound]
    decide +kernel
  · have hfound := Option.some.inj (hrun.symm.trans (Option.some_get (by decide +kernel)).symm)
    rw [hfound]
    decide +kernel

/-- A leaf that has tracked three queries can be bisected: with medians that are estimated between
the least and the greatest of the values, the leaf is replaced, and the tree is a grown one
again. -/
theorem tracked_leaf_bisects {median : List ℚ → ℚ}
    (hmedian : ∀ xs, 3 ≤ xs.length → ∃ a ∈ xs, ∃ b ∈ xs, a ≤ median xs ∧ median xs ≤ b)
    {t : WhiskerTree} (ht : t.Grown) {qs : List (Memory × Bool)}
    (hqs : ∀ q ∈ qs, MemoryRange.Contains ⟨memory, maxMemory⟩ q.1) :
    ∃ t', run queryStep (fresh t) qs = some t' ∧ ∀ w ∈ t'.leaves, 3 ≤ w.tracked.length →
      ∃ dst t'', WhiskerTree.ofWhisker w.whisker true
          (fun i => median (w.tracked.map fun m => m.field i)) = some dst ∧
        WhiskerTree.replace w.whisker dst t'.plain = some (true, t'') ∧ t''.Grown := by
  obtain ⟨htiled, hroot⟩ := ht.tiled
  have hdomain : (fresh t).domain = t.domain := by rw [← domain_plain, plain_fresh]
  obtain ⟨t', hrun, hplain, hleaves⟩ := run_queryStep ((plain_fresh t).symm ▸ htiled)
    (hdomain.trans hroot ▸ hqs)
  rw [plain_fresh] at hplain
  refine ⟨t', hrun, ?_⟩
  intro w hw hthree
  -- what a leaf has tracked is in its range
  have hin : ∀ m ∈ w.tracked, w.whisker.domain.Contains m := by
    rw [hleaves, leaves_fresh, List.map_map] at hw
    obtain ⟨v, _, rfl⟩ := List.mem_map.mp hw
    intro m hm
    obtain ⟨q, hq, rfl⟩ := List.mem_map.mp hm
    exact of_decide_eq_true (List.mem_filter.mp (List.mem_filter.mp hq).1).2
  have hsplits : w.whisker.domain.Splits
      (fun i => median (w.tracked.map fun m => m.field i)) := by
    intro i hi
    obtain ⟨a, ha, b, hb, hlow, hhigh⟩ := hmedian (w.tracked.map fun m => m.field i)
      (by rw [List.length_map]; exact hthree)
    obtain ⟨x, hx, rfl⟩ := List.mem_map.mp ha
    obtain ⟨y, hy, rfl⟩ := List.mem_map.mp hb
    have hxbox := (MemoryRange.contains_iff_mem_box _ _).mp (hin x hx) ⟨i, hi⟩
    have hybox := (MemoryRange.contains_iff_mem_box _ _).mp (hin y hy) ⟨i, hi⟩
    exact ⟨hxbox.1.trans hlow, hhigh.trans_lt hybox.2⟩
  have hmem : w.whisker ∈ t.leaves := by
    rw [← hplain, leaves_plain]
    exact List.mem_map_of_mem hw
  obtain ⟨dst, hdst, t'', hreplace, _, _⟩ := htiled.replace_leaf hmem hsplits
  rw [hplain]
  exact ⟨dst, t'', hdst, hreplace, WhiskerTree.Grown.replace ht hmem hsplits hdst hreplace⟩

/-- Of three values the third is the estimate. -/
theorem tracked_leaf_bisects_third :
    ∃ t', run queryStep (fresh WhiskerTree.root)
        [(memoryOf 16 1 1 1, true), (memoryOf 1 1 1 1, true), (memoryOf 4 2 1 3, true)] = some t' ∧
      ∀ w ∈ t'.leaves, 3 ≤ w.tracked.length →
        ∃ dst t'', WhiskerTree.ofWhisker w.whisker true
            (fun i => (w.tracked.map fun m => m.field i).getD 2 0) = some dst ∧
          WhiskerTree.replace w.whisker dst t'.plain = some (true, t'') ∧ t''.Grown := by
  refine @tracked_leaf_bisects (fun xs => xs.getD 2 0) ?_ _ ?_ _ ?_
  · intro xs hxs
    have hlt : 2 < xs.length := by omega
    have hmem : xs.getD 2 0 ∈ xs := by
      rw [List.getD_eq_getElem?_getD, List.getElem?_eq_getElem hlt, Option.getD_some]
      exact List.getElem_mem hlt
    exact ⟨_, hmem, _, hmem, le_rfl, le_rfl⟩
  · exact WhiskerTree.Grown.root
  · decide +kernel

end CopaNgscope
