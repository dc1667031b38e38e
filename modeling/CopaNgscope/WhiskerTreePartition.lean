import CopaNgscope.WhiskerTree

/-! Trees that grow by replacing leaves with what they are bisected into: their leaves partition
the space of memories. -/
namespace CopaNgscope
open CellPartition MemoryRange

namespace MemoryRange

theorem contains_rangeMedian {r : MemoryRange} {median : ℕ → ℚ} (h : r.Splits median) :
    r.Contains r.rangeMedian := by
  have hlt : ∀ i, i < Memory.datasize → r.lower.field i < r.upper.field i :=
    fun i hi => (h i hi).1.trans_lt (h i hi).2
  obtain ⟨h0, h1, h2, h3⟩ := Memory.forall_datasize.mp hlt
  have hmedian : r.rangeMedian =
      { r.lower with
        recSendEwma := (r.lower.recSendEwma+r.upper.recSendEwma)/2
        recRecEwma := (r.lower.recRecEwma+r.upper.recRecEwma)/2
        rttRatio := (r.lower.rttRatio+r.upper.rttRatio)/2
        slowRecRecEwma := (r.lower.slowRecRecEwma+r.upper.slowRecRecEwma)/2 } := rfl
  change r.lower.recSendEwma < r.upper.recSendEwma at h0
  change r.lower.recRecEwma < r.upper.recRecEwma at h1
  change r.lower.rttRatio < r.upper.rttRatio at h2
  change r.lower.slowRecRecEwma < r.upper.slowRecRecEwma at h3
  rw [hmedian]
  refine ⟨⟨?_, ?_, ?_, ?_⟩, ?_, ?_, ?_, ?_⟩ <;> dsimp only <;> linarith

end MemoryRange

namespace WhiskerTree

/-- What a leaf is replaced with has its domain, and its leaves partition it. -/
theorem ofWhisker_tiled {w : Whisker} {median : ℕ → ℚ} (h : w.domain.Splits median) :
    ∃ dst, ofWhisker w true median = some dst ∧ dst.Tiled ∧ dst.domain = w.domain := by
  obtain ⟨ret, hret, _, hparts⟩ := bisect_partitions h
  refine ⟨_, by rw [ofWhisker, if_pos rfl, Whisker.bisect, hret]; rfl, ?_, rfl⟩
  apply Tiled.interior
  · rw [List.map_map, List.map_map]
    have hid : (WhiskerTree.domain ∘ fun x : Whisker => leaf x.domain x) ∘
        (fun x => { w with domain := x }) = id := rfl
    rw [hid, List.map_id]
    exact hparts
  · intro c hc
    obtain ⟨x, _, rfl⟩ := List.mem_map.mp hc
    exact Tiled.leaf x

/-! ### Replacing a leaf -/

/-- The leaf is found, and what comes out is tiled like before. -/
def Replaces (src : Whisker) (dst t : WhiskerTree) : Prop :=
  ∃ t', replace src dst t = some (true, t') ∧ t'.Tiled ∧ t'.domain = t.domain

theorem replace_of_not_contains {src : Whisker} {dst t : WhiskerTree}
    (h : ¬ t.domain.Contains src.domain.rangeMedian) :
    replace src dst t = some (false, t) := by
  cases t with
  | leaf domain w => rw [replace]; exact if_pos h
  | interior domain children => rw [replace]; exact if_pos h

/-- The loop over the children gets to the child that has the leaf. -/
theorem replaceIn_replaces {src : Whisker} {dst : WhiskerTree} {cs : List WhiskerTree}
    (hsrc : src.domain.Contains src.domain.rangeMedian) (htiled : ∀ c ∈ cs, c.Tiled)
    (hone : (cellsAt Inside src.domain.rangeMedian (cs.map WhiskerTree.domain)).length ≤ 1)
    (hreplaces : ∀ c ∈ cs, src ∈ c.leaves → Replaces src dst c) (hmem : src ∈ leavesIn cs) :
    ∃ cs', replaceIn src dst cs = some cs' ∧ (∀ c ∈ cs', c.Tiled) ∧
      cs'.map WhiskerTree.domain = cs.map WhiskerTree.domain := by
  induction cs with
  | nil => exact absurd hmem List.not_mem_nil
  | cons c cs ih =>
    obtain ⟨hc, hrest⟩ := List.forall_mem_cons.mp htiled
    obtain ⟨hhead, htail⟩ := List.forall_mem_cons.mp hreplaces
    rw [cellsAt_map_cons] at hone
    rw [replaceIn]
    by_cases hm : c.domain.Contains src.domain.rangeMedian
    · -- no later child contains the median, so none has the leaf
      rw [if_pos hm, List.length_cons] at hone
      have hleaf : src ∈ c.leaves := by
        refine (List.mem_append.mp hmem).resolve_right (fun hlater => ?_)
        obtain ⟨d, hd, hsd⟩ := mem_leavesIn.mp hlater
        have hin : d.domain ∈ cellsAt Inside src.domain.rangeMedian
            (cs.map WhiskerTree.domain) :=
          mem_cellsAt.mpr ⟨List.mem_map_of_mem hd, ((hrest d hd).finds _).contains hsd hsrc⟩
        have hpos := List.length_pos_of_mem hin
        omega
      obtain ⟨c', hreplace, htiled', hdomain⟩ := hhead hleaf
      refine ⟨c' :: cs, by rw [hreplace]; rfl, ?_, ?_⟩
      · exact List.forall_mem_cons.mpr ⟨htiled', hrest⟩
      · rw [List.map_cons, List.map_cons, hdomain]
    · rw [if_neg hm] at hone
      have hlater : src ∈ leavesIn cs :=
        (List.mem_append.mp hmem).resolve_left (fun hleaf => hm ((hc.finds _).contains hleaf hsrc))
      obtain ⟨cs', hreplace, htiled', hdomain⟩ := ih hrest hone htail hlater
      refine ⟨c :: cs', ?_, ?_, ?_⟩
      · rw [replace_of_not_contains hm, Option.bind_some, if_neg Bool.false_ne_true, hreplace]
        rfl
      · exact List.forall_mem_cons.mpr ⟨hc, htiled'⟩
      · rw [List.map_cons, List.map_cons, hdomain]

theorem replace_of_leaf {src : Whisker} (hsrc : src.domain.Contains src.domain.rangeMedian)
    (dst : WhiskerTree) : replace src dst (.leaf src.domain src) = some (true, dst) := by
  rw [replace, if_neg (not_not.mpr hsrc), if_pos]
  exact ⟨⟨rfl, rfl, rfl, rfl⟩, rfl, rfl, rfl, rfl⟩

theorem Tiled.replaces {t : WhiskerTree} (h : t.Tiled) {src : Whisker} {dst : WhiskerTree}
    (hsrc : src.domain.Contains src.domain.rangeMedian) (hdst : dst.Tiled)
    (hdomain : dst.domain = src.domain) (hmem : src ∈ t.leaves) : Replaces src dst t := by
  induction h with
  | leaf w =>
    obtain rfl := List.mem_singleton.mp hmem
    exact ⟨dst, replace_of_leaf hsrc dst, hdst, hdomain⟩
  | @interior domain children hparts htiled ih =>
    have hcontains : domain.Contains src.domain.rangeMedian :=
      ((Tiled.interior hparts htiled).finds _).contains hmem hsrc
    have hone := hparts src.domain.rangeMedian
    rw [if_pos (show Inside src.domain.rangeMedian domain from hcontains)] at hone
    obtain ⟨cs', hreplace, htiled', hmap⟩ :=
      replaceIn_replaces hsrc htiled hone.le (fun c hc hleaf => ih c hc hleaf) hmem
    refine ⟨.interior domain cs', ?_, Tiled.interior (hmap ▸ hparts) htiled', rfl⟩
    rw [replace, if_neg (not_not.mpr hcontains), hreplace]
    rfl

/-- No replacement fails: the leaf is found, and the leaves partition the same domain again. -/
theorem Tiled.replace_leaf {t : WhiskerTree} (h : t.Tiled) {w : Whisker} (hw : w ∈ t.leaves)
    {median : ℕ → ℚ} (hsplit : w.domain.Splits median) :
    ∃ dst, ofWhisker w true median = some dst ∧ Replaces w dst t := by
  obtain ⟨dst, hdst, htiled, hdomain⟩ := ofWhisker_tiled hsplit
  exact ⟨dst, hdst, h.replaces (contains_rangeMedian hsplit) htiled hdomain hw⟩

theorem Grown.tiled {t : WhiskerTree} (h : t.Grown) :
    t.Tiled ∧ t.domain = ⟨memory, maxMemory⟩ := by
  induction h with
  | root => exact ⟨Tiled.leaf (whiskerOf ⟨memory, maxMemory⟩), rfl⟩
  | replace _ hw hsplit hdst hreplace ih =>
    obtain ⟨dst, hdst', t', hreplace', htiled, hdomain⟩ := ih.1.replace_leaf hw hsplit
    rw [hdst] at hdst'
    cases hdst'
    rw [hreplace] at hreplace'
    cases hreplace'
    exact ⟨htiled, hdomain.trans ih.2⟩

/-- The leaves of a grown tree partition the space of memories: lookup finds the one leaf that
contains a memory, and none for a memory outside. -/
theorem whisker_tree_partitions {t : WhiskerTree} (h : t.Grown) (m : Memory) :
    (Contains ⟨memory, maxMemory⟩ m →
      ∃ w, t.leavesAt m = [w] ∧ t.whisker m = some (some w)) ∧
    (¬ Contains ⟨memory, maxMemory⟩ m → t.whisker m = some none) := by
  obtain ⟨htiled, hdomain⟩ := h.tiled
  have hfinds := htiled.finds m
  rw [Finds, hdomain] at hfinds
  constructor
  · intro hm
    rw [if_pos hm] at hfinds
    exact hfinds
  · intro hm
    rw [if_neg hm] at hfinds
    exact hfinds.2

/-- The root, bisected at 16 of the first field and 0 of the others. -/
def bisectedRoot : WhiskerTree :=
  ((ofWhisker (whiskerOf ⟨memory, maxMemory⟩) true (fun i => if i = 0 then 16 else 0)).getD root)

theorem grown_bisectedRoot : bisectedRoot.Grown := by
  have hsplit : (whiskerOf ⟨memory, maxMemory⟩).domain.Splits
      (fun i => if i = 0 then 16 else 0) := by
    decide +kernel
  obtain ⟨dst, hdst, _⟩ := ofWhisker_tiled hsplit
  have heq : bisectedRoot = dst := by
    rw [bisectedRoot, hdst]
    rfl
  have hmem : whiskerOf ⟨memory, maxMemory⟩ ∈ root.leaves := by
    rw [root, leaves]
    exact List.mem_singleton.mpr rfl
  have hreplace : replace (whiskerOf ⟨memory, maxMemory⟩) dst root = some (true, dst) :=
    replace_of_leaf (contains_rangeMedian hsplit) dst
  rw [heq]
  exact Grown.replace Grown.root hmem hsplit hdst hreplace

/-- A memory right on the cut has its leaf, one on the upper bound of the root has none. -/
theorem whisker_tree_partitions_bisectedRoot :
    (∃ w, bisectedRoot.leavesAt (memoryOf 16 1 1 1) = [w] ∧
      bisectedRoot.whisker (memoryOf 16 1 1 1) = some (some w)) ∧
    bisectedRoot.whisker (memoryOf 1 1 163840 1) = some none := by
  refine ⟨?_, ?_⟩
  · exact (whisker_tree_partitions grown_bisectedRoot (memoryOf 16 1 1 1)).1 (by decide +kernel)
  · exact (whisker_tree_partitions grown_bisectedRoot (memoryOf 1 1 163840 1)).2 (by decide +kernel)

end WhiskerTree

end CopaNgscope
