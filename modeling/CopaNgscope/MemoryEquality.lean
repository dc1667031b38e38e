import CopaNgscope.WhiskerTreeDna

/-! Equality and hashing of memories, ranges and rules, and the replacement of one rule by
another. Equality leaves one tracked field out, which hashing, order and containment see. -/
namespace CopaNgscope

/-- What `boost::hash_combine` does to a seed and a hash, and the hashes of numbers. -/
structure BoostHash where
  hashCombine : UInt64 → UInt64 → UInt64
  hashDouble : ℚ → UInt64
  hashInt : ℤ → UInt64

/-! ### Memories -/

namespace Memory

/-- `hash_value`. -/
def hashValue (boost : BoostHash) (mem : Memory) : UInt64 :=
  let seed := boost.hashCombine 0 (boost.hashDouble mem.recSendEwma)
  let seed := boost.hashCombine seed (boost.hashDouble mem.recRecEwma)
  let seed := boost.hashCombine seed (boost.hashDouble mem.rttRatio)
  boost.hashCombine seed (boost.hashDouble mem.slowRecRecEwma)

/-- The tracked fields other than the second agree. -/
def AgreesElsewhere (m other : Memory) : Prop :=
  m.recSendEwma = other.recSendEwma ∧ m.rttRatio = other.rttRatio ∧
    m.slowRecRecEwma = other.slowRecRecEwma

theorem same_iff (m other : Memory) : m.Same other ↔ m.AgreesElsewhere other := by
  constructor
  · rintro ⟨h0, _, h2, h3⟩
    exact ⟨h0, h2, h3⟩
  · rintro ⟨h0, h2, h3⟩
    exact ⟨h0, rfl, h2, h3⟩

theorem fields_eq_iff (m other : Memory) : m.fields = other.fields ↔
    m.AgreesElsewhere other ∧ m.recRecEwma = other.recRecEwma := by
  have hall : m.fields = other.fields ↔ ∀ i, i < datasize → m.field i = other.field i :=
    ⟨fun h i hi => congrFun h ⟨i, hi⟩, fun h => funext fun i => h i i.isLt⟩
  rw [hall, forall_datasize]
  constructor
  · rintro ⟨h0, h1, h2, h3⟩
    exact ⟨⟨h0, h2, h3⟩, h1⟩
  · rintro ⟨⟨h0, h2, h3⟩, h1⟩
    exact ⟨h0, h1, h2, h3⟩

theorem hashValue_congr {m other : Memory} (h : m.fields = other.fields) (boost : BoostHash) :
    m.hashValue boost = other.hashValue boost := by
  obtain ⟨⟨h0, h2, h3⟩, h1⟩ := (fields_eq_iff m other).mp h
  rw [hashValue, hashValue, h0, h1, h2, h3]

end Memory

/-! ### Ranges and rules -/

namespace MemoryRange

/-- `hash_value`. -/
def hashValue (boost : BoostHash) (mr : MemoryRange) : UInt64 :=
  let seed := boost.hashCombine 0 (mr.lower.hashValue boost)
  boost.hashCombine seed (mr.upper.hashValue boost)

/-- Where the other bounds agree, those of the second field do. -/
def FollowsElsewhere (r other : MemoryRange) : Prop :=
  r.lower.AgreesElsewhere other.lower → r.upper.AgreesElsewhere other.upper →
    r.lower.recRecEwma = other.lower.recRecEwma ∧ r.upper.recRecEwma = other.upper.recRecEwma

theorem sameBounds_iff (r other : MemoryRange) : r.SameBounds other ↔ r.Same other ∧
    r.lower.recRecEwma = other.lower.recRecEwma ∧
    r.upper.recRecEwma = other.upper.recRecEwma := by
  rw [SameBounds, eq_comm, Memory.fields_eq_iff, eq_comm (a := other.upper.fields),
    Memory.fields_eq_iff, Same, Memory.same_iff, Memory.same_iff]
  exact and_and_and_comm

/-- Equal ranges have the same bounds exactly when the second field follows the others. -/
theorem sameBounds_of_same_iff (r other : MemoryRange) :
    (r.Same other → r.SameBounds other) ↔ r.FollowsElsewhere other := by
  rw [FollowsElsewhere, ← Memory.same_iff, ← Memory.same_iff, ← and_imp]
  constructor
  · exact fun h hsame => ((sameBounds_iff r other).mp (h hsame)).2
  · exact fun h hsame => (sameBounds_iff r other).mpr ⟨hsame, h hsame⟩

theorem SameBounds.hashValue_eq {r other : MemoryRange} (h : r.SameBounds other)
    (boost : BoostHash) : r.hashValue boost = other.hashValue boost := by
  rw [hashValue, hashValue, Memory.hashValue_congr h.1 boost, Memory.hashValue_congr h.2 boost]

end MemoryRange

namespace Whisker

/-- `operator==`. The generation is not compared. -/
def Same (w other : Whisker) : Prop :=
  w.windowIncrement = other.windowIncrement ∧ w.windowMultiple = other.windowMultiple ∧
    w.intersend = other.intersend ∧ w.domain.Same other.domain

/-- `hash_value`. -/
def hashValue (boost : BoostHash) (w : Whisker) : UInt64 :=
  let seed := boost.hashCombine 0 (boost.hashInt w.windowIncrement)
  let seed := boost.hashCombine seed (boost.hashDouble w.windowMultiple)
  let seed := boost.hashCombine seed (boost.hashDouble w.intersend)
  boost.hashCombine seed (w.domain.hashValue boost)

theorem same_iff (w other : Whisker) :
    w.Same other ↔ w.action = other.action ∧ w.domain.Same other.domain := by
  rw [Same, action, action, Prod.mk.injEq, Prod.mk.injEq, and_assoc, and_assoc]

theorem hashValue_congr {w other : Whisker} (haction : w.action = other.action)
    (hdomain : w.domain.SameBounds other.domain) (boost : BoostHash) :
    w.hashValue boost = other.hashValue boost := by
  rw [action, action, Prod.mk.injEq, Prod.mk.injEq] at haction
  rw [hashValue, hashValue, haction.1, haction.2.1, haction.2.2, hdomain.hashValue_eq boost]

end Whisker

/-! ### Replacing a rule -/

namespace WhiskerTree

mutual

/-- `replace( w )`: whether the leaf was found, and the tree after it; `none` is a failed
assertion. -/
def replaceWhisker (w : Whisker) : WhiskerTree → Option (Bool × WhiskerTree)
  | .leaf domain front =>
    if ¬ domain.Contains w.domain.rangeMedian then some (false, .leaf domain front)
    -- the domain of the leaf itself stays
    else if w.domain.Same front.domain then some (true, .leaf domain w)
    else none
  | .interior domain children =>
    if ¬ domain.Contains w.domain.rangeMedian then some (false, .interior domain children)
    else (replaceWhiskerIn w children).map fun children' => (true, .interior domain children')

/-- The loop over the children, one of which has the leaf. -/
def replaceWhiskerIn (w : Whisker) : List WhiskerTree → Option (List WhiskerTree)
  | [] => none
  | x :: xs => (replaceWhisker w x).bind fun r =>
    if r.1 then some (r.2 :: xs) else (replaceWhiskerIn w xs).map fun xs' => x :: xs'

end

/-- `w` comes in place of the leaf `l`. -/
def PutsFor (w l : Whisker) (before after : List Whisker) : Prop :=
  ∃ pre post, before = pre ++ l :: post ∧ after = pre ++ w :: post

/-- Replacing follows the lookup of the middle of the range: it fails or finds nothing where the
lookup does, and a leaf that is found is replaced if its range is equal. -/
def ReplaceFollows (w : Whisker) (t : WhiskerTree) : Option (Option Whisker) → Prop
  | none => replaceWhisker w t = none
  | some none => replaceWhisker w t = some (false, t)
  | some (some l) =>
    if w.domain.Same l.domain then
      ∃ t', replaceWhisker w t = some (true, t') ∧ PutsFor w l t.leaves t'.leaves
    else replaceWhisker w t = none

/-- The same for the children, of which the loop has to find one. -/
def ReplaceInFollows (w : Whisker) (cs : List WhiskerTree) : Option (Option Whisker) → Prop
  | none => replaceWhiskerIn w cs = none
  | some none => False
  | some (some l) =>
    if w.domain.Same l.domain then
      ∃ cs', replaceWhiskerIn w cs = some cs' ∧ PutsFor w l (leavesIn cs) (leavesIn cs')
    else replaceWhiskerIn w cs = none

theorem PutsFor.append_right {w l : Whisker} {before after : List Whisker}
    (h : PutsFor w l before after) (rest : List Whisker) :
    PutsFor w l (before ++ rest) (after ++ rest) := by
  obtain ⟨pre, post, rfl, rfl⟩ := h
  exact ⟨pre, post ++ rest, by simp, by simp⟩

theorem PutsFor.append_left {w l : Whisker} {before after : List Whisker}
    (h : PutsFor w l before after) (rest : List Whisker) :
    PutsFor w l (rest ++ before) (rest ++ after) := by
  obtain ⟨pre, post, rfl, rfl⟩ := h
  exact ⟨rest ++ pre, post, by simp, by simp⟩

/-- A child without the leaf is passed over. -/
theorem ReplaceInFollows.skip {w : Whisker} {c : WhiskerTree} {cs : List WhiskerTree}
    (hc : replaceWhisker w c = some (false, c)) {found : Option (Option Whisker)}
    (hcs : ReplaceInFollows w cs found) : ReplaceInFollows w (c :: cs) found := by
  have hskip : replaceWhiskerIn w (c :: cs) =
      (replaceWhiskerIn w cs).map fun xs' => c :: xs' := by
    rw [replaceWhiskerIn, hc]
    rfl
  match found with
  | none =>
    rw [ReplaceInFollows] at hcs ⊢
    rw [hskip, hcs]
    rfl
  | some none => exact hcs
  | some (some l) =>
    rw [ReplaceInFollows] at hcs ⊢
    split_ifs at hcs ⊢ with hsame
    · obtain ⟨cs', hreplace, hputs⟩ := hcs
      refine ⟨c :: cs', ?_, hputs.append_left c.leaves⟩
      rw [hskip, hreplace]
      rfl
    · rw [hskip, hcs]
      rfl

/-- The child with the leaf is replaced, and the loop ends. -/
theorem ReplaceFollows.take {w l : Whisker} {c : WhiskerTree}
    (hc : ReplaceFollows w c (some (some l))) (cs : List WhiskerTree) :
    ReplaceInFollows w (c :: cs) (some (some l)) := by
  rw [ReplaceFollows] at hc
  rw [ReplaceInFollows]
  split_ifs at hc ⊢ with hsame
  · obtain ⟨c', hreplace, hputs⟩ := hc
    refine ⟨c' :: cs, ?_, hputs.append_right (leavesIn cs)⟩
    rw [replaceWhiskerIn, hreplace]
    rfl
  · rw [replaceWhiskerIn, hc]
    rfl

theorem replaceWhiskerIn_follows {w : Whisker} {cs : List WhiskerTree}
    (h : ∀ c ∈ cs, ReplaceFollows w c (c.whisker w.domain.rangeMedian)) :
    ReplaceInFollows w cs (whiskerIn cs w.domain.rangeMedian) := by
  induction cs with
  | nil => rfl
  | cons c cs ih =>
    obtain ⟨hc, hrest⟩ := List.forall_mem_cons.mp h
    rw [whiskerIn]
    cases hfind : c.whisker w.domain.rangeMedian with
    | none =>
      rw [hfind, ReplaceFollows] at hc
      rw [Option.bind_none, ReplaceInFollows, replaceWhiskerIn, hc]
      rfl
    | some found =>
      rw [hfind] at hc
      cases found with
      | none => exact ReplaceInFollows.skip hc (ih hrest)
      | some l => exact hc.take cs

/-- A node with children goes on in them, if it has the middle of the range. -/
theorem ReplaceInFollows.interior {w : Whisker} {domain : MemoryRange} {children : List WhiskerTree}
    (hm : domain.Contains w.domain.rangeMedian) {found : Option (Option Whisker)}
    (hin : ReplaceInFollows w children found) :
    ReplaceFollows w (.interior domain children) found := by
  have hreplace : replaceWhisker w (.interior domain children) =
      (replaceWhiskerIn w children).map fun cs' => (true, .interior domain cs') := by
    rw [replaceWhisker, if_neg (not_not.mpr hm)]
  cases found with
  | none =>
    rw [ReplaceInFollows] at hin
    rw [ReplaceFollows, hreplace, hin]
    rfl
  | some found =>
    cases found with
    | none => exact hin.elim
    | some l =>
      rw [ReplaceInFollows] at hin
      rw [ReplaceFollows]
      split_ifs at hin ⊢ with hsame
      · obtain ⟨cs', hrun, hputs⟩ := hin
        refine ⟨.interior domain cs', ?_, hputs⟩
        rw [hreplace, hrun]
        rfl
      · rw [hreplace, hin]
        rfl

theorem replaceWhisker_follows (w : Whisker) (t : WhiskerTree) :
    ReplaceFollows w t (t.whisker w.domain.rangeMedian) := by
  induction t using induct with
  | leaf domain front =>
    rw [whisker]
    by_cases hm : domain.Contains w.domain.rangeMedian
    · rw [if_pos hm, ReplaceFollows, replaceWhisker, if_neg (not_not.mpr hm)]
      split_ifs with hsame
      · exact ⟨_, rfl, [], [], rfl, rfl⟩
      · rfl
    · rw [if_neg hm, ReplaceFollows, replaceWhisker, if_pos hm]
  | interior domain children ih =>
    rw [whisker]
    by_cases hm : domain.Contains w.domain.rangeMedian
    · rw [if_pos hm]
      exact (replaceWhiskerIn_follows ih).interior hm
    · rw [if_neg hm, ReplaceFollows, replaceWhisker, if_pos hm]

/-- The rule found in the middle of the range is replaced exactly if its range is equal. -/
theorem replaceWhisker_found_iff {w l : Whisker} {t : WhiskerTree}
    (hfind : t.whisker w.domain.rangeMedian = some (some l)) :
    (∃ t', replaceWhisker w t = some (true, t') ∧ PutsFor w l t.leaves t'.leaves) ↔
      w.domain.Same l.domain := by
  have hfollows := replaceWhisker_follows w t
  rw [hfind, ReplaceFollows] at hfollows
  split_ifs at hfollows with hsame
  · exact ⟨fun _ => hsame, fun _ => hfollows⟩
  · refine ⟨?_, fun h => absurd h hsame⟩
    rintro ⟨t', hrun, _⟩
    rw [hfollows] at hrun
    cases hrun

end WhiskerTree

/-! ### Equality as a congruence -/

/-- Equal memories agree in what is tracked, and hash alike. -/
def Memory.Congruent (m other : Memory) : Prop :=
  m.Same other → m.fields = other.fields ∧ ∀ boost, m.hashValue boost = other.hashValue boost

/-- Equal ranges have the same bounds, hash alike and contain the same memories. -/
def MemoryRange.Congruent (r other : MemoryRange) : Prop :=
  r.Same other → r.SameBounds other ∧ (∀ boost, r.hashValue boost = other.hashValue boost) ∧
    ∀ query, r.Contains query ↔ other.Contains query

/-- Equal rules do the same on the same range, and hash alike. -/
def Whisker.Congruent (w other : Whisker) : Prop :=
  w.Same other → w.action = other.action ∧ w.domain.SameBounds other.domain ∧
    ∀ boost, w.hashValue boost = other.hashValue boost

/-- A rule is only put in the place of one with the same range. -/
def WhiskerTree.ReplacesOwnRegion (t : WhiskerTree) (w : Whisker) : Prop :=
  ∀ l, t.whisker w.domain.rangeMedian = some (some l) →
    (∃ t', replaceWhisker w t = some (true, t') ∧ PutsFor w l t.leaves t'.leaves) →
    w.domain.SameBounds l.domain

theorem MemoryRange.congruent_iff (r other : MemoryRange) :
    r.Congruent other ↔ r.FollowsElsewhere other := by
  rw [← sameBounds_of_same_iff]
  constructor
  · exact fun h hsame => (h hsame).1
  · intro h hsame
    have hbounds := h hsame
    exact ⟨hbounds, hbounds.hashValue_eq, fun query => (hbounds.contains_iff query).symm⟩

/-- Equality is a congruence exactly between values of which the second field agrees where the
other compared values do. -/
theorem same_congruent_iff (m m' : Memory) (r r' : MemoryRange) (w w' : Whisker)
    (t : WhiskerTree) :
    (m.Congruent m' ↔ (m.AgreesElsewhere m' → m.recRecEwma = m'.recRecEwma)) ∧
    (r.Congruent r' ↔ r.FollowsElsewhere r') ∧
    (w.Congruent w' ↔ (w.action = w'.action → w.domain.FollowsElsewhere w'.domain)) ∧
    (t.ReplacesOwnRegion w ↔ ∀ l, t.whisker w.domain.rangeMedian = some (some l) →
      w.domain.FollowsElsewhere l.domain) := by
  refine ⟨?_, MemoryRange.congruent_iff r r', ?_, ?_⟩
  · rw [Memory.Congruent, Memory.same_iff]
    constructor
    · exact fun h hagree => ((Memory.fields_eq_iff m m').mp (h hagree).1).2
    · intro h hagree
      have hfields := (Memory.fields_eq_iff m m').mpr ⟨hagree, h hagree⟩
      exact ⟨hfields, Memory.hashValue_congr hfields⟩
  · rw [Whisker.Congruent, Whisker.same_iff]
    constructor
    · intro h haction
      rw [← MemoryRange.sameBounds_of_same_iff]
      exact fun hsame => (h ⟨haction, hsame⟩).2.1
    · rintro h ⟨haction, hsame⟩
      have hbounds := (MemoryRange.sameBounds_of_same_iff _ _).mpr (h haction) hsame
      exact ⟨haction, hbounds, Whisker.hashValue_congr haction hbounds⟩
  · refine forall_congr' (fun l => forall_congr' (fun hfind => ?_))
    rw [WhiskerTree.replaceWhisker_found_iff hfind]
    exact MemoryRange.sameBounds_of_same_iff _ _

/-- The range of the root, cut off at 100 in the second field only. -/
def cutRange : MemoryRange := ⟨memory, memoryOf 163840 100 163840 163840⟩

/-- Values that differ in the second field only are equal. The rule for the cut range is put in
the place of the rule for the whole one. -/
theorem same_not_congruent :
    ¬ Memory.Congruent memory (memoryOf 0 1 0 0) ∧
      ¬ MemoryRange.Congruent cutRange ⟨memory, maxMemory⟩ ∧
      ¬ Whisker.Congruent (whiskerOf cutRange) (whiskerOf ⟨memory, maxMemory⟩) ∧
      ¬ WhiskerTree.ReplacesOwnRegion WhiskerTree.root (whiskerOf cutRange) := by
  have hsame : cutRange.Same ⟨memory, maxMemory⟩ := by decide
  have hbounds : ¬ cutRange.SameBounds ⟨memory, maxMemory⟩ := by
    rw [MemoryRange.sameBounds_iff]
    decide
  refine ⟨fun h => ?_, fun h => hbounds (h hsame).1, fun h => ?_, fun h => ?_⟩
  · have hfields := (h (by decide)).1
    rw [Memory.fields_eq_iff] at hfields
    exact absurd hfields.2 (by decide)
  · exact hbounds (h ⟨rfl, rfl, rfl, hsame⟩).2.1
  · have hfind : WhiskerTree.root.whisker (whiskerOf cutRange).domain.rangeMedian =
        some (some (whiskerOf ⟨memory, maxMemory⟩)) := by
      decide +kernel
    exact hbounds (h _ hfind ((WhiskerTree.replaceWhisker_found_iff hfind).mpr hsame))

end CopaNgscope
