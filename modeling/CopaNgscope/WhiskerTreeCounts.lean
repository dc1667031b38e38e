import CopaNgscope.LastMax
import CopaNgscope.WhiskerTreePartition

/-! What a whisker tree counts: every use of a whisker is counted in its range, and the tree tells
which whisker was used most. -/
namespace CopaNgscope
open LastMax

/-- A whisker with the count of its range, and the memories that the accumulators of the range were
given. -/
structure UsedWhisker where
  whisker : Whisker
  count : UInt32
  tracked : List Memory
deriving DecidableEq

namespace UsedWhisker

/-- `use`, and `track` of its range. -/
def use (w : UsedWhisker) (m : Memory) (track : Bool) : UsedWhisker :=
  { w with count := w.count+1, tracked := if track then w.tracked ++ [m] else w.tracked }

def resetCount (w : UsedWhisker) : UsedWhisker := { w with count := 0 }

/-- What a query does to the whisker of a leaf. -/
def meet (m : Memory) (track : Bool) (w : UsedWhisker) : UsedWhisker :=
  if w.whisker.domain.Contains m then w.use m track else w

def demote (generation : UInt32) (w : UsedWhisker) : UsedWhisker :=
  { w with whisker := { w.whisker with generation := generation } }

def promote (generation : UInt32) (w : UsedWhisker) : UsedWhisker :=
  { w with whisker := { w.whisker with generation := max w.whisker.generation generation } }

end UsedWhisker

/-- A tree whose leaves are counted. The ranges of the other nodes are not. -/
inductive UsedTree
  | leaf (domain : MemoryRange) (whisker : UsedWhisker)
  | interior (domain : MemoryRange) (children : List UsedTree)

namespace UsedTree

def domain : UsedTree → MemoryRange
  | .leaf domain _ => domain
  | .interior domain _ => domain

mutual

/-- `use_whisker`: the whisker that was found, and the tree after its use; `none` is a failed
assertion, and a null pointer within. -/
def use (m : Memory) (track : Bool) : UsedTree → Option (Option (Whisker × UsedTree))
  | .leaf domain w =>
    some (if domain.Contains m then some (w.whisker, .leaf domain (w.use m track)) else none)
  | .interior domain children =>
    if domain.Contains m then
      (useIn m track children).map fun r => some (r.1, .interior domain r.2)
    else some none

def useIn (m : Memory) (track : Bool) : List UsedTree → Option (Whisker × List UsedTree)
  | [] => none
  | x :: xs => (use m track x).bind fun ret =>
    match ret with
    | some r => some (r.1, r.2 :: xs)
    | none => (useIn m track xs).map fun r => (r.1, x :: r.2)

end

mutual

/-- What is done to every leaf. -/
def onLeaves (f : UsedWhisker → UsedWhisker) : UsedTree → UsedTree
  | .leaf domain w => .leaf domain (f w)
  | .interior domain children => .interior domain (onLeavesIn f children)

def onLeavesIn (f : UsedWhisker → UsedWhisker) : List UsedTree → List UsedTree
  | [] => []
  | x :: xs => onLeaves f x :: onLeavesIn f xs

end

def resetCounts : UsedTree → UsedTree := onLeaves UsedWhisker.resetCount

def resetGeneration : UsedTree → UsedTree := onLeaves (UsedWhisker.demote 0)

def promote (generation : UInt32) : UsedTree → UsedTree := onLeaves (UsedWhisker.promote generation)

mutual

def mostUsed (maxGeneration : UInt32) : UsedTree → Option UsedWhisker
  | .leaf _ w => if w.whisker.generation ≤ maxGeneration ∧ 0 < w.count then some w else none
  | .interior _ children => mostUsedIn maxGeneration children 0 none

/-- The loop over the children, with the greatest count so far and the whisker that has it. -/
def mostUsedIn (maxGeneration : UInt32) : List UsedTree → UInt32 → Option UsedWhisker →
    Option UsedWhisker
  | [], _, ret => ret
  | x :: xs, countMax, ret =>
    match mostUsed maxGeneration x with
    | some candidate =>
      if candidate.whisker.generation ≤ maxGeneration ∧ countMax ≤ candidate.count then
        mostUsedIn maxGeneration xs candidate.count (some candidate)
      else mostUsedIn maxGeneration xs countMax ret
    | none => mostUsedIn maxGeneration xs countMax ret

end

mutual

def totalWhiskerQueries : UsedTree → UInt32
  | .leaf _ w => w.count
  | .interior _ children => totalIn children 0

def totalIn : List UsedTree → UInt32 → UInt32
  | [], sum => sum
  | x :: xs, sum => totalIn xs (sum+x.totalWhiskerQueries)

end

mutual

def leaves : UsedTree → List UsedWhisker
  | .leaf _ w => [w]
  | .interior _ children => leavesIn children

def leavesIn : List UsedTree → List UsedWhisker
  | [] => []
  | x :: xs => x.leaves ++ leavesIn xs

end

mutual

/-- A tree as it is constructed. -/
def fresh : WhiskerTree → UsedTree
  | .leaf domain w => .leaf domain ⟨w, 0, []⟩
  | .interior domain children => .interior domain (freshIn children)

def freshIn : List WhiskerTree → List UsedTree
  | [] => []
  | x :: xs => fresh x :: freshIn xs

end

mutual

/-- The tree without its counts. -/
def plain : UsedTree → WhiskerTree
  | .leaf domain w => .leaf domain w.whisker
  | .interior domain children => .interior domain (plainIn children)

def plainIn : List UsedTree → List WhiskerTree
  | [] => []
  | x :: xs => x.plain :: plainIn xs

end

@[elab_as_elim] theorem induct {motive : UsedTree → Prop}
    (leaf : ∀ domain w, motive (.leaf domain w))
    (interior : ∀ domain children, (∀ c ∈ children, motive c) →
      motive (.interior domain children)) (t : UsedTree) : motive t :=
  match t with
  | .leaf domain w => leaf domain w
  | .interior domain children => interior domain children (fun c _ => induct leaf interior c)

theorem domain_plain (t : UsedTree) : t.plain.domain = t.domain := by
  cases t with
  | leaf domain w => rfl
  | interior domain children => rfl

theorem mem_plainIn {cs : List UsedTree} {c : UsedTree} (hc : c ∈ cs) : c.plain ∈ plainIn cs := by
  induction cs with
  | nil => exact absurd hc List.not_mem_nil
  | cons d cs ih =>
    rcases List.mem_cons.mp hc with rfl | hc
    · exact List.mem_cons_self
    · exact List.mem_cons_of_mem _ (ih hc)

theorem leaves_plain (t : UsedTree) : t.plain.leaves = t.leaves.map UsedWhisker.whisker := by
  induction t using induct with
  | leaf domain w => rfl
  | interior domain children ih =>
    rw [plain, WhiskerTree.leaves, leaves]
    induction children with
    | nil => rfl
    | cons c cs ihcs =>
      obtain ⟨hc, hrest⟩ := List.forall_mem_cons.mp ih
      rw [plainIn, WhiskerTree.leavesIn, hc, ihcs hrest, leavesIn, List.map_append]

theorem plain_fresh (t : WhiskerTree) : (fresh t).plain = t := by
  induction t using WhiskerTree.induct with
  | leaf domain w => rfl
  | interior domain children ih =>
    rw [fresh, plain]
    congr 1
    induction children with
    | nil => rfl
    | cons c cs ihcs =>
      obtain ⟨hc, hrest⟩ := List.forall_mem_cons.mp ih
      rw [freshIn, plainIn, hc, ihcs hrest]

/-! ### Leaves -/

theorem leaves_fresh (t : WhiskerTree) : (fresh t).leaves = t.leaves.map fun w => ⟨w, 0, []⟩ := by
  induction t using WhiskerTree.induct with
  | leaf domain w => rfl
  | interior domain children ih =>
    rw [fresh, leaves, WhiskerTree.leaves]
    induction children with
    | nil => rfl
    | cons c cs ihcs =>
      obtain ⟨hc, hrest⟩ := List.forall_mem_cons.mp ih
      rw [freshIn, leavesIn, hc, ihcs hrest, WhiskerTree.leavesIn, List.map_append]

theorem leaves_onLeaves (f : UsedWhisker → UsedWhisker) (t : UsedTree) :
    (t.onLeaves f).leaves = t.leaves.map f := by
  induction t using induct with
  | leaf domain w => rfl
  | interior domain children ih =>
    rw [onLeaves, leaves, leaves]
    induction children with
    | nil => rfl
    | cons c cs ihcs =>
      obtain ⟨hc, hrest⟩ := List.forall_mem_cons.mp ih
      rw [onLeavesIn, leavesIn, hc, ihcs hrest, leavesIn, List.map_append]

/-- What leaves the rules alone leaves the plain tree alone. -/
theorem plain_onLeaves {f : UsedWhisker → UsedWhisker} (hf : ∀ w, (f w).whisker = w.whisker)
    (t : UsedTree) : (t.onLeaves f).plain = t.plain := by
  induction t using induct with
  | leaf domain w => rw [onLeaves, plain, plain, hf]
  | interior domain children ih =>
    rw [onLeaves, plain, plain]
    congr 1
    induction children with
    | nil => rfl
    | cons c cs ihcs =>
      obtain ⟨hc, hrest⟩ := List.forall_mem_cons.mp ih
      rw [onLeavesIn, plainIn, hc, ihcs hrest, plainIn]

/-- Leaves that keep their domains keep a tree tiled. -/
theorem tiled_onLeaves {f : UsedWhisker → UsedWhisker}
    (hf : ∀ w, (f w).whisker.domain = w.whisker.domain) {t : UsedTree} (h : t.plain.Tiled) :
    (t.onLeaves f).plain.Tiled := by
  induction t using induct with
  | leaf domain w =>
    rw [plain] at h
    cases h
    rw [onLeaves, plain, ← hf w]
    exact .leaf (f w).whisker
  | interior domain children ih =>
    rw [plain] at h
    cases h with
    | interior hparts hchildren =>
      have hdomains (cs : List UsedTree) : (plainIn (onLeavesIn f cs)).map WhiskerTree.domain =
          (plainIn cs).map WhiskerTree.domain := by
        induction cs with
        | nil => rfl
        | cons c cs ihcs =>
          have hc : (c.onLeaves f).plain.domain = c.plain.domain := by cases c <;> rfl
          rw [onLeavesIn, plainIn, List.map_cons, hc, ihcs, plainIn, List.map_cons]
      have htiled {cs : List UsedTree} (hcs : ∀ c ∈ cs, (c.onLeaves f).plain.Tiled) :
          ∀ d ∈ plainIn (onLeavesIn f cs), d.Tiled := by
        induction cs with
        | nil => exact List.forall_mem_nil _
        | cons c cs ihcs =>
          obtain ⟨hc, hrest⟩ := List.forall_mem_cons.mp hcs
          exact List.forall_mem_cons.mpr ⟨hc, ihcs hrest⟩
      rw [onLeaves, plain]
      apply WhiskerTree.Tiled.interior
      · rw [hdomains]
        exact hparts
      · apply htiled
        intro c hc
        exact ih c hc (hchildren c.plain (mem_plainIn hc))

/-! ### Queries -/

/-- A query counts in the leaf that contains it, and in no other one. -/
def Counts (t : UsedTree) (m : Memory) (track : Bool) : Prop :=
  if t.domain.Contains m then
    ∃ w t', t.use m track = some (some (w, t')) ∧ t'.plain = t.plain ∧
      t'.leaves = t.leaves.map (UsedWhisker.meet m track)
  else t.use m track = some none ∧ ∀ w ∈ t.leaves, ¬ w.whisker.domain.Contains m

open WhiskerTree MemoryRange CellPartition

theorem map_meet_eq {m : Memory} {track : Bool} {ws : List UsedWhisker}
    (h : ∀ w ∈ ws, ¬ w.whisker.domain.Contains m) : ws.map (UsedWhisker.meet m track) = ws := by
  have hsame : ∀ w ∈ ws, w.meet m track = id w := fun w hw => if_neg (h w hw)
  rw [List.map_congr_left hsame, List.map_id]

/-- Among children of which none contains `m` no leaf does. -/
theorem not_contains_leavesIn {cs : List UsedTree} {m : Memory} {track : Bool}
    (h : ∀ c ∈ cs, c.Counts m track)
    (hnone : cellsAt Inside m ((plainIn cs).map WhiskerTree.domain) = []) :
    ∀ w ∈ leavesIn cs, ¬ w.whisker.domain.Contains m := by
  induction cs with
  | nil => exact fun w hw => absurd hw List.not_mem_nil
  | cons c cs ih =>
    obtain ⟨hc, hrest⟩ := List.forall_mem_cons.mp h
    rw [plainIn, cellsAt_map_cons, domain_plain] at hnone
    by_cases hm : c.domain.Contains m
    · rw [if_pos hm] at hnone
      exact absurd hnone (List.cons_ne_nil _ _)
    · rw [if_neg hm] at hnone
      rw [Counts, if_neg hm] at hc
      intro w hw
      exact (List.mem_append.mp hw).elim (hc.2 w) (ih hrest hnone w)

theorem useIn_counts {cs : List UsedTree} {m : Memory} {track : Bool}
    (h : ∀ c ∈ cs, c.Counts m track)
    (hone : (cellsAt Inside m ((plainIn cs).map WhiskerTree.domain)).length = 1) :
    ∃ w cs', useIn m track cs = some (w, cs') ∧ plainIn cs' = plainIn cs ∧
      leavesIn cs' = (leavesIn cs).map (UsedWhisker.meet m track) := by
  induction cs with
  | nil => cases hone
  | cons c cs ih =>
    obtain ⟨hc, hrest⟩ := List.forall_mem_cons.mp h
    rw [plainIn, cellsAt_map_cons, domain_plain] at hone
    rw [useIn, leavesIn, List.map_append, plainIn]
    by_cases hm : c.domain.Contains m
    · -- the later children do not contain it
      rw [if_pos hm, List.length_cons, Nat.succ_inj, List.length_eq_zero_iff] at hone
      rw [Counts, if_pos hm] at hc
      obtain ⟨w, c', huse, hplain, hleaves⟩ := hc
      have hlater := not_contains_leavesIn hrest hone
      refine ⟨w, c' :: cs, ?_, ?_, ?_⟩
      · rw [huse]
        rfl
      · rw [plainIn, hplain]
      · rw [leavesIn, hleaves, map_meet_eq hlater]
    · rw [if_neg hm] at hone
      rw [Counts, if_neg hm] at hc
      obtain ⟨w, cs', huse, hplain, hleaves⟩ := ih hrest hone
      refine ⟨w, c :: cs', ?_, ?_, ?_⟩
      · rw [hc.1, Option.bind_some, huse]
        rfl
      · rw [plainIn, hplain]
      · rw [leavesIn, hleaves, map_meet_eq hc.2]

theorem counts_of_tiled {t : UsedTree} (h : t.plain.Tiled) (m : Memory) (track : Bool) :
    t.Counts m track := by
  induction t using induct with
  | leaf domain w =>
    rw [plain] at h
    cases h
    rw [Counts, use, leaves]
    by_cases hm : w.whisker.domain.Contains m
    · rw [if_pos (show (leaf w.whisker.domain w).domain.Contains m from hm), if_pos hm]
      refine ⟨_, _, rfl, rfl, ?_⟩
      rw [leaves, List.map_singleton, UsedWhisker.meet, if_pos hm]
    · rw [if_neg (show ¬ (leaf w.whisker.domain w).domain.Contains m from hm), if_neg hm]
      refine ⟨rfl, ?_⟩
      intro v hv
      rw [List.mem_singleton.mp hv]
      exact hm
  | interior domain children ih =>
    rw [plain] at h
    cases h with
    | interior hparts htiled =>
      have hcounts : ∀ c ∈ children, c.Counts m track :=
        fun c hc => ih c hc (htiled _ (mem_plainIn hc))
      have hcells := hparts m
      rw [Counts, use, leaves]
      by_cases hm : domain.Contains m
      · rw [if_pos (show Inside m domain from hm)] at hcells
        obtain ⟨w, cs', huse, hplain, hleaves⟩ := useIn_counts hcounts hcells
        rw [if_pos (show (interior domain children).domain.Contains m from hm), if_pos hm, huse]
        exact ⟨w, _, rfl, by rw [plain, plain, hplain], hleaves⟩
      · rw [if_neg (show ¬ Inside m domain from hm), List.length_eq_zero_iff] at hcells
        rw [if_neg (show ¬ (interior domain children).domain.Contains m from hm), if_neg hm]
        exact ⟨rfl, not_contains_leavesIn hcounts hcells⟩

/-- The rule is the one that the plain tree gives. -/
theorem use_eq_whisker (t : UsedTree) (m : Memory) (track : Bool) :
    (t.use m track).map (Option.map Prod.fst) = t.plain.whisker m := by
  induction t using induct with
  | leaf domain w =>
    rw [use, plain, WhiskerTree.whisker]
    split_ifs
    · rfl
    · rfl
  | interior domain children ih =>
    rw [use, plain, WhiskerTree.whisker]
    split_ifs
    · have hloop : (useIn m track children).map (fun r => some r.1) =
          WhiskerTree.whiskerIn (plainIn children) m := by
        induction children with
        | nil => rfl
        | cons c cs ihcs =>
          obtain ⟨hc, hrest⟩ := List.forall_mem_cons.mp ih
          rw [useIn, plainIn, WhiskerTree.whiskerIn, ← hc, ← ihcs hrest]
          cases c.use m track with
          | none => rfl
          | some ret =>
            cases ret with
            | none => simp [Function.comp_def]
            | some r => rfl
      rw [← hloop, Option.map_map]
      rfl
    · rfl

/-! ### What the counts tell -/

def uses (w : UsedWhisker) : ℕ := w.count.toNat

/-- The whiskers that `most_used` looks at. -/
def Eligible (maxGeneration : UInt32) (w : UsedWhisker) : Prop :=
  w.whisker.generation ≤ maxGeneration ∧ 0 < w.count

instance (maxGeneration : UInt32) : DecidablePred (Eligible maxGeneration) :=
  fun _ => inferInstanceAs (Decidable (_ ∧ _))

/-- The loop goes on from the best of the leaves before. -/
theorem mostUsedIn_isLastMax {g : UInt32} {cs : List UsedTree}
    (h : ∀ c ∈ cs, IsLastMax (Eligible g) uses c.leaves (c.mostUsed g))
    {ws : List UsedWhisker} {ret : Option UsedWhisker} {countMax : UInt32}
    (hret : IsLastMax (Eligible g) uses ws ret)
    (hcount : countMax = ret.elim 0 UsedWhisker.count) :
    IsLastMax (Eligible g) uses (ws ++ leavesIn cs)
      (mostUsedIn g cs countMax ret) := by
  induction cs generalizing ws ret countMax with
  | nil =>
    rw [leavesIn, List.append_nil, mostUsedIn]
    exact hret
  | cons c cs ih =>
    obtain ⟨hc, hrest⟩ := List.forall_mem_cons.mp h
    have hnext := hret.append hc
    rw [leavesIn, ← List.append_assoc, mostUsedIn]
    cases hused : c.mostUsed g with
    | none =>
      rw [hused, later] at hnext
      exact ih hrest hnext hcount
    | some candidate =>
      rw [hused] at hc hnext
      have hgen : candidate.whisker.generation ≤ g := by
        cases hc with
        | found before after split hx hbefore hafter => exact hx.1
      by_cases hle : countMax ≤ candidate.count
      · have hlater : later uses ret (some candidate) = some candidate := by
          apply if_neg
          rintro ⟨x, hx, hlt⟩
          rw [hcount, Option.mem_def.mp hx, Option.elim_some, UInt32.le_iff_toNat_le] at hle
          exact absurd hlt (not_lt.mpr hle)
        rw [hlater] at hnext
        dsimp only
        rw [if_pos ⟨hgen, hle⟩]
        exact ih hrest hnext rfl
      · have hlater : later uses ret (some candidate) = ret := by
          apply if_pos
          cases ret with
          | none =>
            rw [hcount, Option.elim_none, UInt32.le_iff_toNat_le] at hle
            exact absurd (Nat.zero_le _) hle
          | some x =>
            rw [hcount, Option.elim_some, UInt32.le_iff_toNat_le] at hle
            exact ⟨x, Option.mem_some_self x, not_le.mp hle⟩
        rw [hlater] at hnext
        dsimp only
        rw [if_neg (fun hboth => hle hboth.2)]
        exact ih hrest hnext hcount

/-- The whisker found is the last of those that were used most. -/
theorem mostUsed_isLastMax (g : UInt32) (t : UsedTree) :
    IsLastMax (Eligible g) uses t.leaves (t.mostUsed g) := by
  induction t using induct with
  | leaf domain w =>
    rw [leaves, mostUsed]
    exact IsLastMax.singleton w
  | interior domain children ih =>
    rw [leaves, mostUsed]
    have hnone : IsLastMax (Eligible g) uses [] none :=
      .absent fun w hw => absurd hw List.not_mem_nil
    exact mostUsedIn_isLastMax ih hnone rfl

theorem totalIn_eq {cs : List UsedTree} (h : ∀ c ∈ cs, c.totalWhiskerQueries =
      UInt32.ofNat (c.leaves.map fun w => w.count.toNat).sum) (sum : UInt32) :
    totalIn cs sum = sum+UInt32.ofNat ((leavesIn cs).map fun w => w.count.toNat).sum := by
  induction cs generalizing sum with
  | nil => exact (UInt32.add_zero sum).symm
  | cons c cs ih =>
    obtain ⟨hc, hrest⟩ := List.forall_mem_cons.mp h
    rw [totalIn, ih hrest, hc, leavesIn, List.map_append, List.sum_append, UInt32.ofNat_add,
      UInt32.add_assoc]

/-- The total is the sum over the leaves, as an `unsigned int`. -/
theorem totalWhiskerQueries_eq (t : UsedTree) :
    t.totalWhiskerQueries = UInt32.ofNat (t.leaves.map fun w => w.count.toNat).sum := by
  induction t using induct with
  | leaf domain w =>
    rw [totalWhiskerQueries, leaves, List.map_singleton, List.sum_singleton, UInt32.ofNat_toNat]
  | interior domain children ih =>
    rw [totalWhiskerQueries, leaves, totalIn_eq ih, UInt32.zero_add]

end UsedTree

end CopaNgscope
