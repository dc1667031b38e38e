import Mathlib.Data.Rat.Floor
import Mathlib.Tactic.Linarith
import CopaNgscope.RunInvariant
import CopaNgscope.WhiskerTree

/-! The search for better rules: `Whisker::next_generation` tries changes of a rule, within the
bounds that `get_optimizer` sets. -/
namespace CopaNgscope
open RunInvariant

/-! ### One setting -/

structure OptimizationSetting (T : Type*) where
  minValue : T
  maxValue : T
  minChange : T
  maxChange : T
  multiplier : T
  defaultValue : T

namespace OptimizationSetting
section
variable {T : Type*} [LE T] [Add T] [Sub T] [Mul T] (s : OptimizationSetting T)

def EligibleValue (value : T) : Prop := s.minValue ≤ value ∧ value ≤ s.maxValue

/-- The first three changes. -/
def changes : List T :=
  [s.minChange, s.minChange*s.multiplier, s.minChange*s.multiplier*s.multiplier]

variable [DecidableRel (LE.le : T → T → Prop)]

instance : DecidablePred s.EligibleValue := fun _ => inferInstanceAs (Decidable (_ ∧ _))

/-- The loop over the changes: up, then down. With `none` the rounds have run out. -/
def alternativesLoop (value : T) : ℕ → T → List T → Option (List T)
  | 0, _, _ => none
  | n+1, proposedChange, ret =>
    if proposedChange ≤ s.maxChange then
      alternativesLoop value n (proposedChange*s.multiplier)
        (ret ++ [value+proposedChange, value-proposedChange].filter fun x => s.EligibleValue x)
    else some ret

/-- A value that is not eligible is a failed assertion. -/
def alternatives (n : ℕ) (value : T) : Option (List T) :=
  if s.EligibleValue value then s.alternativesLoop value n s.minChange [value] else none

variable {s}

/-- The number of rounds does not depend on the value. -/
theorem isSome_alternativesLoop (value value' : T) (n : ℕ) (change : T) (ret ret' : List T) :
    (s.alternativesLoop value n change ret).isSome =
      (s.alternativesLoop value' n change ret').isSome := by
  induction n generalizing change ret ret' with
  | zero => rfl
  | succ n ih =>
    rw [alternativesLoop, alternativesLoop]
    split_ifs
    · exact ih _ _ _
    · rfl

/-- What the loop adds: eligible values, one of the changes away. -/
theorem alternativesLoop_spec {P : T → Prop}
    (hP : ∀ c, c ≤ s.maxChange → P c → P (c*s.multiplier)) {value : T}
    {n : ℕ} {change : T} {ret xs : List T} (hchange : P change)
    (h : s.alternativesLoop value n change ret = some xs) :
    ∃ more, xs = ret ++ more ∧ ∀ x ∈ more, s.EligibleValue x ∧
      ∃ c, P c ∧ c ≤ s.maxChange ∧ (x = value+c ∨ x = value-c) := by
  induction n generalizing change ret with
  | zero => cases h
  | succ n ih =>
    rw [alternativesLoop] at h
    split_ifs at h with hle
    · obtain ⟨more, hxs, hmore⟩ := ih (hP change hle hchange) h
      refine ⟨_ ++ more, hxs.trans (List.append_assoc _ _ _), fun x hx => ?_⟩
      rcases List.mem_append.mp hx with hx | hx
      · obtain ⟨hmem, helig⟩ := List.mem_filter.mp hx
        refine ⟨of_decide_eq_true helig, change, hchange, hle, ?_⟩
        rcases List.mem_cons.mp hmem with hup | hdown
        · exact .inl hup
        · exact .inr (List.mem_singleton.mp hdown)
      · exact hmore x hx
    · cases h
      exact ⟨[], (List.append_nil _).symm, fun x hx => absurd hx List.not_mem_nil⟩

theorem alternatives_spec
    (hlast : ¬s.minChange*s.multiplier*s.multiplier*s.multiplier ≤ s.maxChange) {n : ℕ}
    (hn : (s.alternativesLoop s.defaultValue n s.minChange []).isSome = true) {value : T}
    (hvalue : s.EligibleValue value) :
    ∃ more, s.alternatives n value = some (value :: more) ∧
      ∀ x ∈ more, s.EligibleValue x ∧ ∃ c ∈ s.changes, x = value+c ∨ x = value-c := by
  rw [isSome_alternativesLoop s.defaultValue value n s.minChange [] [value]] at hn
  obtain ⟨xs, hxs⟩ := Option.isSome_iff_exists.mp hn
  -- a change that is too great ends the loop
  have hnext : ∀ c, c ≤ s.maxChange → c ∈ s.changes ∨ ¬c ≤ s.maxChange →
      c*s.multiplier ∈ s.changes ∨ ¬c*s.multiplier ≤ s.maxChange := by
    intro c hle hc
    rcases hc with hc | hgreat
    · simp only [changes, List.mem_cons, List.not_mem_nil, or_false] at hc ⊢
      rcases hc with rfl | rfl | rfl
      · exact .inl (.inr (.inl rfl))
      · exact .inl (.inr (.inr rfl))
      · exact .inr hlast
    · exact absurd hle hgreat
  obtain ⟨more, hsplit, hmore⟩ := alternativesLoop_spec hnext (.inl List.mem_cons_self) hxs
  refine ⟨more, ?_, fun x hx => ?_⟩
  · rw [alternatives, if_pos hvalue, hxs, hsplit]
    rfl
  · obtain ⟨helig, c, hc, hle, hx⟩ := hmore x hx
    exact ⟨helig, c, hc.resolve_right (not_not.mpr hle), hx⟩

end
end OptimizationSetting

structure OptimizationSettings where
  windowIncrement : OptimizationSetting UInt32
  windowMultiple : OptimizationSetting ℚ
  intersend : OptimizationSetting ℚ

def getOptimizer : OptimizationSettings where
  windowIncrement := ⟨0, 256, 1, 32, 4, 1⟩
  windowMultiple := ⟨0, 1, 1/100, 1/2, 4, 1⟩
  intersend := ⟨1/4, 3, 1/20, 1, 4, 3⟩

/-- Every loop over these settings ends in its fourth round. -/
def changeRounds : ℕ := 4

/-! ### Rules -/

namespace Whisker

/-- The conversion to `int` cuts off what is after the fourth decimal. -/
def fourDecimals (x : ℚ) : ℚ := 1/10000*(Int.tdiv (10000*x).num (10000*x).den : ℤ)

def round (w : Whisker) : Whisker :=
  { w with windowMultiple := fourDecimals w.windowMultiple, intersend := fourDecimals w.intersend }

/-- A rule of the next generation. The window increment goes from `unsigned int` to `int`. -/
def child (w : Whisker) (altWindow : UInt32) (altMultiple altIntersend : ℚ) : Whisker :=
  round { w with
    generation := w.generation+1
    windowIncrement := Int.bmod altWindow.toNat (2^32)
    windowMultiple := altMultiple
    intersend := altIntersend }

/-- The three loops over the alternatives. -/
def children (w : Whisker) (windows : List UInt32) (multiples intersends : List ℚ) : List Whisker :=
  windows.flatMap fun altWindow => multiples.flatMap fun altMultiple =>
    intersends.map fun altIntersend => w.child altWindow altMultiple altIntersend

def nextGeneration (w : Whisker) : Option (List Whisker) :=
  (getOptimizer.windowIncrement.alternatives changeRounds (UInt32.ofInt w.windowIncrement)).bind
    fun windows => (getOptimizer.windowMultiple.alternatives changeRounds w.windowMultiple).bind
      fun multiples => (getOptimizer.intersend.alternatives changeRounds w.intersend).map
        fun intersends => w.children windows multiples intersends

def promote (generation : UInt32) (w : Whisker) : Whisker :=
  { w with generation := max w.generation generation }

def demote (generation : UInt32) (w : Whisker) : Whisker := { w with generation := generation }

/-- The bounds of the optimizer. -/
structure Eligible (w : Whisker) : Prop where
  windowIncrement : 0 ≤ w.windowIncrement ∧ w.windowIncrement ≤ 256
  windowMultiple : 0 ≤ w.windowMultiple ∧ w.windowMultiple ≤ 1
  intersend : 1/4 ≤ w.intersend ∧ w.intersend ≤ 3

theorem eligible_whiskerOf (domain : MemoryRange) : (whiskerOf domain).Eligible := by
  refine ⟨⟨?_, ?_⟩, ⟨?_, ?_⟩, ?_, ?_⟩ <;> norm_num [whiskerOf]

theorem fourDecimals_eq {x : ℚ} (h : 0 ≤ x) : fourDecimals x = ⌊10000*x⌋/10000 := by
  have hnum : 0 ≤ (10000*x).num := Rat.num_nonneg.mpr (by linarith)
  rw [fourDecimals, Int.tdiv_eq_ediv_of_nonneg hnum, ← Rat.floor_def']
  ring

/-- Less than the fourth decimal is lost, and a bound with four decimals is kept. -/
theorem fourDecimals_bounds {x : ℚ} (h : 0 ≤ x) :
    fourDecimals x ≤ x ∧ x < fourDecimals x+1/10000 ∧
      ∀ k : ℤ, (k:ℚ)/10000 ≤ x → (k:ℚ)/10000 ≤ fourDecimals x := by
  have hlow := Int.floor_le (10000*x)
  have hhigh := Int.lt_floor_add_one (10000*x)
  rw [fourDecimals_eq h]
  refine ⟨by linarith, by linarith, fun k hk => ?_⟩
  have hfloor : k ≤ ⌊10000*x⌋ := Int.le_floor.mpr (by linarith)
  have hcast : (k:ℚ) ≤ ⌊10000*x⌋ := Int.cast_le.mpr hfloor
  linarith

/-- A value that is the one before, or a change away. -/
def Near {T : Type*} [LE T] [Add T] [Sub T] (nonneg : T → Prop) (m v x : T) : Prop :=
  x = v ∨ ∃ c, nonneg c ∧ c ≤ m ∧ (x = v+c ∨ x = v-c)

/-- What is cut off a value near another one. -/
theorem fourDecimals_near {x v m : ℚ} (hx : 0 ≤ x) (hm : 0 ≤ m) (hnear : Near (0 ≤ ·) m v x) :
    |fourDecimals x-v| ≤ m+1/10000 := by
  obtain ⟨hle, hlt, _⟩ := fourDecimals_bounds hx
  rw [abs_le]
  rcases hnear with rfl | ⟨c, hc, hcm, rfl | rfl⟩
  · constructor
    · linarith
    · linarith
  · constructor
    · linarith
    · linarith
  · constructor
    · linarith
    · linarith

/-! ### The next generation -/

/-- A rule of the next generation: eligible, for the same memories, and not far away. The greatest
of the changes that are tried are 16, 0.16 and 0.8. -/
structure Follows (w u : Whisker) : Prop where
  eligible : u.Eligible
  domain : u.domain = w.domain
  generation : u.generation = w.generation+1
  windowIncrement : |u.windowIncrement-w.windowIncrement| ≤ 16
  windowMultiple : |u.windowMultiple-w.windowMultiple| ≤ 16/100+1/10000
  intersend : |u.intersend-w.intersend| ≤ 8/10+1/10000

/-- A change of the window increment that wraps around leaves the bounds. -/
theorem windowIncrement_near {v x : UInt32} (hv : v ≤ 256) (hx : x ≤ 256)
    (hnear : Near (fun _ => True) 16 v x) :
    |(x.toNat:ℤ)-v.toNat| ≤ 16 := by
  rw [UInt32.le_iff_toNat_le] at hv hx
  have hv' : v.toNat ≤ 256 := hv
  have hx' : x.toNat ≤ 256 := hx
  rw [abs_le]
  rcases hnear with rfl | ⟨c, _, hc, hup | hdown⟩
  · omega
  · have hc' : c.toNat ≤ 16 := UInt32.le_iff_toNat_le.mp hc
    have hsum := UInt32.toNat_add v c
    rw [← hup] at hsum
    omega
  · have hc' : c.toNat ≤ 16 := UInt32.le_iff_toNat_le.mp hc
    have hdiff := UInt32.toNat_sub v c
    rw [← hdown] at hdiff
    omega

variable {w u : Whisker}

theorem toNat_ofInt_windowIncrement (h : w.Eligible) :
    ((UInt32.ofInt w.windowIncrement).toNat:ℤ) = w.windowIncrement := by
  obtain ⟨hlow, hhigh⟩ := h.windowIncrement
  rw [UInt32.ofInt, UInt32.toNat_ofNat']
  omega

theorem follows_child (h : w.Eligible) {a : UInt32} {b d : ℚ}
    (ha : a ≤ 256) (hb : 0 ≤ b ∧ b ≤ 1) (hd : 1/4 ≤ d ∧ d ≤ 3)
    (hanear : Near (fun _ => True) 16 (UInt32.ofInt w.windowIncrement) a)
    (hbnear : Near (0 ≤ ·) (16/100) w.windowMultiple b)
    (hdnear : Near (0 ≤ ·) (8/10) w.intersend d) :
    w.Follows (w.child a b d) := by
  have hvalue := toNat_ofInt_windowIncrement h
  have hbound : a.toNat ≤ 256 := UInt32.le_iff_toNat_le.mp ha
  have hincrement : (w.child a b d).windowIncrement = a.toNat := by
    simp only [child, round, Int.bmod]
    omega
  obtain ⟨hble, _, hbkeep⟩ := fourDecimals_bounds hb.1
  obtain ⟨hdle, _, hdkeep⟩ := fourDecimals_bounds (x := d) (by linarith)
  have hzero := hbkeep 0 (by norm_num; exact hb.1)
  have hquarter := hdkeep 2500 (by norm_num at hd ⊢; exact hd.1)
  have hmultiple : (w.child a b d).windowMultiple = fourDecimals b := rfl
  have hintersend : (w.child a b d).intersend = fourDecimals d := rfl
  refine ⟨⟨?_, ?_, ?_⟩, rfl, rfl, ?_, ?_, ?_⟩
  · rw [hincrement]
    omega
  · rw [hmultiple]
    exact ⟨by linarith, hble.trans hb.2⟩
  · rw [hintersend]
    exact ⟨by linarith, hdle.trans hd.2⟩
  · have hold : UInt32.ofInt w.windowIncrement ≤ 256 := by
      rw [UInt32.le_iff_toNat_le]
      change (UInt32.ofInt w.windowIncrement).toNat ≤ 256
      have hhigh := h.windowIncrement.2
      omega
    have hnear := windowIncrement_near hold ha hanear
    rw [hvalue] at hnear
    rw [hincrement]
    exact hnear
  · rw [hmultiple]
    exact fourDecimals_near hb.1 (by norm_num) hbnear
  · rw [hintersend]
    exact fourDecimals_near (by linarith) (by norm_num) hdnear

/-- The alternatives of a setting of an eligible rule. -/
theorem alternatives_windowIncrement (h : w.Eligible) :
    ∃ more, getOptimizer.windowIncrement.alternatives changeRounds
        (UInt32.ofInt w.windowIncrement) = some (UInt32.ofInt w.windowIncrement :: more) ∧
      ∀ x ∈ UInt32.ofInt w.windowIncrement :: more,
        x ≤ 256 ∧ Near (fun _ => True) 16 (UInt32.ofInt w.windowIncrement) x := by
  have hvalue := toNat_ofInt_windowIncrement h
  have hold : getOptimizer.windowIncrement.EligibleValue (UInt32.ofInt w.windowIncrement) := by
    refine ⟨UInt32.zero_le, UInt32.le_iff_toNat_le.mpr ?_⟩
    change (UInt32.ofInt w.windowIncrement).toNat ≤ 256
    have hhigh := h.windowIncrement.2
    omega
  -- over the list, not over the finite type `UInt32`
  have hchanges : ∀ c ∈ getOptimizer.windowIncrement.changes, c ≤ 16 := by
    have hall : getOptimizer.windowIncrement.changes.all (fun c => decide (c ≤ 16)) = true := by
      decide +kernel
    exact fun c hc => of_decide_eq_true (List.all_eq_true.mp hall c hc)
  obtain ⟨more, hmore, hspec⟩ := OptimizationSetting.alternatives_spec (n := changeRounds)
    (by decide +kernel) (by decide +kernel) hold
  refine ⟨more, hmore, fun x hx => ?_⟩
  rcases List.mem_cons.mp hx with rfl | hx
  · exact ⟨hold.2, .inl rfl⟩
  · obtain ⟨helig, c, hc, hx⟩ := hspec x hx
    exact ⟨helig.2, .inr ⟨c, trivial, hchanges c hc, hx⟩⟩

theorem alternatives_rational {s : OptimizationSetting ℚ} {value m : ℚ}
    (hlast : ¬s.minChange*s.multiplier*s.multiplier*s.multiplier ≤ s.maxChange)
    (hchanges : ∀ c ∈ s.changes, 0 ≤ c ∧ c ≤ m)
    (hn : (s.alternativesLoop s.defaultValue changeRounds s.minChange []).isSome = true)
    (hvalue : s.EligibleValue value) :
    ∃ more, s.alternatives changeRounds value = some (value :: more) ∧
      ∀ x ∈ value :: more, s.EligibleValue x ∧ Near (0 ≤ ·) m value x := by
  obtain ⟨more, hmore, hspec⟩ := OptimizationSetting.alternatives_spec hlast hn hvalue
  refine ⟨more, hmore, fun x hx => ?_⟩
  rcases List.mem_cons.mp hx with rfl | hx
  · exact ⟨hvalue, .inl rfl⟩
  · obtain ⟨helig, c, hc, hx⟩ := hspec x hx
    exact ⟨helig, .inr ⟨c, (hchanges c hc).1, (hchanges c hc).2, hx⟩⟩

/-- The assertions of `alternatives` hold for an eligible rule. The first of the next generation is
the rule itself, cut to four decimals. -/
theorem nextGeneration_spec (h : w.Eligible) :
    ∃ rest, w.nextGeneration = some (w.child (UInt32.ofInt w.windowIncrement) w.windowMultiple
        w.intersend :: rest) ∧
      ∀ u ∈ w.child (UInt32.ofInt w.windowIncrement) w.windowMultiple w.intersend :: rest,
        w.Follows u := by
  obtain ⟨windows, hwindows, hwindow⟩ := alternatives_windowIncrement h
  obtain ⟨multiples, hmultiples, hmultiple⟩ := alternatives_rational
    (s := getOptimizer.windowMultiple) (m := 16/100) (by decide +kernel) (by decide +kernel)
    (by decide +kernel) h.windowMultiple
  obtain ⟨intersends, hintersends, hintersend⟩ := alternatives_rational
    (s := getOptimizer.intersend) (m := 8/10) (by decide +kernel) (by decide +kernel)
    (by decide +kernel) h.intersend
  obtain ⟨rest, hrest⟩ : ∃ rest, w.children (UInt32.ofInt w.windowIncrement :: windows)
      (w.windowMultiple :: multiples) (w.intersend :: intersends) =
        w.child (UInt32.ofInt w.windowIncrement) w.windowMultiple w.intersend :: rest := ⟨_, rfl⟩
  refine ⟨rest, ?_, fun u hu => ?_⟩
  · rw [nextGeneration, hwindows, hmultiples, hintersends, ← hrest]
    rfl
  · rw [← hrest, children] at hu
    obtain ⟨a, ha, hu⟩ := List.mem_flatMap.mp hu
    obtain ⟨b, hb, hu⟩ := List.mem_flatMap.mp hu
    obtain ⟨d, hd, rfl⟩ := List.mem_map.mp hu
    obtain ⟨hb, hbnear⟩ := hmultiple b hb
    obtain ⟨hd, hdnear⟩ := hintersend d hd
    exact follows_child h (hwindow a ha).1 hb hd (hwindow a ha).2 hbnear hdnear

/-! ### Runs of the search -/

/-- A rule becomes one of the next generation or a part of itself, or its generation is set. -/
inductive SearchAction
  | next (i : ℕ)
  | bisect (median : ℕ → ℚ) (i : ℕ)
  | promote (generation : UInt32)
  | demote (generation : UInt32)

def searchStep (w : Whisker) : SearchAction → Option Whisker
  | .next i => w.nextGeneration.bind (·[i]?)
  | .bisect median i => (w.bisect median).bind (·[i]?)
  | .promote generation => some (w.promote generation)
  | .demote generation => some (w.demote generation)

theorem Eligible.searchStep {a : SearchAction} (h : w.Eligible)
    (hu : w.searchStep a = some u) : u.Eligible := by
  cases a with
  | next i =>
    obtain ⟨rest, hnext, hfollows⟩ := nextGeneration_spec h
    rw [Whisker.searchStep, hnext, Option.bind_some] at hu
    exact (hfollows u (List.mem_of_getElem? hu)).eligible
  | bisect median i =>
    obtain ⟨parts, hparts, hpart⟩ := Option.bind_eq_some_iff.mp hu
    obtain ⟨ranges, _, rfl⟩ := Option.map_eq_some_iff.mp hparts
    obtain ⟨x, _, rfl⟩ := List.mem_map.mp (List.mem_of_getElem? hpart)
    exact ⟨h.windowIncrement, h.windowMultiple, h.intersend⟩
  | promote generation =>
    cases hu
    exact ⟨h.windowIncrement, h.windowMultiple, h.intersend⟩
  | demote generation =>
    cases hu
    exact ⟨h.windowIncrement, h.windowMultiple, h.intersend⟩

/-- However a rule is searched for from the default one, it stays within the bounds, and its next
generation is never a failed assertion: it begins with the rule itself, cut to four decimals, and
holds eligible rules for the same memories only, at most the greatest change that is tried and a
fourth decimal away. -/
theorem rule_search_stays_eligible {domain : MemoryRange} {actions : List SearchAction}
    (hrun : run searchStep (whiskerOf domain) actions = some w) :
    w.Eligible ∧ ∃ rest, w.nextGeneration = some
      (round { w with generation := w.generation+1 } :: rest) ∧
        ∀ u ∈ round { w with generation := w.generation+1 } :: rest, w.Follows u := by
  have helig : w.Eligible := run_invariant searchStep Eligible
    (fun _ _ _ h hstep => h.searchStep hstep) (eligible_whiskerOf domain) hrun
  have hvalue := toNat_ofInt_windowIncrement helig
  have hsame : w.child (UInt32.ofInt w.windowIncrement) w.windowMultiple w.intersend =
      round { w with generation := w.generation+1 } := by
    have hint : Int.bmod ((UInt32.ofInt w.windowIncrement).toNat:ℤ) (2^32) =
        w.windowIncrement := by
      have hhigh := helig.windowIncrement
      rw [hvalue]
      simp only [Int.bmod]
      omega
    rw [child, hint]
  rw [← hsame]
  exact ⟨helig, nextGeneration_spec helig⟩

theorem rule_search_stays_eligible_third : ∃ w,
    run searchStep (whiskerOf ⟨memory, maxMemory⟩) [.next 40, .promote 3, .next 7] = some w ∧
    w.Eligible ∧ ∃ rest, w.nextGeneration = some
      (round { w with generation := w.generation+1 } :: rest) ∧
        ∀ u ∈ round { w with generation := w.generation+1 } :: rest, w.Follows u := by
  have hrun := (Option.some_get (x := run searchStep (whiskerOf ⟨memory, maxMemory⟩)
    [.next 40, .promote 3, .next 7]) (by decide +kernel)).symm
  exact ⟨_, hrun, rule_search_stays_eligible hrun⟩

end Whisker
end CopaNgscope
