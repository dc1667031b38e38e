import CopaNgscope.WhiskerTree

/-! The file format of whisker trees: the messages of `dna.proto` that a tree is written to, and
the constructors that read them. -/
namespace CopaNgscope

/-! ### Messages -/

namespace RemyBuffers

structure Memory where
  recSendEwma : Option ℚ
  recRecEwma : Option ℚ
  rttRatio : Option ℚ
  slowRecRecEwma : Option ℚ

structure MemoryRange where
  lower : Option Memory
  upper : Option Memory

structure Whisker where
  windowIncrement : Option ℤ
  windowMultiple : Option ℚ
  intersend : Option ℚ
  domain : Option MemoryRange

inductive WhiskerTree
  | mk (domain : Option MemoryRange) (children : List WhiskerTree) (leaf : Option Whisker)

/-- What is read of a message that is not set. -/
def Memory.default : Memory := ⟨none, none, none, none⟩

def MemoryRange.default : MemoryRange := ⟨none, none⟩

end RemyBuffers

/-! ### Writing -/

def Memory.dna (m : Memory) : RemyBuffers.Memory :=
  ⟨some m.recSendEwma, some m.recRecEwma, some m.rttRatio, some m.slowRecRecEwma⟩

def MemoryRange.dna (r : MemoryRange) : RemyBuffers.MemoryRange :=
  ⟨some r.lower.dna, some r.upper.dna⟩

/-- The generation is not written. -/
def Whisker.dna (w : Whisker) : RemyBuffers.Whisker :=
  ⟨some w.windowIncrement, some w.windowMultiple, some w.intersend, some w.domain.dna⟩

namespace WhiskerTree

mutual

def dna : WhiskerTree → RemyBuffers.WhiskerTree
  | .leaf domain w => .mk (some domain.dna) [] (some w.dna)
  | .interior domain children => .mk (some domain.dna) (dnaIn children) none

def dnaIn : List WhiskerTree → List RemyBuffers.WhiskerTree
  | [] => []
  | x :: xs => x.dna :: dnaIn xs

end

end WhiskerTree

/-! ### Reading -/

/-- A missing field is a wildcard. -/
def getValOrDefault (field : Option ℚ) (limit : Bool) : ℚ :=
  field.getD (if limit then 0 else 163840)

def memoryOfDna (isLowerLimit : Bool) (dna : RemyBuffers.Memory) : Memory :=
  memoryOf (getValOrDefault dna.recSendEwma isLowerLimit)
    (getValOrDefault dna.recRecEwma isLowerLimit) (getValOrDefault dna.rttRatio isLowerLimit)
    (getValOrDefault dna.slowRecRecEwma isLowerLimit)

def memoryRangeOfDna (dna : RemyBuffers.MemoryRange) : MemoryRange :=
  ⟨memoryOfDna true (dna.lower.getD .default), memoryOfDna false (dna.upper.getD .default)⟩

def whiskerOfDna (dna : RemyBuffers.Whisker) : Whisker where
  generation := 0
  windowIncrement := dna.windowIncrement.getD 0
  windowMultiple := dna.windowMultiple.getD 0
  intersend := dna.intersend.getD 0
  domain := memoryRangeOfDna (dna.domain.getD .default)

namespace WhiskerTree

mutual

/-- `none` is a failed assertion. -/
def ofDna : RemyBuffers.WhiskerTree → Option WhiskerTree
  | .mk domain children (some w) =>
    if children.isEmpty then
      some (.leaf (memoryRangeOfDna (domain.getD .default)) (whiskerOfDna w))
    else none
  | .mk domain children none =>
    if children.isEmpty then none
    else (ofDnaIn children).map fun cs => .interior (memoryRangeOfDna (domain.getD .default)) cs

def ofDnaIn : List RemyBuffers.WhiskerTree → Option (List WhiskerTree)
  | [] => some []
  | x :: xs => (ofDna x).bind fun c => (ofDnaIn xs).map fun cs => c :: cs

end

end WhiskerTree

/-- Every node is a leaf without children, or has children and no leaf. -/
inductive RemyBuffers.WhiskerTree.Constructible : RemyBuffers.WhiskerTree → Prop
  | leaf (domain : Option MemoryRange) (w : Whisker) : Constructible (.mk domain [] (some w))
  | interior (domain : Option MemoryRange) {children : List WhiskerTree} : children ≠ [] →
      (∀ c ∈ children, Constructible c) → Constructible (.mk domain children none)

namespace WhiskerTree

mutual

theorem constructible_of_ofDna :
    ∀ {dna : RemyBuffers.WhiskerTree} {t : WhiskerTree}, ofDna dna = some t → dna.Constructible
  | .mk domain children (some w), _, h => by
    cases children with
    | nil => exact .leaf domain w
    | cons c cs => cases h
  | .mk domain children none, _, h => by
    cases children with
    | nil => cases h
    | cons c cs =>
      obtain ⟨ts, hts, -⟩ := Option.map_eq_some_iff.mp h
      exact .interior domain (List.cons_ne_nil c cs) (constructible_of_ofDnaIn hts)

theorem constructible_of_ofDnaIn :
    ∀ {cs : List RemyBuffers.WhiskerTree} {ts : List WhiskerTree}, ofDnaIn cs = some ts →
      ∀ c ∈ cs, c.Constructible
  | [], _, _ => List.forall_mem_nil _
  | c :: cs, _, h => by
    obtain ⟨t, ht, hrest⟩ := Option.bind_eq_some_iff.mp h
    obtain ⟨ts, hts, -⟩ := Option.map_eq_some_iff.mp hrest
    exact List.forall_mem_cons.mpr ⟨constructible_of_ofDna ht, constructible_of_ofDnaIn hts⟩

end

theorem ofDnaIn_isSome {cs : List RemyBuffers.WhiskerTree}
    (h : ∀ c ∈ cs, (ofDna c).isSome) : (ofDnaIn cs).isSome := by
  induction cs with
  | nil => rfl
  | cons c cs ih =>
    obtain ⟨hhead, htail⟩ := List.forall_mem_cons.mp h
    obtain ⟨t, ht⟩ := Option.isSome_iff_exists.mp hhead
    obtain ⟨ts, hts⟩ := Option.isSome_iff_exists.mp (ih htail)
    rw [ofDnaIn, ht, hts]
    rfl

/-- The assertions of the constructor. -/
theorem ofDna_isSome_iff (dna : RemyBuffers.WhiskerTree) :
    (ofDna dna).isSome ↔ dna.Constructible := by
  constructor
  · intro h
    obtain ⟨t, ht⟩ := Option.isSome_iff_exists.mp h
    exact constructible_of_ofDna ht
  · intro h
    induction h with
    | leaf domain w => rfl
    | interior domain hne _ ih =>
      rw [ofDna, if_neg (by rwa [List.isEmpty_iff]), Option.isSome_map]
      exact ofDnaIn_isSome ih

end WhiskerTree

/-! ### What is read back -/

/-- Both bounds have the same tracked fields. -/
def MemoryRange.SameBounds (r r' : MemoryRange) : Prop :=
  r'.lower.fields = r.lower.fields ∧ r'.upper.fields = r.upper.fields

/-- What a rule does: increment and multiple of the window, and the pacing. -/
def Whisker.action (w : Whisker) : ℤ × ℚ × ℚ := (w.windowIncrement, w.windowMultiple, w.intersend)

/-- The same rule of generation 0. -/
structure Whisker.Rereads (w w' : Whisker) : Prop where
  generation : w'.generation = 0
  action : w'.action = w.action
  domain : w.domain.SameBounds w'.domain

theorem memoryOfDna_dna (isLowerLimit : Bool) (m : Memory) :
    (memoryOfDna isLowerLimit m.dna).fields = m.fields := rfl

theorem memoryRangeOfDna_dna (r : MemoryRange) : r.SameBounds (memoryRangeOfDna r.dna) :=
  ⟨memoryOfDna_dna true r.lower, memoryOfDna_dna false r.upper⟩

theorem whiskerOfDna_dna (w : Whisker) : w.Rereads (whiskerOfDna w.dna) :=
  ⟨rfl, rfl, memoryRangeOfDna_dna w.domain⟩

theorem MemoryRange.SameBounds.contains_iff {r r' : MemoryRange} (h : r.SameBounds r')
    (m : Memory) : r'.Contains m ↔ r.Contains m := by
  rw [contains_iff_mem_box, contains_iff_mem_box, box, box, h.1, h.2]

namespace WhiskerTree

mutual

/-- A tree of the same shape with the same domains and the same rules. -/
def Rereads : WhiskerTree → WhiskerTree → Prop
  | .leaf domain w, .leaf domain' w' => domain.SameBounds domain' ∧ w.Rereads w'
  | .interior domain cs, .interior domain' cs' => domain.SameBounds domain' ∧ RereadsIn cs cs'
  | _, _ => False

def RereadsIn : List WhiskerTree → List WhiskerTree → Prop
  | [], [] => True
  | c :: cs, c' :: cs' => c.Rereads c' ∧ RereadsIn cs cs'
  | _, _ => False

end

/-- Interior nodes have at least one child. -/
inductive Populated : WhiskerTree → Prop
  | leaf (domain : MemoryRange) (w : Whisker) : Populated (.leaf domain w)
  | interior (domain : MemoryRange) {children : List WhiskerTree} : children ≠ [] →
      (∀ c ∈ children, Populated c) → Populated (.interior domain children)

theorem isEmpty_dnaIn {cs : List WhiskerTree} (h : cs ≠ []) : (dnaIn cs).isEmpty = false := by
  cases cs with
  | nil => exact absurd rfl h
  | cons c cs => rfl

theorem ofDnaIn_dnaIn {cs : List WhiskerTree}
    (h : ∀ c ∈ cs, ∃ c', ofDna c.dna = some c' ∧ c.Rereads c') :
    ∃ cs', ofDnaIn (dnaIn cs) = some cs' ∧ RereadsIn cs cs' := by
  induction cs with
  | nil => exact ⟨[], rfl, trivial⟩
  | cons c cs ih =>
    obtain ⟨⟨c', hc', hrereads⟩, hrest⟩ := List.forall_mem_cons.mp h
    obtain ⟨cs', hcs', hrereadsIn⟩ := ih hrest
    refine ⟨c' :: cs', ?_, hrereads, hrereadsIn⟩
    rw [dnaIn, ofDnaIn, hc', hcs']
    rfl

theorem ofDna_dna {t : WhiskerTree} (h : t.Populated) :
    ∃ t', ofDna t.dna = some t' ∧ t.Rereads t' := by
  induction h with
  | leaf domain w =>
    exact ⟨.leaf (memoryRangeOfDna domain.dna) (whiskerOfDna w.dna), rfl,
      memoryRangeOfDna_dna domain, whiskerOfDna_dna w⟩
  | @interior domain children hne _ ih =>
    -- with a child it is not read as a leaf
    obtain ⟨cs', hcs', hrereads⟩ := ofDnaIn_dnaIn ih
    refine ⟨.interior (memoryRangeOfDna domain.dna) cs', ?_, memoryRangeOfDna_dna domain, hrereads⟩
    rw [dna, ofDna, isEmpty_dnaIn hne, hcs']
    rfl

theorem rereadsIn_whiskerIn {cs : List WhiskerTree} {m : Memory}
    (h : ∀ c ∈ cs, ∀ c', c.Rereads c' →
      (c'.whisker m).map (Option.map Whisker.action) =
        (c.whisker m).map (Option.map Whisker.action)) :
    ∀ {cs' : List WhiskerTree}, RereadsIn cs cs' →
      (whiskerIn cs' m).map (Option.map Whisker.action) =
        (whiskerIn cs m).map (Option.map Whisker.action) := by
  induction cs with
  | nil =>
    intro cs' hrereads
    cases cs' with
    | nil => rfl
    | cons c' cs' => exact absurd hrereads id
  | cons c cs ih =>
    intro cs' hrereads
    cases cs' with
    | nil => exact absurd hrereads id
    | cons c' cs' =>
      obtain ⟨hhead, hrest⟩ := List.forall_mem_cons.mp h
      have heq := hhead c' hrereads.1
      have htail := ih hrest hrereads.2
      rw [whiskerIn, whiskerIn]
      cases hc : c.whisker m with
      | none =>
        rw [hc, Option.map_none, Option.map_eq_none_iff] at heq
        rw [heq]
        rfl
      | some ret =>
        rw [hc, Option.map_some, Option.map_eq_some_iff] at heq
        obtain ⟨ret', hret', hmap⟩ := heq
        rw [hret', Option.bind_some, Option.bind_some]
        -- both loops go on, or both stop here
        cases ret with
        | none =>
          rw [Option.map_none, Option.map_eq_none_iff] at hmap
          rw [hmap]
          exact htail
        | some w =>
          rw [Option.map_some, Option.map_eq_some_iff] at hmap
          obtain ⟨w', rfl, haction⟩ := hmap
          exact congrArg (fun a => some (some a)) haction

/-- Lookup takes the same way and gives the same action, or the same failure. -/
theorem Rereads.whisker_eq {t t' : WhiskerTree} (h : t.Rereads t') (m : Memory) :
    (t'.whisker m).map (Option.map Whisker.action) =
      (t.whisker m).map (Option.map Whisker.action) := by
  induction t using WhiskerTree.induct generalizing t' with
  | leaf domain w =>
    cases t' with
    | leaf domain' w' =>
      obtain ⟨hdomain, hw⟩ := h
      rw [whisker, whisker]
      by_cases hm : domain.Contains m
      · rw [if_pos hm, if_pos ((hdomain.contains_iff m).mpr hm)]
        exact congrArg (fun a => some (some a)) hw.action
      · rw [if_neg hm, if_neg (fun hm' => hm ((hdomain.contains_iff m).mp hm'))]
    | interior domain' cs' => exact absurd h id
  | interior domain cs ih =>
    cases t' with
    | leaf domain' w' => exact absurd h id
    | interior domain' cs' =>
      obtain ⟨hdomain, hcs⟩ := h
      rw [whisker, whisker]
      by_cases hm : domain.Contains m
      · rw [if_pos hm, if_pos ((hdomain.contains_iff m).mpr hm)]
        exact rereadsIn_whiskerIn (fun c hc c' hc' => ih c hc hc') hcs
      · rw [if_neg hm, if_neg (fun hm' => hm ((hdomain.contains_iff m).mp hm'))]

/-- A tree that is written and read again has the shape, the domains and the rules it had, and
lookup gives the same action. -/
theorem whisker_tree_dna_round_trip {t : WhiskerTree} (h : t.Populated) :
    ∃ t', ofDna t.dna = some t' ∧ t.Rereads t' ∧ ∀ m,
      (t'.whisker m).map (Option.map Whisker.action) =
        (t.whisker m).map (Option.map Whisker.action) := by
  obtain ⟨t', ht', hrereads⟩ := ofDna_dna h
  exact ⟨t', ht', hrereads, hrereads.whisker_eq⟩

/-- Two leaves below the root, the second of a later generation. -/
def twoRules : WhiskerTree :=
  .interior ⟨memory, maxMemory⟩
    [.leaf ⟨memory, memoryOf 8 163840 163840 163840⟩
        ⟨0, 1, 1/2, 3, ⟨memory, memoryOf 8 163840 163840 163840⟩⟩,
      .leaf ⟨memoryOf 8 0 0 0, maxMemory⟩ ⟨7, -2, 1, 1/4, ⟨memoryOf 8 0 0 0, maxMemory⟩⟩]

theorem whisker_tree_dna_round_trip_twoRules :
    ∃ t', ofDna twoRules.dna = some t' ∧ twoRules.Rereads t' ∧ ∀ m,
      (t'.whisker m).map (Option.map Whisker.action) =
        (twoRules.whisker m).map (Option.map Whisker.action) := by
  apply whisker_tree_dna_round_trip
  refine Populated.interior _ (List.cons_ne_nil _ _) ?_
  intro c hc
  rcases List.mem_pair.mp hc with rfl | rfl
  · exact Populated.leaf _ _
  · exact Populated.leaf _ _

end WhiskerTree

end CopaNgscope
