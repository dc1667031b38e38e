import CopaNgscope.Doubles

/-! The configuration of Copa over doubles: which strings it accepts as they are meant, and which
of the others it turns into the default. -/
namespace CopaNgscope
open BinaryRounding

/-! ### The alternatives -/

inductive ConfigForm
  | constantDelta | pfabricFct | boundedDelay | boundedDelayEnd | boundedQdelayEnd
  | boundedFdelayEnd | maxThroughput | differentDeltas | tcpCoop | constBehavior | auto
deriving DecidableEq

def ConfigForm.keyword : ConfigForm → List Char
  | .constantDelta => "constant_delta:".toList
  | .pfabricFct => "pfabric_fct".toList
  | .boundedDelay => "bounded_delay:".toList
  | .boundedDelayEnd => "bounded_delay_end:".toList
  | .boundedQdelayEnd => "bounded_qdelay_end:".toList
  | .boundedFdelayEnd => "bounded_fdelay_end:".toList
  | .maxThroughput => "max_throughput".toList
  | .differentDeltas => "different_deltas".toList
  | .tcpCoop => "tcp_coop".toList
  | .constBehavior => "const_behavior".toList
  | .auto => "auto:".toList

/-- The comparisons in the order of the source: so many characters with this keyword. -/
def comparisons : List (ℕ × ConfigForm) :=
  [(15, .constantDelta), (11, .pfabricFct), (14, .boundedDelay), (18, .boundedDelayEnd),
    (19, .boundedQdelayEnd), (18, .boundedFdelayEnd), (14, .maxThroughput),
    (16, .differentDeltas), (8, .tcpCoop), (14, .constBehavior), (5, .auto)]

/-- The first alternative that compares equal. -/
def formOf (config : List Char) : Option ConfigForm :=
  (comparisons.find? (fun c => config.take c.1 = c.2.keyword)).map Prod.snd

/-- The part after the optional prefixes. -/
def confRest (config : List Char) : List Char :=
  let rest := if config.take 6 = "do_ss:".toList then config.drop 6 else config
  if rest.take 17 = "keep_ext_min_rtt:".toList then rest.drop 17 else rest

/-! ### The configuration over doubles -/

/-- The fields that a string configures. -/
structure DoubleConfig where
  utilityMode : UtilityMode
  delta : Double
  doSlowStart : Bool
  keepExtMinRtt : Bool
  defaultDelta : Double
  delayBound : Double
  behavior : Double
  flowId : ℤ

namespace DoubleConfig

def boundDelay (q : DoubleConfig) (mode : UtilityMode) (param : List Char) :
    Except ConfigError DoubleConfig :=
  (Double.stof param).map fun d => { q with utilityMode := mode, delayBound := d }

/-- What the source does for an alternative. -/
def interpretForm (q : DoubleConfig) (config : List Char) :
    Option ConfigForm → Except ConfigError DoubleConfig
  | some .constantDelta =>
    .ok { q with utilityMode := .constantDelta, delta := Double.atof (config.drop 15) }
  | some .pfabricFct => .ok { q with utilityMode := .pfabricFct }
  | some .boundedDelay => q.boundDelay .boundedDelay (config.drop 14)
  | some .boundedDelayEnd => q.boundDelay .boundedDelayEnd (config.drop 18)
  | some .boundedQdelayEnd => q.boundDelay .boundedQdelayEnd (config.drop 19)
  | some .boundedFdelayEnd => q.boundDelay .boundedFdelayEnd (config.drop 18)
  | some .maxThroughput => .ok { q with utilityMode := .maxThroughput }
  -- without a number: the flow decides
  | some .differentDeltas =>
    .ok { q with utilityMode := .constantDelta, delta := .finite (q.flowId*(1/2)) }
  | some .tcpCoop => .ok { q with utilityMode := .tcpCoop }
  | some .constBehavior =>
    (substrFrom config 15).bind fun param =>
      (Double.stof param).map fun d => { q with utilityMode := .constBehavior, behavior := d }
  | some .auto =>
    .ok { q with
      utilityMode := .autoMode
      defaultDelta := Double.atof (config.drop 5)
      delta := Double.atof (config.drop 5) }
  | none => .ok { q with utilityMode := .constantDelta, delta := .finite 1 }

def interpretDeltaConf (q : DoubleConfig) (config : List Char) :
    Except ConfigError DoubleConfig :=
  -- delta is set first, so that the other modes do not leave it 0
  interpretForm { q with delta := .finite 1 } config (formOf config)

def interpretKeepExtMinRtt (q : DoubleConfig) (config : List Char) :
    Except ConfigError DoubleConfig :=
  if config.take 17 = "keep_ext_min_rtt:".toList then
    interpretDeltaConf { q with keepExtMinRtt := true } (config.drop 17)
  else q.interpretDeltaConf config

def interpretConfigStr (q : DoubleConfig) (config : List Char) :
    Except ConfigError DoubleConfig :=
  if config.take 6 = "do_ss:".toList then
    interpretKeepExtMinRtt { q with doSlowStart := true } (config.drop 6)
  else q.interpretKeepExtMinRtt config

end DoubleConfig

/-! ### What a string means -/

/-- What may follow the keyword in a documented form: nothing, or one positive number. -/
def ConfigForm.Documented : ConfigForm → List Char → Prop
  | .pfabricFct, tail | .maxThroughput, tail | .differentDeltas, tail | .tcpCoop, tail => tail = []
  | .constBehavior, tail => ∃ param v, tail = ':' :: param ∧ 0 < v ∧ IsNumeral param v
  | .constantDelta, tail | .boundedDelay, tail | .boundedDelayEnd, tail
  | .boundedQdelayEnd, tail | .boundedFdelayEnd, tail | .auto, tail =>
    ∃ v, 0 < v ∧ IsNumeral tail v

/-- A string of a documented form with a positive numeric parameter. -/
def DocumentedConfig (config : List Char) : Prop :=
  ∃ f : ConfigForm, ∃ tail, confRest config = f.keyword ++ tail ∧ f.Documented tail

/-- The result is a configuration with a positive delta, which is the default unless the string
is documented. -/
def AcceptedAs (documented : Prop) (x : Except ConfigError DoubleConfig) : Prop :=
  ∃ r, x = .ok r ∧ r.delta.Pos ∧
    (documented ∨ r.utilityMode = .constantDelta ∧ r.delta = .finite 1)

/-- A positive number that is no range error for a `float`. -/
def IsFloatNumeral (param : List Char) : Prop :=
  ∃ v, 0 < v ∧ IsNumeral param v ∧ ¬ OutsideFloat v

/-- What may follow the keyword for the string to be accepted: a documented parameter that is not
rounded to zero or out of range, or one that happens to configure the default. The comparison with
`bounded_fdelay_end:` never holds. -/
def ConfigForm.Fits (flowId : ℤ) : ConfigForm → List Char → Prop
  | .constantDelta, tail =>
    (∃ v, IsNumeral tail v ∧ 2^(-1075:ℤ) < v) ∨ Double.atof tail = .finite 1
  | .auto, tail => ∃ v, IsNumeral tail v ∧ 2^(-1075:ℤ) < v
  | .boundedDelay, tail | .boundedDelayEnd, tail | .boundedQdelayEnd, tail => IsFloatNumeral tail
  | .constBehavior, tail => ∃ param, tail = ':' :: param ∧ IsFloatNumeral param
  | .differentDeltas, tail => (tail = [] ∧ 0 < flowId) ∨ flowId = 2
  | .pfabricFct, tail | .maxThroughput, tail | .tcpCoop, tail => tail = []
  | .boundedFdelayEnd, _ => True

/-! ### The keywords -/

theorem mem_comparisons (f : ConfigForm) : f ∈ comparisons.map Prod.snd := by
  cases f <;> decide

theorem prefix_keyword_inj (f g : ConfigForm) (h : f.keyword <+: g.keyword) : f = g := by
  have hall : ∀ f ∈ comparisons.map Prod.snd, ∀ g ∈ comparisons.map Prod.snd,
      f.keyword <+: g.keyword → f = g := by
    decide +kernel
  exact hall f (mem_comparisons f) g (mem_comparisons g) h

/-- A string names at most one alternative. -/
theorem keyword_unique {f g : ConfigForm} {config : List Char} (hf : f.keyword <+: config)
    (hg : g.keyword <+: config) : f = g := by
  rcases List.prefix_or_prefix_of_prefix hf hg with h | h
  · exact prefix_keyword_inj f g h
  · exact (prefix_keyword_inj g f h).symm

/-- All comparisons are with the whole keyword but one, of 18 characters with 19. -/
theorem comparisons_length : ∀ c ∈ comparisons,
    if c.2 = .boundedFdelayEnd then c.1 < c.2.keyword.length else c.1 = c.2.keyword.length := by
  decide +kernel

theorem take_eq_keyword {c : ℕ × ConfigForm} (hc : c ∈ comparisons) {config : List Char} :
    config.take c.1 = c.2.keyword ↔ c.2 ≠ .boundedFdelayEnd ∧ c.2.keyword <+: config := by
  have hlength := comparisons_length c hc
  by_cases hnever : c.2 = .boundedFdelayEnd
  · rw [if_pos hnever] at hlength
    refine iff_of_false (fun heq => ?_) (fun h => h.1 hnever)
    have hlen := List.length_take_le c.1 config
    rw [heq] at hlen
    exact not_lt.mpr hlen hlength
  · rw [if_neg hnever] at hlength
    rw [hlength, List.prefix_iff_eq_take]
    exact ⟨fun h => ⟨hnever, h.symm⟩, fun h => h.2.symm⟩

theorem keyword_of_formOf {config : List Char} {f : ConfigForm} (h : formOf config = some f) :
    f ≠ .boundedFdelayEnd ∧ f.keyword <+: config := by
  obtain ⟨c, hc, rfl⟩ := Option.map_eq_some_iff.mp h
  have heq := List.find?_some hc
  exact (take_eq_keyword (List.mem_of_find?_eq_some hc)).mp (of_decide_eq_true heq)

theorem formOf_eq_none {config : List Char} (h : formOf config = none) {f : ConfigForm}
    (hf : f ≠ .boundedFdelayEnd) : ¬ f.keyword <+: config := by
  intro hprefix
  obtain ⟨c, hc, rfl⟩ := List.mem_map.mp (mem_comparisons f)
  have hnone := List.find?_eq_none.mp (Option.map_eq_none_iff.mp h) c hc
  exact hnone (decide_eq_true ((take_eq_keyword hc).mpr ⟨hf, hprefix⟩))

/-! ### The parameters -/

theorem acceptedAs_ok (documented : Prop) (r : DoubleConfig) :
    AcceptedAs documented (.ok r) ↔
      r.delta.Pos ∧ (documented ∨ r.utilityMode = .constantDelta ∧ r.delta = .finite 1) := by
  constructor
  · rintro ⟨s, hs, haccepted⟩
    cases hs
    exact haccepted
  · exact fun haccepted => ⟨r, rfl, haccepted⟩

/-- In another mode only documented strings are accepted. -/
theorem acceptedAs_map (documented : Prop) {α : Type} (x : Except ConfigError α)
    (f : α → DoubleConfig)
    (hf : ∀ a, (f a).delta = .finite 1 ∧ (f a).utilityMode ≠ .constantDelta) :
    AcceptedAs documented (x.map f) ↔ documented ∧ ∃ a, x = .ok a := by
  cases x with
  | error e =>
    refine iff_of_false ?_ (fun h => by cases h.2.choose_spec)
    rintro ⟨r, hr, -⟩
    cases hr
  | ok a =>
    obtain ⟨hdelta, hmode⟩ := hf a
    change AcceptedAs documented (.ok (f a)) ↔ _
    rw [acceptedAs_ok, hdelta]
    constructor
    · rintro ⟨-, hdoc | ⟨hconst, -⟩⟩
      · exact ⟨hdoc, a, rfl⟩
      · exact absurd hconst hmode
    · rintro ⟨hdoc, -⟩
      exact ⟨one_pos, Or.inl hdoc⟩

/-- A positive number that `atof` does not round to zero. -/
theorem atof_documented_iff (param : List Char) :
    ((∃ v, 0 < v ∧ IsNumeral param v) ∧ (Double.atof param).Pos) ↔
      ∃ v, IsNumeral param v ∧ 2^(-1075:ℤ) < v := by
  constructor
  · rintro ⟨⟨v, -, hv⟩, hpos⟩
    rw [atof_of_isNumeral hv, toDouble_pos_iff] at hpos
    exact ⟨v, hv, hpos⟩
  · rintro ⟨v, hv, hlt⟩
    have hpos : 0 < v := lt_trans (by positivity) hlt
    refine ⟨⟨v, hpos, hv⟩, ?_⟩
    rw [atof_of_isNumeral hv, toDouble_pos_iff]
    exact hlt

/-- A positive number that `stof` does not find out of range. -/
theorem stof_documented_iff (param : List Char) :
    ((∃ v, 0 < v ∧ IsNumeral param v) ∧ ∃ d, Double.stof param = .ok d) ↔
      IsFloatNumeral param := by
  constructor
  · rintro ⟨⟨v, hpos, hv⟩, hok⟩
    exact ⟨v, hpos, hv, (stof_of_isNumeral hv).mp hok⟩
  · rintro ⟨v, hpos, hv, hrange⟩
    exact ⟨⟨v, hpos, hv⟩, (stof_of_isNumeral hv).mpr hrange⟩

namespace DoubleConfig

variable {q : DoubleConfig}

theorem boundDelay_accepted_iff (hdelta : q.delta = .finite 1) {mode : UtilityMode}
    (hmode : mode ≠ .constantDelta) (param : List Char) :
    AcceptedAs (∃ v, 0 < v ∧ IsNumeral param v) (q.boundDelay mode param) ↔
      IsFloatNumeral param := by
  have hmap := acceptedAs_map (∃ v, 0 < v ∧ IsNumeral param v) (Double.stof param)
    (fun d => { q with utilityMode := mode, delayBound := d }) (fun d => ⟨hdelta, hmode⟩)
  rw [boundDelay, hmap, stof_documented_iff]

theorem constBehavior_accepted_iff (hdelta : q.delta = .finite 1) (tail : List Char) :
    AcceptedAs (ConfigForm.constBehavior.Documented tail)
        (q.interpretForm (ConfigForm.constBehavior.keyword ++ tail) (some .constBehavior)) ↔
      ConfigForm.constBehavior.Fits q.flowId tail := by
  cases tail with
  | nil =>
    -- the string ends before the parameter, which is an exception
    refine iff_of_false ?_ (fun h => by cases h.choose_spec.1)
    rintro ⟨r, hr, -⟩
    cases hr
  | cons c param =>
    have hsubstr : substrFrom (ConfigForm.constBehavior.keyword ++ c :: param) 15 =
        .ok param := by
      have hlen : ¬ (ConfigForm.constBehavior.keyword ++ c :: param).length < 15 := by
        rw [List.length_append, List.length_cons]
        change ¬ 14+(param.length+1) < 15
        omega
      rw [substrFrom, if_neg hlen]
      rfl
    have hmap := acceptedAs_map (ConfigForm.constBehavior.Documented (c :: param))
      (Double.stof param) (fun d => { q with utilityMode := .constBehavior, behavior := d })
      (fun d => ⟨hdelta, UtilityMode.noConfusion⟩)
    rw [interpretForm, hsubstr]
    change AcceptedAs _ ((Double.stof param).map _) ↔ _
    rw [hmap]
    constructor
    · rintro ⟨⟨param', v, heq, hpos, hv⟩, hok⟩
      obtain ⟨rfl, rfl⟩ := List.cons.inj heq
      exact ⟨param, rfl, (stof_documented_iff param).mp ⟨⟨v, hpos, hv⟩, hok⟩⟩
    · rintro ⟨param', heq, hfits⟩
      obtain ⟨rfl, rfl⟩ := List.cons.inj heq
      obtain ⟨⟨v, hpos, hv⟩, hok⟩ := (stof_documented_iff param).mpr hfits
      exact ⟨⟨param, v, rfl, hpos, hv⟩, hok⟩

theorem constantDelta_accepted_iff (tail : List Char) :
    AcceptedAs (ConfigForm.constantDelta.Documented tail)
        (q.interpretForm (ConfigForm.constantDelta.keyword ++ tail) (some .constantDelta)) ↔
      ConfigForm.constantDelta.Fits q.flowId tail := by
  change AcceptedAs _ (.ok { q with
    utilityMode := .constantDelta, delta := Double.atof tail }) ↔ _
  rw [acceptedAs_ok]
  have hdoc := atof_documented_iff tail
  constructor
  · rintro ⟨hpos, hdocumented | ⟨-, hone⟩⟩
    · exact Or.inl (hdoc.mp ⟨hdocumented, hpos⟩)
    · exact Or.inr hone
  · rintro (hfits | hone)
    · obtain ⟨hdocumented, hpos⟩ := hdoc.mpr hfits
      exact ⟨hpos, Or.inl hdocumented⟩
    · refine ⟨?_, Or.inr ⟨rfl, hone⟩⟩
      change (Double.atof tail).Pos
      rw [hone]
      exact one_pos

theorem differentDeltas_accepted_iff (tail : List Char) :
    AcceptedAs (ConfigForm.differentDeltas.Documented tail)
        (q.interpretForm (ConfigForm.differentDeltas.keyword ++ tail) (some .differentDeltas)) ↔
      ConfigForm.differentDeltas.Fits q.flowId tail := by
  rw [interpretForm, acceptedAs_ok]
  change 0 < (q.flowId:ℚ)*(1/2) ∧
    (tail = [] ∨ _ ∧ Double.finite ((q.flowId:ℚ)*(1/2)) = Double.finite 1) ↔
      (tail = [] ∧ 0 < q.flowId) ∨ q.flowId = 2
  have hpos : 0 < (q.flowId:ℚ)*(1/2) ↔ 0 < q.flowId := by
    rw [mul_pos_iff_of_pos_right (by norm_num), Int.cast_pos]
  have hone : Double.finite ((q.flowId:ℚ)*(1/2)) = Double.finite 1 ↔ q.flowId = 2 := by
    rw [Double.finite.injEq, mul_one_div, div_eq_one_iff_eq two_ne_zero]
    norm_cast
  rw [hpos, hone]
  constructor
  · rintro ⟨hflow, hnil | ⟨-, htwo⟩⟩
    · exact Or.inl ⟨hnil, hflow⟩
    · exact Or.inr htwo
  · rintro (⟨hnil, hflow⟩ | htwo)
    · exact ⟨hflow, Or.inl hnil⟩
    · exact ⟨by omega, Or.inr ⟨rfl, htwo⟩⟩

/-- An alternative is accepted if and only if what follows its keyword fits. -/
theorem interpretForm_accepted_iff (hdelta : q.delta = .finite 1) {f : ConfigForm}
    (hf : f ≠ .boundedFdelayEnd) (tail : List Char) :
    AcceptedAs (f.Documented tail) (q.interpretForm (f.keyword ++ tail) (some f)) ↔
      f.Fits q.flowId tail := by
  have hplain {documented : Prop} {mode : UtilityMode} (hmode : mode ≠ .constantDelta) :
      AcceptedAs documented (.ok { q with utilityMode := mode }) ↔ documented := by
    rw [acceptedAs_ok, hdelta]
    exact ⟨fun h => h.2.resolve_right (fun h => hmode h.1), fun h => ⟨one_pos, Or.inl h⟩⟩
  cases f with
  | constantDelta => exact constantDelta_accepted_iff tail
  | pfabricFct => exact hplain UtilityMode.noConfusion
  | boundedDelay => exact boundDelay_accepted_iff hdelta UtilityMode.noConfusion tail
  | boundedDelayEnd => exact boundDelay_accepted_iff hdelta UtilityMode.noConfusion tail
  | boundedQdelayEnd => exact boundDelay_accepted_iff hdelta UtilityMode.noConfusion tail
  | boundedFdelayEnd => exact absurd rfl hf
  | maxThroughput => exact hplain UtilityMode.noConfusion
  | differentDeltas => exact differentDeltas_accepted_iff tail
  | tcpCoop => exact hplain UtilityMode.noConfusion
  | constBehavior => exact constBehavior_accepted_iff hdelta tail
  | auto =>
    change AcceptedAs _ (.ok { q with
      utilityMode := .autoMode, defaultDelta := Double.atof tail, delta := Double.atof tail }) ↔ _
    rw [acceptedAs_ok]
    have hdoc := atof_documented_iff tail
    constructor
    · -- the mode is never the default one
      rintro ⟨hpos, hdocumented | ⟨hmode, -⟩⟩
      · exact hdoc.mp ⟨hdocumented, hpos⟩
      · exact UtilityMode.noConfusion hmode
    · intro hfits
      obtain ⟨hdocumented, hpos⟩ := hdoc.mpr hfits
      exact ⟨hpos, Or.inl hdocumented⟩

/-- The prefixes set their flags and leave the rest. -/
theorem interpretConfigStr_eq (q : DoubleConfig) (config : List Char) : ∃ doSs keepExt,
    q.interpretConfigStr config =
      interpretDeltaConf { q with doSlowStart := doSs, keepExtMinRtt := keepExt }
        (confRest config) := by
  have hkeep (r : DoubleConfig) (rest : List Char) : ∃ keepExt, r.interpretKeepExtMinRtt rest =
      interpretDeltaConf { r with keepExtMinRtt := keepExt }
        (if rest.take 17 = "keep_ext_min_rtt:".toList then rest.drop 17 else rest) := by
    unfold interpretKeepExtMinRtt
    split_ifs
    · exact ⟨true, rfl⟩
    · exact ⟨r.keepExtMinRtt, rfl⟩
  by_cases hss : config.take 6 = "do_ss:".toList
  · obtain ⟨keepExt, hrest⟩ := hkeep { q with doSlowStart := true } (config.drop 6)
    refine ⟨true, keepExt, ?_⟩
    rw [interpretConfigStr, if_pos hss, hrest, confRest, if_pos hss]
  · obtain ⟨keepExt, hrest⟩ := hkeep q config
    refine ⟨q.doSlowStart, keepExt, ?_⟩
    rw [interpretConfigStr, if_neg hss, hrest, confRest, if_neg hss]

/-- The keyword of a documented string is the one that compares equal. -/
theorem documentedConfig_iff {config tail : List Char} {f : ConfigForm}
    (hconfig : confRest config = f.keyword ++ tail) :
    DocumentedConfig config ↔ f.Documented tail := by
  constructor
  · rintro ⟨g, tail', hg, hdoc⟩
    have hsame : f = g := keyword_unique ⟨tail, hconfig.symm⟩ ⟨tail', hg.symm⟩
    subst hsame
    rw [List.append_cancel_left (hconfig.symm.trans hg)]
    exact hdoc
  · exact fun hdoc => ⟨f, tail, hconfig, hdoc⟩

/-- A string is accepted as it is meant, or turned into the default, if and only if whatever
follows the keyword it starts with fits. -/
theorem config_accepted_iff (q : DoubleConfig) (config : List Char) :
    AcceptedAs (DocumentedConfig config) (q.interpretConfigStr config) ↔
      ∀ (f : ConfigForm) (tail : List Char), confRest config = f.keyword ++ tail →
        f.Fits q.flowId tail := by
  obtain ⟨doSs, keepExt, heq⟩ := interpretConfigStr_eq q config
  rw [heq, interpretDeltaConf]
  cases hform : formOf (confRest config) with
  | none =>
    -- the default
    refine iff_of_true ?_ ?_
    · exact (acceptedAs_ok _ _).mpr ⟨one_pos, Or.inr ⟨rfl, rfl⟩⟩
    · intro f tail htail
      by_cases hf : f = .boundedFdelayEnd
      · rw [hf]
        trivial
      · exact absurd ⟨tail, htail.symm⟩ (formOf_eq_none hform hf)
  | some f =>
    obtain ⟨hf, tail, htail⟩ := keyword_of_formOf hform
    rw [documentedConfig_iff htail.symm, ← htail, interpretForm_accepted_iff rfl hf]
    constructor
    · intro hfits g tail' htail'
      have hsame : f = g := keyword_unique ⟨tail, rfl⟩ ⟨tail', htail'.symm⟩
      subst hsame
      rw [← List.append_cancel_left htail']
      exact hfits
    · exact fun hall => hall f tail rfl

/-- The configuration before any string. -/
def unconfigured : DoubleConfig :=
  ⟨.constantDelta, .finite 1, false, false, .finite (1/2), .finite 0, .finite 0, 1⟩

/-- A delay bound without a number is an exception. -/
theorem not_config_accepted :
    ¬ ∀ (q : DoubleConfig) (config : List Char), 0 < q.flowId →
      AcceptedAs (DocumentedConfig config) (q.interpretConfigStr config) := by
  intro hall
  obtain ⟨r, hr, -⟩ := hall unconfigured "bounded_delay:".toList (by decide)
  have herror : (unconfigured.interpretConfigStr "bounded_delay:".toList).isOk = false := by
    decide +kernel
  rw [hr] at herror
  cases herror

end DoubleConfig

/-! ### The exact model -/

/-- The configuration of the exact model, rounded. -/
structure RoundedConfig (r : MarkovianCC) (t : DoubleConfig) : Prop where
  utilityMode : t.utilityMode = r.utilityMode
  delta : t.delta = toDouble r.delta
  doSlowStart : t.doSlowStart = r.doSlowStart
  keepExtMinRtt : t.keepExtMinRtt = r.keepExtMinRtt
  defaultDelta : t.defaultDelta = toDouble r.defaultDelta
  delayBound : t.delayBound = .finite (binary32.round r.delayBound)
  behavior : t.behavior = .finite (binary32.round r.behavior)
  flowId : t.flowId = r.flowId

/-- Both fail alike, or the result is the rounded one. Infinities and NaN are left out. -/
def AgreesRounded (x : Except ConfigError MarkovianCC) (y : Except ConfigError DoubleConfig) :
    Prop :=
  (∀ r, x = .ok r → ∃ t, y = .ok t ∧ RoundedConfig r t) ∧
    ∀ e, x = .error e → e = .notFinite ∨ y = .error e

theorem agreesRounded_ok {r : MarkovianCC} {t : DoubleConfig} (h : RoundedConfig r t) :
    AgreesRounded (.ok r) (.ok t) :=
  ⟨fun _ hr => ⟨t, rfl, Except.ok.inj hr ▸ h⟩, fun _ he => nomatch he⟩

theorem agreesRounded_error {e : ConfigError} {y : Except ConfigError DoubleConfig}
    (h : e = .notFinite ∨ y = .error e) : AgreesRounded (.error e) y := by
  constructor
  · intro r hr
    cases hr
  · intro e' he
    cases he
    exact h

theorem agreesRounded_atof {param : List Char} {f : ℚ → MarkovianCC} {g : Double → DoubleConfig}
    (h : ∀ v, RoundedConfig (f v) (g (toDouble v))) :
    AgreesRounded ((atof param).map f) (.ok (g (Double.atof param))) := by
  cases hv : atof param with
  | error e =>
    apply agreesRounded_error
    left
    unfold atof at hv
    cases ho : strtod param with
    | error e'' =>
      rw [ho] at hv
      exact Except.error.inj hv ▸ strtod_eq_error ho
    | ok o =>
      rw [ho] at hv
      cases hv
  | ok v =>
    rw [atof_eq_toDouble hv]
    exact agreesRounded_ok (h v)

theorem agreesRounded_stof {param : List Char} {f : ℚ → MarkovianCC} {g : Double → DoubleConfig}
    (h : ∀ v, RoundedConfig (f v) (g (.finite (binary32.round v)))) :
    AgreesRounded ((stof param).map f) ((Double.stof param).map g) := by
  cases hv : stof param with
  | error e =>
    apply agreesRounded_error
    refine (stof_eq_error hv).imp_right (fun herror => ?_)
    rw [herror]
    rfl
  | ok v =>
    rw [stof_eq_round hv]
    exact agreesRounded_ok (h v)

/-- One comparison of the chain. -/
theorem agreesRounded_comparison {t : DoubleConfig} {config : List Char} {c : ℕ × ConfigForm}
    {cs : List (ℕ × ConfigForm)} {x y : Except ConfigError MarkovianCC}
    (hx : AgreesRounded x (t.interpretForm config (some c.2)))
    (hy : AgreesRounded y (t.interpretForm config
      ((cs.find? (fun c => config.take c.1 = c.2.keyword)).map Prod.snd))) :
    AgreesRounded (if config.take c.1 = c.2.keyword then x else y) (t.interpretForm config
      (((c :: cs).find? (fun c => config.take c.1 = c.2.keyword)).map Prod.snd)) := by
  by_cases heq : config.take c.1 = c.2.keyword
  · rw [if_pos heq, List.find?_cons_of_pos (by exact decide_eq_true heq)]
    exact hx
  · rw [if_neg heq, List.find?_cons_of_neg (by simpa using heq)]
    exact hy

theorem agreesRounded_interpretDeltaConf {r : MarkovianCC} {t : DoubleConfig}
    (h : RoundedConfig r t) (hflow : |r.flowId| < 2^31) (config : List Char) :
    AgreesRounded (r.interpretDeltaConf config) (t.interpretDeltaConf config) := by
  have hone : Double.finite 1 = toDouble 1 := by
    have hexact := toDouble_intCast (n := 1) (by decide)
    rw [Int.cast_one] at hexact
    exact hexact.symm
  have hhalf : Double.finite ((t.flowId:ℚ)*(1/2)) = toDouble (r.flowId*(1/2)) := by
    have hexact := toDouble_eq_finite (m := r.flowId) (e := -1) (by omega) (by norm_num)
      (by norm_num)
    rw [zpow_neg_one, ← one_div] at hexact
    rw [h.flowId, hexact]
  have hmode (m : UtilityMode) : RoundedConfig { r with delta := 1, utilityMode := m }
      { t with delta := .finite 1, utilityMode := m } :=
    { h with utilityMode := rfl, delta := hone }
  have hbound (m : UtilityMode) (param : List Char) :
      AgreesRounded (MarkovianCC.boundDelay { r with delta := 1 } m param)
        (DoubleConfig.boundDelay { t with delta := .finite 1 } m param) :=
    agreesRounded_stof (fun v => { hmode m with delayBound := rfl })
  have hbehavior : AgreesRounded
      ((substrFrom config 15).bind fun param => (stof param).map fun v =>
        { r with delta := 1, utilityMode := .constBehavior, behavior := v })
      ((substrFrom config 15).bind fun param => (Double.stof param).map fun d =>
        { t with delta := .finite 1, utilityMode := .constBehavior, behavior := d }) := by
    cases hparam : substrFrom config 15 with
    | error e => exact agreesRounded_error (Or.inr rfl)
    | ok param => exact agreesRounded_stof (fun v => { hmode .constBehavior with behavior := rfl })
  unfold MarkovianCC.interpretDeltaConf DoubleConfig.interpretDeltaConf formOf comparisons
  -- one comparison after the other, in the order of the source
  refine agreesRounded_comparison (c := (15, .constantDelta)) ?_ ?_
  · exact agreesRounded_atof
      (g := fun d => { t with utilityMode := .constantDelta, delta := d })
      (fun v => { hmode .constantDelta with delta := rfl })
  refine agreesRounded_comparison (c := (11, .pfabricFct)) ?_ ?_
  · exact agreesRounded_ok (hmode .pfabricFct)
  refine agreesRounded_comparison (c := (14, .boundedDelay)) (hbound _ _) ?_
  refine agreesRounded_comparison (c := (18, .boundedDelayEnd)) (hbound _ _) ?_
  refine agreesRounded_comparison (c := (19, .boundedQdelayEnd)) (hbound _ _) ?_
  refine agreesRounded_comparison (c := (18, .boundedFdelayEnd)) (hbound _ _) ?_
  refine agreesRounded_comparison (c := (14, .maxThroughput)) ?_ ?_
  · exact agreesRounded_ok (hmode .maxThroughput)
  refine agreesRounded_comparison (c := (16, .differentDeltas)) ?_ ?_
  · exact agreesRounded_ok { hmode .constantDelta with delta := hhalf }
  refine agreesRounded_comparison (c := (8, .tcpCoop)) (agreesRounded_ok (hmode .tcpCoop)) ?_
  refine agreesRounded_comparison (c := (14, .constBehavior)) hbehavior ?_
  refine agreesRounded_comparison (c := (5, .auto)) ?_ ?_
  · exact agreesRounded_atof
      (g := fun d => { t with utilityMode := .autoMode, defaultDelta := d, delta := d })
      (fun v => { hmode .autoMode with defaultDelta := rfl, delta := rfl })
  exact agreesRounded_ok (hmode .constantDelta)

/-- Where the exact model interprets a string, the one over doubles rounds what it reads. -/
theorem interpretConfigStr_rounded {r : MarkovianCC} {t : DoubleConfig} (h : RoundedConfig r t)
    (hflow : |r.flowId| < 2^31) (config : List Char) :
    AgreesRounded (r.interpretConfigStr config) (t.interpretConfigStr config) := by
  have hkeep {r : MarkovianCC} {t : DoubleConfig} (h : RoundedConfig r t)
      (hflow : |r.flowId| < 2^31) (config : List Char) :
      AgreesRounded (r.interpretKeepExtMinRtt config) (t.interpretKeepExtMinRtt config) := by
    unfold MarkovianCC.interpretKeepExtMinRtt DoubleConfig.interpretKeepExtMinRtt
    split_ifs
    · have hflag : RoundedConfig { r with keepExtMinRtt := true }
          { t with keepExtMinRtt := true } := { h with keepExtMinRtt := rfl }
      exact agreesRounded_interpretDeltaConf hflag hflow _
    · exact agreesRounded_interpretDeltaConf h hflow config
  unfold MarkovianCC.interpretConfigStr DoubleConfig.interpretConfigStr
  split_ifs
  · have hflag : RoundedConfig { r with doSlowStart := true }
        { t with doSlowStart := true } := { h with doSlowStart := rfl }
    exact hkeep hflag hflow _
  · exact hkeep h hflow config

end CopaNgscope
