import Mathlib.Algebra.Order.Field.Power
import CopaNgscope.MarkovianCC

/-! The configuration string of Copa: `interpret_config_str`, and the conversions of the C library
that it uses. A `std::string` is the list of its characters. -/
namespace CopaNgscope

/-! ### Numbers in strings -/

def isSpace (c : Char) : Bool := c.toNat = 32 ∨ (9 ≤ c.toNat ∧ c.toNat ≤ 13)

/-- The value of a digit of any base up to 16. -/
def digitVal (c : Char) : ℕ :=
  if '0' ≤ c ∧ c ≤ '9' then c.toNat-48
  else if 'a' ≤ c ∧ c ≤ 'f' then c.toNat-87
  else if 'A' ≤ c ∧ c ≤ 'F' then c.toNat-55
  else 16

def isDigitOf (base : ℕ) (c : Char) : Bool := digitVal c < base

def natOfDigits (base : ℕ) (cs : List Char) : ℕ := cs.foldl (fun n c => base*n+digitVal c) 0

/-- A sign, if there is one: whether it is a minus, and the rest. -/
def splitSign : List Char → Bool × List Char
  | '-' :: cs => (true, cs)
  | '+' :: cs => (false, cs)
  | cs => (false, cs)

/-- The exponent after a mantissa; without digits there is none. -/
def exponentOf (marks : List Char) : List Char → ℤ
  | c :: cs =>
    if c ∈ marks then
      let r := splitSign cs
      let n : ℤ := natOfDigits 10 (r.2.takeWhile (isDigitOf 10))
      if r.1 then -n else n
    else 0
  | [] => 0

/-- A numeral without its sign: digits with at most one point, and an exponent. `none` is no
digit at all. -/
def numeral (base : ℕ) (marks : List Char) (expBase : ℚ) (cs : List Char) : Option ℚ :=
  let whole := cs.takeWhile (isDigitOf base)
  let rest := cs.dropWhile (isDigitOf base)
  let frac := if rest.head? = some '.' then rest.tail.takeWhile (isDigitOf base) else []
  let rest := if rest.head? = some '.' then rest.tail.dropWhile (isDigitOf base) else rest
  if whole ++ frac = [] then none
  else some (natOfDigits base (whole ++ frac)/(base:ℚ)^frac.length*expBase^exponentOf marks rest)

/-- Hexadecimal after `0x`, decimal otherwise. -/
def unsignedNumeral (cs : List Char) : Option ℚ :=
  match cs with
  | '0' :: x :: rest =>
    if (x = 'x' ∨ x = 'X') ∧ (numeral 16 ['p','P'] 2 rest).isSome then numeral 16 ['p','P'] 2 rest
    else numeral 10 ['e','E'] 10 cs
  | cs => numeral 10 ['e','E'] 10 cs

inductive ConfigError
  | outOfRange | invalidArgument | notFinite
deriving DecidableEq

/-- `strtod` up to rounding: `none` is no conversion. Infinities and NaN are no rationals. -/
def strtod (cs : List Char) : Except ConfigError (Option ℚ) :=
  let r := splitSign (cs.dropWhile isSpace)
  let word := (r.2.take 3).map Char.toLower
  if word = "inf".toList ∨ word = "nan".toList then .error .notFinite
  else .ok ((unsignedNumeral r.2).map (fun v => if r.1 then -v else v))

/-- Without a number the result is 0. -/
def atof (cs : List Char) : Except ConfigError ℚ := (strtod cs).map (fun v => v.getD 0)

/-- Magnitudes that are range errors for a `float`: those that it rounds to infinity, and those that
it rounds below its normal numbers without being exact. -/
def OutsideFloat (v : ℚ) : Prop :=
  (2-1/2^24)*2^127 ≤ |v| ∨ (|v| < 1/2^126-1/2^151 ∧ (v*2^149).den ≠ 1)

instance : DecidablePred OutsideFloat := fun _ => inferInstanceAs (Decidable (_ ∨ _))

def stof (cs : List Char) : Except ConfigError ℚ :=
  (strtod cs).bind fun
    | none => .error .invalidArgument
    | some v => if OutsideFloat v then .error .outOfRange else .ok v

/-- `substr` from `pos` to the end. -/
def substrFrom (cs : List Char) (pos : ℕ) : Except ConfigError (List Char) :=
  if cs.length < pos then .error .outOfRange else .ok (cs.drop pos)

/-! ### The configuration -/

namespace MarkovianCC

/-- One of the modes that bound a delay given in seconds. -/
def boundDelay (q : MarkovianCC) (mode : UtilityMode) (param : List Char) :
    Except ConfigError MarkovianCC :=
  (stof param).map fun v => { q with utilityMode := mode, delayBound := v }

/-- The part after the optional prefixes. -/
def interpretDeltaConf (q : MarkovianCC) (config : List Char) : Except ConfigError MarkovianCC :=
  let q := { q with delta := 1 }
  if config.take 15 = "constant_delta:".toList then
    (atof (config.drop 15)).map fun v => { q with utilityMode := .constantDelta, delta := v }
  else if config.take 11 = "pfabric_fct".toList then .ok { q with utilityMode := .pfabricFct }
  else if config.take 14 = "bounded_delay:".toList then
    q.boundDelay .boundedDelay (config.drop 14)
  else if config.take 18 = "bounded_delay_end:".toList then
    q.boundDelay .boundedDelayEnd (config.drop 18)
  else if config.take 19 = "bounded_qdelay_end:".toList then
    q.boundDelay .boundedQdelayEnd (config.drop 19)
  else if config.take 18 = "bounded_fdelay_end:".toList then
    q.boundDelay .boundedFdelayEnd (config.drop 18)
  else if config.take 14 = "max_throughput".toList then
    .ok { q with utilityMode := .maxThroughput }
  else if config.take 16 = "different_deltas".toList then
    .ok { q with utilityMode := .constantDelta, delta := q.flowId*(1/2) }
  else if config.take 8 = "tcp_coop".toList then .ok { q with utilityMode := .tcpCoop }
  else if config.take 14 = "const_behavior".toList then
    (substrFrom config 15).bind fun param =>
      (stof param).map fun v => { q with utilityMode := .constBehavior, behavior := v }
  else if config.take 5 = "auto:".toList then
    (atof (config.drop 5)).map fun v =>
      { q with utilityMode := .autoMode, defaultDelta := v, delta := v }
  else .ok { q with utilityMode := .constantDelta, delta := 1 }

def interpretKeepExtMinRtt (q : MarkovianCC) (config : List Char) :
    Except ConfigError MarkovianCC :=
  if config.take 17 = "keep_ext_min_rtt:".toList then
    interpretDeltaConf { q with keepExtMinRtt := true } (config.drop 17)
  else q.interpretDeltaConf config

def interpretConfigStr (q : MarkovianCC) (config : List Char) : Except ConfigError MarkovianCC :=
  if config.take 6 = "do_ss:".toList then
    interpretKeepExtMinRtt { q with doSlowStart := true } (config.drop 6)
  else q.interpretKeepExtMinRtt config

/-! ### What a string configures -/

/-- The optional prefixes of a configuration string. -/
def confPrefix (doSs keepExt : Bool) : List Char :=
  (if doSs then "do_ss:".toList else []) ++ (if keepExt then "keep_ext_min_rtt:".toList else [])

/-- A string does not begin with another one that differs in the first character. -/
theorem take_ne_of_head {c : Char} {lit : List Char} (hne : lit ≠ []) (h : lit.head? ≠ some c)
    (n : ℕ) (cs : List Char) : (c :: cs).take n ≠ lit := by
  rintro rfl
  cases n with
  | zero => exact hne rfl
  | succ n => exact h rfl

/-- A prefix sets its flag and leaves the rest, which starts with neither prefix. -/
theorem interpretConfigStr_prefix (q : MarkovianCC) (doSs keepExt : Bool) {c : Char}
    {cs : List Char} (hd : c ≠ 'd') (hk : c ≠ 'k') :
    q.interpretConfigStr (confPrefix doSs keepExt ++ c :: cs) =
      interpretDeltaConf
        { q with
          doSlowStart := doSs || q.doSlowStart
          keepExtMinRtt := keepExt || q.keepExtMinRtt } (c :: cs) := by
  have hds : (c :: cs).take 6 ≠ "do_ss:".toList :=
    take_ne_of_head (by decide) (by simpa using hd.symm) 6 cs
  have hke : (c :: cs).take 17 ≠ "keep_ext_min_rtt:".toList :=
    take_ne_of_head (by decide) (by simpa using hk.symm) 17 cs
  have hds' : ("keep_ext_min_rtt:".toList ++ c :: cs).take 6 ≠ "do_ss:".toList :=
    take_ne_of_head (by decide) (by decide) 6 _
  cases doSs with
  | false =>
    cases keepExt with
    | false =>
      change q.interpretConfigStr (c :: cs) = _
      rw [interpretConfigStr, if_neg hds, interpretKeepExtMinRtt, if_neg hke]
      rfl
    | true =>
      change q.interpretConfigStr ("keep_ext_min_rtt:".toList ++ c :: cs) = _
      rw [interpretConfigStr, if_neg hds']
      rfl
  | true =>
    cases keepExt with
    | false =>
      change interpretKeepExtMinRtt { q with doSlowStart := true } (c :: cs) = _
      rw [interpretKeepExtMinRtt, if_neg hke]
      rfl
    | true => rfl

theorem interpret_constant_delta (q : MarkovianCC) (doSs keepExt : Bool) {param : List Char} {d : ℚ}
    (hd : atof param = .ok d) :
    q.interpretConfigStr (confPrefix doSs keepExt ++ ("constant_delta:".toList ++ param)) =
      .ok { q with
        doSlowStart := doSs || q.doSlowStart
        keepExtMinRtt := keepExt || q.keepExtMinRtt
        utilityMode := .constantDelta
        delta := d } := by
  have hmatch : ("constant_delta:".toList ++ param).take 15 = "constant_delta:".toList := rfl
  have hparam : ("constant_delta:".toList ++ param).drop 15 = param := rfl
  rw [show "constant_delta:".toList ++ param = 'c' :: ("onstant_delta:".toList ++ param) from rfl,
    interpretConfigStr_prefix q doSs keepExt (by decide) (by decide)]
  change interpretDeltaConf _ ("constant_delta:".toList ++ param) = _
  rw [interpretDeltaConf, if_pos hmatch, hparam, hd]
  rfl

theorem interpret_auto (q : MarkovianCC) (doSs keepExt : Bool) {param : List Char} {d : ℚ}
    (hd : atof param = .ok d) :
    q.interpretConfigStr (confPrefix doSs keepExt ++ ("auto:".toList ++ param)) =
      .ok { q with
        doSlowStart := doSs || q.doSlowStart
        keepExtMinRtt := keepExt || q.keepExtMinRtt
        utilityMode := .autoMode
        defaultDelta := d
        delta := d } := by
  have hmatch : ("auto:".toList ++ param).take 5 = "auto:".toList := rfl
  have hparam : ("auto:".toList ++ param).drop 5 = param := rfl
  rw [show "auto:".toList ++ param = 'a' :: ("uto:".toList ++ param) from rfl,
    interpretConfigStr_prefix q doSs keepExt (by decide) (by decide)]
  change interpretDeltaConf _ ("auto:".toList ++ param) = _
  have hne (n : ℕ) {lit : List Char} (hlit : lit ≠ []) (h : lit.head? ≠ some 'a') :
      ("auto:".toList ++ param).take n ≠ lit := take_ne_of_head hlit h n _
  rw [interpretDeltaConf]
  iterate 10 rw [if_neg (hne _ (by decide) (by decide))]
  rw [if_pos hmatch, hparam, hd]
  rfl

/-- What a configuration may set, apart from the prefixes. -/
def Sets (q : MarkovianCC) (x : Except ConfigError MarkovianCC) : Prop :=
  ∀ r, x = .ok r → ∃ m d v b c, r =
    { q with utilityMode := m, delta := d, defaultDelta := v, delayBound := b, behavior := c }

theorem sets_ite {q : MarkovianCC} {p : Prop} [Decidable p] {x y : Except ConfigError MarkovianCC}
    (hx : q.Sets x) (hy : q.Sets y) : q.Sets (if p then x else y) := by
  split_ifs
  · exact hx
  · exact hy

theorem sets_map {q : MarkovianCC} {α : Type} (x : Except ConfigError α) {f : α → MarkovianCC}
    (hf : ∀ a, q.Sets (.ok (f a))) : q.Sets (x.map f) := by
  intro r h
  cases x with
  | error e => cases h
  | ok a => exact hf a r h

theorem sets_bind {q : MarkovianCC} {α : Type} (x : Except ConfigError α)
    {f : α → Except ConfigError MarkovianCC} (hf : ∀ a, q.Sets (f a)) : q.Sets (x.bind f) := by
  intro r h
  cases x with
  | error e => cases h
  | ok a => exact hf a r h

theorem sets_interpretDeltaConf (q : MarkovianCC) (config : List Char) :
    q.Sets (q.interpretDeltaConf config) := by
  have hset (m : UtilityMode) (d v b c : ℚ) : q.Sets (.ok { q with
      utilityMode := m, delta := d, defaultDelta := v, delayBound := b, behavior := c }) := by
    rintro r h
    cases h
    exact ⟨_, _, _, _, _, rfl⟩
  have hbound (m : UtilityMode) (param : List Char) :
      q.Sets (boundDelay { q with delta := 1 } m param) := sets_map _ (fun _ => hset _ _ _ _ _)
  unfold interpretDeltaConf
  apply sets_ite (sets_map _ (fun _ => hset _ _ _ _ _))
  apply sets_ite (hset _ _ _ _ _)
  apply sets_ite (hbound _ _)
  apply sets_ite (hbound _ _)
  apply sets_ite (hbound _ _)
  apply sets_ite (hbound _ _)
  apply sets_ite (hset _ _ _ _ _)
  apply sets_ite (hset _ _ _ _ _)
  apply sets_ite (hset _ _ _ _ _)
  apply sets_ite (sets_bind _ (fun _ => sets_map _ (fun _ => hset _ _ _ _ _)))
  apply sets_ite (sets_map _ (fun _ => hset _ _ _ _ _))
  exact hset _ _ _ _ _

/-- What a string may configure: slow start is its first prefix. -/
theorem interpretConfigStr_frame {q r : MarkovianCC} {config : List Char}
    (h : q.interpretConfigStr config = .ok r) :
    ∃ k m d v b c, r =
      { q with
        doSlowStart := decide (config.take 6 = "do_ss:".toList) || q.doSlowStart
        keepExtMinRtt := k, utilityMode := m, delta := d, defaultDelta := v, delayBound := b
        behavior := c } := by
  have hkeep {q : MarkovianCC} {config : List Char} (h : q.interpretKeepExtMinRtt config = .ok r) :
      ∃ k m d v b c, r =
        { q with
          keepExtMinRtt := k, utilityMode := m, delta := d, defaultDelta := v, delayBound := b
          behavior := c } := by
    unfold interpretKeepExtMinRtt at h
    split_ifs at h
    · obtain ⟨m, d, v, b, c, rfl⟩ := sets_interpretDeltaConf _ _ r h
      exact ⟨_, _, _, _, _, _, rfl⟩
    · obtain ⟨m, d, v, b, c, rfl⟩ := sets_interpretDeltaConf _ _ r h
      exact ⟨_, _, _, _, _, _, rfl⟩
  unfold interpretConfigStr at h
  split_ifs at h with hss
  · obtain ⟨k, m, d, v, b, c, rfl⟩ := hkeep h
    exact ⟨k, m, d, v, b, c, by rw [decide_eq_true hss, Bool.true_or]⟩
  · obtain ⟨k, m, d, v, b, c, rfl⟩ := hkeep h
    exact ⟨k, m, d, v, b, c, by rw [decide_eq_false hss, Bool.false_or]⟩

/-! ### Two of the documented strings -/

/-- Copa with `constant_delta:1` in its configuration. -/
def constantDeltaOne : MarkovianCC :=
  { markovianCC 1 0 with utilityMode := .constantDelta, delta := 1 }

theorem constantDeltaOne_configured :
    (markovianCC 1 0).interpretConfigStr
      (confPrefix false false ++ ("constant_delta:".toList ++ "1".toList)) =
        .ok constantDeltaOne := by
  rw [interpret_constant_delta _ false false (d := 1) (by decide +kernel)]
  rfl

/-- Copa with `do_ss:auto:0.5` in its configuration. -/
def autoHalf : MarkovianCC :=
  { markovianCC 1 0 with
    doSlowStart := true, utilityMode := .autoMode, defaultDelta := 1/2, delta := 1/2 }

theorem autoHalf_configured :
    (markovianCC 1 0).interpretConfigStr
      (confPrefix true false ++ ("auto:".toList ++ "0.5".toList)) = .ok autoHalf := by
  rw [interpret_auto _ true false (d := 1/2) (by decide +kernel)]
  rfl

end MarkovianCC

example : atof "0.5".toList = .ok (1/2) := by decide +kernel
example : atof " -1.25e1x".toList = .ok (-25/2) := by decide +kernel
example : stof "abc".toList = .error .invalidArgument := by decide +kernel

end CopaNgscope
