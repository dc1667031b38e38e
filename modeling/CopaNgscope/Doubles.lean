import CopaNgscope.BinaryRounding
import CopaNgscope.MarkovianCCConfig

/-! The doubles that the C library reads from strings. The conversions to exact rationals are the
ones before the rounding; what they leave out are infinities and NaN. -/
namespace CopaNgscope
open BinaryRounding

inductive Double
  | finite (v : ℚ)
  | infinity (negative : Bool)
  | nan
deriving DecidableEq

def binary64 : Format := ⟨53, -1074⟩

def binary32 : Format := ⟨24, -149⟩

/-- The nearest double. Halfway to the power of two after the largest finite one it is infinite. -/
def toDouble (v : ℚ) : Double :=
  if 2^1024-2^970 ≤ |v| then .infinity (v < 0) else .finite (binary64.round v)

/-- `d > 0`. -/
def Double.Pos : Double → Prop
  | .finite v => 0 < v
  | .infinity negative => negative = false
  | .nan => False

instance : DecidablePred Double.Pos
  | .finite v => inferInstanceAs (Decidable (0 < v))
  | .infinity negative => inferInstanceAs (Decidable (negative = false))
  | .nan => inferInstanceAs (Decidable False)

/-! ### The conversions -/

/-- What the text at the start of a string stands for. -/
inductive ScannedNumber
  | rational (v : ℚ)
  | infinity (negative : Bool)
  | nan

/-- `none` is no conversion. -/
def scanNumber (cs : List Char) : Option ScannedNumber :=
  let r := splitSign (cs.dropWhile isSpace)
  let word := (r.2.take 3).map Char.toLower
  if word = "inf".toList then some (.infinity r.1)
  else if word = "nan".toList then some .nan
  -- the sign of a zero is not kept
  else (unsignedNumeral r.2).map (fun v => .rational (if r.1 then -v else v))

def Double.atof (cs : List Char) : Double :=
  match scanNumber cs with
  | none => .finite 0
  | some (.rational v) => toDouble v
  | some (.infinity negative) => .infinity negative
  | some .nan => .nan

/-- The `float` that is read, as a double. -/
def Double.stof (cs : List Char) : Except ConfigError Double :=
  match scanNumber cs with
  | none => .error .invalidArgument
  | some (.rational v) =>
    if OutsideFloat v then .error .outOfRange else .ok (.finite (binary32.round v))
  | some (.infinity negative) => .ok (.infinity negative)
  | some .nan => .ok .nan

/-- What an exponent leaves of a string. -/
def exponentRest (marks : List Char) : List Char → List Char
  | c :: cs =>
    let digits := (splitSign cs).2
    if c ∈ marks ∧ digits.takeWhile (isDigitOf 10) ≠ [] then digits.dropWhile (isDigitOf 10)
    else c :: cs
  | [] => []

/-- What a numeral leaves of a string. -/
def numeralRest (base : ℕ) (marks : List Char) (cs : List Char) : List Char :=
  let rest := cs.dropWhile (isDigitOf base)
  exponentRest marks
    (if rest.head? = some '.' then rest.tail.dropWhile (isDigitOf base) else rest)

def unsignedNumeralRest (cs : List Char) : List Char :=
  match cs with
  | '0' :: x :: rest =>
    if (x = 'x' ∨ x = 'X') ∧ (numeral 16 ['p','P'] 2 rest).isSome then
      numeralRest 16 ['p','P'] rest
    else numeralRest 10 ['e','E'] cs
  | cs => numeralRest 10 ['e','E'] cs

/-- The whole string is a numeral with this value. -/
def IsNumeral (cs : List Char) (v : ℚ) : Prop :=
  strtod cs = .ok (some v) ∧ unsignedNumeralRest (splitSign (cs.dropWhile isSpace)).2 = []

instance (cs : List Char) (v : ℚ) : Decidable (IsNumeral cs v) :=
  inferInstanceAs (Decidable (_ ∧ _))

/-! ### What they read -/

theorem two_pow_le_overflow : (2:ℚ)^53 ≤ 2^1024-2^970 := by
  have hsmall : (2:ℚ)^53 ≤ 2^970 := pow_le_pow_right₀ one_le_two (by norm_num)
  have hdouble : (2:ℚ)^970*2 ≤ 2^1024 := by
    rw [← pow_succ]
    exact pow_le_pow_right₀ one_le_two (by norm_num)
  rw [mul_two] at hdouble
  exact hsmall.trans (le_sub_iff_add_le.mpr hdouble)

/-- A number of 53 bits, some of them after the point, is a double. -/
theorem toDouble_eq_finite {m e : ℤ} (hm : |m| < 2^53) (hlow : -1074 ≤ e) (he : e ≤ 0) :
    toDouble (m*2^e) = .finite (m*2^e) := by
  have hround : binary64.round (m*2^e) = m*2^e := binary64.round_eq_self hm hlow
  have hcast : |(m:ℚ)| < 2^53 := by exact_mod_cast hm
  have hsmall : |(m:ℚ)*2^e| < 2^1024-2^970 := by
    calc |(m:ℚ)*2^e| = |(m:ℚ)| * 2^e := by
          rw [abs_mul, abs_of_pos (by positivity : (0:ℚ) < 2^e)]
      _ ≤ |(m:ℚ)| := mul_le_of_le_one_right (abs_nonneg _) (zpow_le_one_of_nonpos₀ one_le_two he)
      _ < 2^53 := hcast
      _ ≤ 2^1024-2^970 := two_pow_le_overflow
  rw [toDouble, if_neg (not_le.mpr hsmall), hround]

theorem toDouble_intCast {n : ℤ} (hn : |n| < 2^53) : toDouble n = .finite n := by
  have hexact := toDouble_eq_finite hn (by norm_num : (-1074:ℤ) ≤ 0) le_rfl
  rw [zpow_zero, mul_one] at hexact
  exact hexact

theorem toDouble_pos_iff (v : ℚ) : (toDouble v).Pos ↔ 2^(-1075:ℤ) < v := by
  unfold toDouble
  split_ifs with hlarge
  · -- an infinity has the sign of the number
    have hbig : (1:ℚ) ≤ |v| :=
      (one_le_pow₀ one_le_two).trans (two_pow_le_overflow.trans hlarge)
    have hsmall : (2:ℚ)^(-1075:ℤ) < 1 := zpow_lt_one_of_neg₀ one_lt_two (by norm_num)
    have hpos : (0:ℚ) < 2^(-1075:ℤ) := by positivity
    change decide (v < 0) = false ↔ _
    rw [decide_eq_false_iff_not, not_lt]
    constructor
    · intro h
      rw [abs_of_nonneg h] at hbig
      exact hsmall.trans_le hbig
    · exact fun h => (hpos.trans h).le
  · exact binary64.round_pos_iff (by decide) v

/-- Where the exact model reads a number, the text is scanned as the same one. -/
theorem scanNumber_of_strtod {cs : List Char} {o : Option ℚ} (h : strtod cs = .ok o) :
    scanNumber cs = o.map .rational := by
  unfold strtod at h
  extract_lets r word at h
  have hscan : scanNumber cs = if word = "inf".toList then some (.infinity r.1) else
      if word = "nan".toList then some .nan else
        (unsignedNumeral r.2).map (fun v => .rational (if r.1 then -v else v)) := rfl
  by_cases hspecial : word = "inf".toList ∨ word = "nan".toList
  · rw [if_pos hspecial] at h
    cases h
  · obtain ⟨hinf, hnan⟩ := not_or.mp hspecial
    rw [if_neg hspecial] at h
    rw [hscan, if_neg hinf, if_neg hnan, ← Except.ok.inj h, Option.map_map]
    rfl

theorem strtod_eq_error {cs : List Char} {e : ConfigError} (h : strtod cs = .error e) :
    e = .notFinite := by
  unfold strtod at h
  extract_lets r word at h
  by_cases hspecial : word = "inf".toList ∨ word = "nan".toList
  · rw [if_pos hspecial] at h
    exact (Except.error.inj h).symm
  · rw [if_neg hspecial] at h
    cases h

theorem atof_eq_toDouble {cs : List Char} {v : ℚ} (h : CopaNgscope.atof cs = .ok v) :
    Double.atof cs = toDouble v := by
  unfold CopaNgscope.atof at h
  cases ho : strtod cs with
  | error e =>
    rw [ho] at h
    cases h
  | ok o =>
    rw [ho] at h
    cases h
    rw [Double.atof, scanNumber_of_strtod ho]
    cases o with
    | none =>
      have hzero := toDouble_intCast (n := 0) (by decide)
      rw [Int.cast_zero] at hzero
      exact hzero.symm
    | some v => rfl

theorem stof_of_strtod {cs : List Char} {v : ℚ} (h : strtod cs = .ok (some v)) :
    CopaNgscope.stof cs = (if OutsideFloat v then .error .outOfRange else .ok v) ∧
      Double.stof cs =
        (if OutsideFloat v then .error .outOfRange else .ok (.finite (binary32.round v))) := by
  rw [CopaNgscope.stof, Double.stof, scanNumber_of_strtod h, h]
  exact ⟨rfl, rfl⟩

/-- What a conversion to `float` reads is rounded. -/
theorem stof_eq_round {cs : List Char} {v : ℚ} (h : CopaNgscope.stof cs = .ok v) :
    Double.stof cs = .ok (.finite (binary32.round v)) := by
  cases ho : strtod cs with
  | error e =>
    rw [CopaNgscope.stof, ho] at h
    cases h
  | ok o =>
    cases o with
    | none =>
      rw [CopaNgscope.stof, ho] at h
      cases h
    | some w =>
      obtain ⟨hexact, hrounded⟩ := stof_of_strtod ho
      rw [hexact] at h
      rw [hrounded]
      split_ifs at h ⊢
      cases h
      rfl

/-- The conversions to `float` fail alike. -/
theorem stof_eq_error {cs : List Char} {e : ConfigError} (h : CopaNgscope.stof cs = .error e) :
    e = .notFinite ∨ Double.stof cs = .error e := by
  cases ho : strtod cs with
  | error e' =>
    rw [CopaNgscope.stof, ho] at h
    exact Or.inl (Except.error.inj h ▸ strtod_eq_error ho)
  | ok o =>
    right
    cases o with
    | none =>
      rw [CopaNgscope.stof, ho] at h
      rw [Double.stof, scanNumber_of_strtod ho, ← Except.error.inj h]
      rfl
    | some w =>
      obtain ⟨hexact, hrounded⟩ := stof_of_strtod ho
      rw [hexact] at h
      rw [hrounded]
      split_ifs at h ⊢
      exact congrArg Except.error (Except.error.inj h)

theorem atof_of_isNumeral {cs : List Char} {v : ℚ} (h : IsNumeral cs v) :
    Double.atof cs = toDouble v := by
  rw [Double.atof, scanNumber_of_strtod h.1]
  rfl

/-- A numeral is read as a `float` unless it is out of its range. -/
theorem stof_of_isNumeral {cs : List Char} {v : ℚ} (h : IsNumeral cs v) :
    (∃ d, Double.stof cs = .ok d) ↔ ¬ OutsideFloat v := by
  rw [(stof_of_strtod h.1).2]
  by_cases hrange : OutsideFloat v
  · rw [if_pos hrange]
    refine iff_of_false (fun hok => ?_) (not_not_intro hrange)
    cases hok.choose_spec
  · rw [if_neg hrange]
    exact iff_of_true ⟨_, rfl⟩ hrange

theorem IsNumeral.unique {cs : List Char} {v w : ℚ} (hv : IsNumeral cs v) (hw : IsNumeral cs w) :
    v = w := Option.some.inj (Except.ok.inj (hv.1.symm.trans hw.1))

example : IsNumeral " +0x1p-1".toList (1/2) := by decide +kernel
example : ¬ IsNumeral "1e".toList 1 := by decide +kernel
example : Double.atof "-Infinity:1".toList = .infinity true := by decide +kernel

end CopaNgscope
