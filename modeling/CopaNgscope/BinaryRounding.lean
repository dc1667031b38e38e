import Mathlib.Data.Int.Log
import Mathlib.Data.Rat.Floor
import Mathlib.Algebra.Order.Field.Power
import Mathlib.Tactic.Linarith
import Mathlib.Tactic.NormNum
import Mathlib.Tactic.Positivity
import Mathlib.Tactic.Ring

/-! Rounding of rationals to binary floating-point numbers: to the nearest one of a format, and to
the even one of two that are as near. -/
namespace CopaNgscope.BinaryRounding

/-- The nearest integer, the even one of two. -/
def roundEven (x : ℚ) : ℤ :=
  if Int.fract x < 1/2 ∨ (Int.fract x = 1/2 ∧ Even ⌊x⌋) then ⌊x⌋ else ⌊x⌋+1

/-- The numbers `m*2^e` with `m` of `precision` bits and `e` not below `leastExponent`. -/
structure Format where
  precision : ℕ
  leastExponent : ℤ

/-- The exponent that a number is rounded with. -/
def Format.exponent (f : Format) (x : ℚ) : ℤ :=
  max (Int.log 2 |x|+1-f.precision) f.leastExponent

def Format.round (f : Format) (x : ℚ) : ℚ := roundEven (x/2^f.exponent x)*2^f.exponent x

theorem roundEven_intCast (n : ℤ) : roundEven n = n := by
  rw [roundEven, Int.fract_intCast, Int.floor_intCast, if_pos (Or.inl (by norm_num))]

/-- One half is rounded to zero. -/
theorem roundEven_pos_iff (x : ℚ) : 0 < roundEven x ↔ 1/2 < x := by
  have hx := Int.floor_add_fract x
  have hfract := Int.fract_lt_one x
  unfold roundEven
  rcases lt_trichotomy ⌊x⌋ 0 with hneg | hzero | hpos
  · have hle : (⌊x⌋:ℚ) ≤ -1 := by exact_mod_cast Int.le_sub_one_of_lt hneg
    refine iff_of_false ?_ (by linarith)
    split_ifs
    · omega
    · omega
  · have heven : Even ⌊x⌋ := by
      rw [hzero]
      exact Even.zero
    rw [hzero, Int.cast_zero, zero_add] at hx
    rw [hx]
    constructor
    · intro h
      by_contra hle
      have hcond : x < 1/2 ∨ (x = 1/2 ∧ Even ⌊x⌋) :=
        (lt_or_eq_of_le (not_lt.mp hle)).imp_right (fun heq => ⟨heq, heven⟩)
      rw [if_pos hcond, hzero] at h
      exact lt_irrefl 0 h
    · intro h
      have hcond : ¬ (x < 1/2 ∨ (x = 1/2 ∧ Even ⌊x⌋)) :=
        not_or.mpr ⟨not_lt.mpr h.le, fun heq => h.ne' heq.1⟩
      rw [if_neg hcond, hzero]
      exact one_pos
  · have hle : (1:ℚ) ≤ ⌊x⌋ := by exact_mod_cast hpos
    have hnonneg := Int.fract_nonneg x
    refine iff_of_true ?_ (by linarith)
    split_ifs
    · exact hpos
    · omega

/-- The least positive number of a format is what more than half of it is rounded to. -/
theorem Format.round_pos_iff (f : Format) (hp : 0 < f.precision) (x : ℚ) :
    0 < f.round x ↔ 2^(f.leastExponent-1) < x := by
  have hscale : (0:ℚ) < 2^f.exponent x := by positivity
  have hscaled : 0 < f.round x ↔ 1/2*2^f.exponent x < x := by
    rw [Format.round, mul_pos_iff_of_pos_right hscale, Int.cast_pos, roundEven_pos_iff,
      lt_div_iff₀ hscale]
  have hhalf (e : ℤ) : 1/2*(2:ℚ)^e = 2^(e-1) := by
    rw [zpow_sub_one₀ two_ne_zero]
    ring
  rw [hscaled, hhalf]
  rcases le_total (Int.log 2 |x|+1-f.precision) f.leastExponent with hsmall | hlarge
  · rw [Format.exponent, max_eq_right hsmall]
  · rw [Format.exponent, max_eq_left hlarge]
    rcases le_or_gt x 0 with hneg | hpos
    · have hnot (e : ℤ) : ¬ (2:ℚ)^e < x := not_lt.mpr (hneg.trans (by positivity))
      exact iff_of_false (hnot _) (hnot _)
    · -- both powers are below the leading one of `x`
      have hlead : (2:ℚ)^Int.log 2 |x| ≤ x := by
        have hlog := Int.zpow_log_le_self (b := 2) one_lt_two (abs_pos.mpr hpos.ne')
        rw [abs_of_pos hpos] at hlog ⊢
        exact_mod_cast hlog
      have hbelow {e : ℤ} (he : e ≤ Int.log 2 |x|+1-f.precision) : (2:ℚ)^(e-1) < x := by
        have hlt : (2:ℚ)^(e-1) < 2^Int.log 2 |x| :=
          zpow_lt_zpow_right₀ one_lt_two (by omega)
        exact hlt.trans_le hlead
      exact iff_of_true (hbelow le_rfl) (hbelow hlarge)

/-- The numbers of a format are left as they are. -/
theorem Format.round_eq_self (f : Format) {m e : ℤ} (hm : |m| < 2^f.precision)
    (he : f.leastExponent ≤ e) : f.round (m*2^e) = m*2^e := by
  rcases eq_or_ne m 0 with rfl | hne
  · rw [Int.cast_zero, zero_mul, Format.round, zero_div, ← Int.cast_zero, roundEven_intCast,
      Int.cast_zero, zero_mul]
  · have hpos : (0:ℚ) < |(m:ℚ)*2^e| := by
      rw [abs_pos]
      exact mul_ne_zero (Int.cast_ne_zero.mpr hne) (by positivity)
    have hexp : f.exponent (m*2^e) ≤ e := by
      refine max_le ?_ he
      have hlt : |(m:ℚ)*2^e| < ((2:ℕ):ℚ)^((f.precision:ℤ)+e) := by
        have hcast : |(m:ℚ)| < 2^f.precision := by exact_mod_cast hm
        have htwo : (0:ℚ) < 2^e := by positivity
        rw [abs_mul, abs_of_pos htwo, Nat.cast_ofNat, zpow_add₀ two_ne_zero, zpow_natCast]
        exact mul_lt_mul_of_pos_right hcast htwo
      have hlog := (Int.lt_zpow_iff_log_lt one_lt_two hpos).mp hlt
      omega
    -- at that exponent the number is an integer
    obtain ⟨k, hk⟩ := Int.eq_ofNat_of_zero_le (sub_nonneg.mpr hexp)
    have hinteger : (m:ℚ)*2^e/2^f.exponent (m*2^e) = ((m*2^k : ℤ) : ℚ) := by
      rw [div_eq_iff (by positivity), Int.cast_mul, Int.cast_pow, Int.cast_ofNat, mul_assoc,
        ← zpow_natCast, ← hk, ← zpow_add₀ two_ne_zero, sub_add_cancel]
    rw [Format.round, hinteger, roundEven_intCast, ← hinteger,
      div_mul_cancel₀ _ (by positivity)]

end CopaNgscope.BinaryRounding
