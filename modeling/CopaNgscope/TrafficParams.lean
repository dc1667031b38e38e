import CopaNgscope.MarkovianCCConfig

/-! The parameters of the traffic generator: the constructor of `TrafficGenerator` reads them from
one string, in which arguments are separated by commas. -/
namespace CopaNgscope

inductive TrafficType
  | exponentialOnOff | deterministicOnOff
deriving DecidableEq

inductive SwitchType
  | timeSwitched | byteSwitched
deriving DecidableEq

structure TrafficParams where
  trafficType : TrafficType
  switchType : SwitchType
  meanOffUnit : ℚ
  meanOnUnit : ℚ
  numCycles : UInt32
deriving DecidableEq

/-- A value outside of `long` is cut to its bounds. -/
def strtol (cs : List Char) : ℤ :=
  let r := splitSign (cs.dropWhile isSpace)
  let n : ℤ := natOfDigits 10 (r.2.takeWhile (isDigitOf 10))
  max (-2^63) (min (2^63-1) (if r.1 then -n else n))

/-- The C library converts the `long` to an `int`. -/
def atoi (cs : List Char) : ℤ := Int.bmod (strtol cs) (2^32)

/-- `find` of a comma from `pos`, or the length if there is none. -/
def findComma (cs : List Char) (pos : ℕ) : ℕ :=
  pos+((cs.drop pos).takeWhile (· ≠ ',')).length

namespace TrafficParams

/-- What one argument sets. -/
def takeArg (p : TrafficParams) (arg : List Char) : TrafficParams :=
  if arg = "exponential".toList then { p with trafficType := .exponentialOnOff }
  else if arg = "deterministic".toList then { p with trafficType := .deterministicOnOff }
  else if arg = "byte_switched".toList then { p with switchType := .byteSwitched }
  else if arg.take 11 = "num_cycles=".toList then
    { p with numCycles := UInt32.ofInt (atoi (arg.drop 11)) }
  -- anything else is only reported
  else p

/-- The loop of the constructor. -/
def parseLoop (cs : List Char) (startPos : ℕ) (p : TrafficParams) : TrafficParams :=
  if startPos < cs.length then
    let endPos := findComma cs startPos
    parseLoop cs (endPos+1) (p.takeArg ((cs.drop startPos).take (endPos-startPos)))
  else p
termination_by cs.length-startPos
decreasing_by
  rw [findComma]
  omega

end TrafficParams

/-- The constructor of `TrafficGenerator`. -/
def trafficParams (meanOnUnit meanOffUnit : ℚ) (cs : List Char) : TrafficParams :=
  TrafficParams.parseLoop cs 0 ⟨.exponentialOnOff, .timeSwitched, meanOffUnit, meanOnUnit, -1⟩

/-! ### Arguments -/

namespace TrafficParams

/-- The first argument, and the rest after its comma. -/
theorem foldl_splitOn_comma (cs : List Char) (p : TrafficParams) :
    (cs.splitOn ',').foldl takeArg p =
      ((cs.drop ((cs.takeWhile (· ≠ ',')).length+1)).splitOn ',').foldl takeArg
        (p.takeArg (cs.takeWhile (· ≠ ','))) := by
  have hfirst : ',' ∉ cs.takeWhile (· ≠ ',') := by
    intro hmem
    have hcomma := List.mem_takeWhile_imp hmem
    exact of_decide_eq_true hcomma rfl
  have hsplit : cs.takeWhile (· ≠ ',') ++ cs.dropWhile (· ≠ ',') = cs :=
    List.takeWhile_append_dropWhile
  cases hrest : cs.dropWhile (· ≠ ',') with
  | nil =>
    -- there is no comma, and the empty argument after the end sets nothing
    rw [hrest, List.append_nil] at hsplit
    rw [hsplit] at hfirst ⊢
    rw [List.splitOn_eq_singleton hfirst, List.drop_of_length_le (Nat.le_succ _)]
    rfl
  | cons x rest =>
    have hx : x = ',' := by
      have hhead := List.head_dropWhile_not (l := cs) (· ≠ ',')
        (by rw [hrest]; exact List.cons_ne_nil _ _)
      simp only [hrest, List.head_cons] at hhead
      exact not_not.mp (of_decide_eq_false hhead)
    rw [hrest, hx] at hsplit
    generalize cs.takeWhile (· ≠ ',') = first at hfirst hsplit ⊢
    have hdrop : (first ++ ',' :: rest).drop (first.length+1) = rest := by
      rw [List.drop_append, List.drop_of_length_le (Nat.le_succ _), Nat.add_sub_cancel_left]
      rfl
    rw [← hsplit, List.splitOn_append_cons_self_of_not_mem hfirst, hdrop]
    rfl

/-- The loop takes the arguments between the commas one by one. -/
theorem parseLoop_eq (cs : List Char) (startPos : ℕ) (p : TrafficParams) :
    parseLoop cs startPos p = ((cs.drop startPos).splitOn ',').foldl takeArg p := by
  fun_induction parseLoop cs startPos p with
  | case1 startPos p hlt endPos ih =>
    have hlength : endPos-startPos = ((cs.drop startPos).takeWhile (· ≠ ',')).length :=
      Nat.add_sub_cancel_left _ _
    have hdrop : endPos+1 = startPos+(((cs.drop startPos).takeWhile (· ≠ ',')).length+1) := rfl
    have hprefix := List.prefix_iff_eq_take.mp
      (List.takeWhile_prefix (l := cs.drop startPos) (· ≠ ','))
    rw [ih, foldl_splitOn_comma (cs.drop startPos), List.drop_drop, hlength, ← hdrop, ← hprefix]
  | case2 startPos p hge =>
    rw [List.drop_of_length_le (not_lt.mp hge)]
    rfl

/-! ### What is set last -/

def typeOf (arg : List Char) : Option TrafficType :=
  if arg = "exponential".toList then some .exponentialOnOff
  else if arg = "deterministic".toList then some .deterministicOnOff
  else none

def cyclesOf (arg : List Char) : Option UInt32 :=
  if arg.take 11 = "num_cycles=".toList then some (UInt32.ofInt (atoi (arg.drop 11))) else none

/-- No argument sets two things. -/
theorem takeArg_eq (p : TrafficParams) (arg : List Char) : p.takeArg arg =
    { p with
      trafficType := (typeOf arg).getD p.trafficType
      switchType := if arg = "byte_switched".toList then .byteSwitched else p.switchType
      numCycles := (cyclesOf arg).getD p.numCycles } := by
  by_cases hexp : arg = "exponential".toList
  · rw [hexp]
    rfl
  by_cases hdet : arg = "deterministic".toList
  · rw [hdet]
    rfl
  by_cases hbyte : arg = "byte_switched".toList
  · rw [hbyte]
    rfl
  have htype : typeOf arg = none := by rw [typeOf, if_neg hexp, if_neg hdet]
  rw [takeArg, if_neg hexp, if_neg hdet, if_neg hbyte, if_neg hbyte, htype, cyclesOf]
  split_ifs
  · rfl
  · rfl

/-- The last value that is given, or the one before all. -/
theorem getLastD_filterMap_cons {α β : Type*} (f : α → Option β) (x : α) (xs : List α) (b : β) :
    ((x :: xs).filterMap f).getLastD b = (xs.filterMap f).getLastD ((f x).getD b) := by
  cases hx : f x with
  | none => rw [List.filterMap_cons_none hx, Option.getD_none]
  | some y => rw [List.filterMap_cons_some hx, Option.getD_some, List.getLastD_cons]

theorem foldl_takeArg (args : List (List Char)) (p : TrafficParams) : args.foldl takeArg p =
    { p with
      trafficType := (args.filterMap typeOf).getLastD p.trafficType
      switchType := if "byte_switched".toList ∈ args then .byteSwitched else p.switchType
      numCycles := (args.filterMap cyclesOf).getLastD p.numCycles } := by
  induction args generalizing p with
  | nil => rfl
  | cons arg args ih =>
    rw [List.foldl_cons, ih, takeArg_eq, getLastD_filterMap_cons, getLastD_filterMap_cons]
    have hswitch : (if "byte_switched".toList ∈ args then SwitchType.byteSwitched
        else if arg = "byte_switched".toList then .byteSwitched else p.switchType) =
        if "byte_switched".toList ∈ arg :: args then .byteSwitched else p.switchType := by
      by_cases hrest : "byte_switched".toList ∈ args
      · rw [if_pos hrest, if_pos (List.mem_cons_of_mem _ hrest)]
      · rw [if_neg hrest]
        apply if_congr _ rfl rfl
        rw [List.mem_cons, or_iff_left hrest, eq_comm]
    rw [← hswitch]

/-! ### Settings -/

/-- What may be asked for. -/
inductive TrafficSetting
  | exponential
  | deterministic
  | byteSwitched
  | numCycles (n : UInt32)

namespace TrafficSetting

def render : TrafficSetting → List Char
  | .exponential => "exponential".toList
  | .deterministic => "deterministic".toList
  | .byteSwitched => "byte_switched".toList
  | .numCycles n => "num_cycles=".toList ++ Nat.toDigits 10 n.toNat

def apply (p : TrafficParams) : TrafficSetting → TrafficParams
  | .exponential => { p with trafficType := .exponentialOnOff }
  | .deterministic => { p with trafficType := .deterministicOnOff }
  | .byteSwitched => { p with switchType := .byteSwitched }
  | .numCycles n => { p with numCycles := n }

end TrafficSetting

theorem digitVal_of_isDigit {x : Char} (h : x.isDigit = true) :
    digitVal x = x.toNat-48 ∧ digitVal x < 10 ∧ 48 ≤ x.toNat := by
  have hbounds : '0' ≤ x ∧ x ≤ '9' := by
    obtain ⟨hlow, hhigh⟩ := (Bool.and_eq_true _ _).mp h
    exact ⟨of_decide_eq_true hlow, of_decide_eq_true hhigh⟩
  have hval : digitVal x = x.toNat-48 := if_pos hbounds
  have hnine : x.toNat ≤ 57 := hbounds.2
  exact ⟨hval, by omega, hbounds.1⟩

theorem isDigit_of_mem_toDigits {n : ℕ} {x : Char} (h : x ∈ Nat.toDigits 10 n) :
    x.isDigit = true := Nat.isDigit_of_mem_toDigits (by norm_num) le_rfl h

theorem natOfDigits_toDigits (n : ℕ) : natOfDigits 10 (Nat.toDigits 10 n) = n := by
  have hsame : natOfDigits 10 (Nat.toDigits 10 n) = Nat.ofDigitChars 10 (Nat.toDigits 10 n) 0 := by
    rw [natOfDigits, Nat.ofDigitChars_eq_foldl]
    apply List.foldl_ext
    intro a x hx
    rw [(digitVal_of_isDigit (isDigit_of_mem_toDigits hx)).1]
    rfl
  rw [hsame, Nat.ofDigitChars_ten_toDigits]

theorem strtol_toDigits {n : ℕ} (h : n < 2^63) : strtol (Nat.toDigits 10 n) = n := by
  obtain ⟨x, xs, hdigits⟩ := List.exists_cons_of_ne_nil (Nat.toDigits_ne_nil (n := n) (b := 10))
  have hall (y : Char) (hy : y ∈ Nat.toDigits 10 n) : isDigitOf 10 y = true :=
    decide_eq_true (digitVal_of_isDigit (isDigit_of_mem_toDigits hy)).2.1
  have hmem : x ∈ Nat.toDigits 10 n := hdigits ▸ List.mem_cons_self
  have hx : 48 ≤ x.toNat := (digitVal_of_isDigit (isDigit_of_mem_toDigits hmem)).2.2
  -- a digit is neither a space nor a sign
  have hspace : (Nat.toDigits 10 n).dropWhile isSpace = Nat.toDigits 10 n := by
    have hnot : ¬ isSpace x = true := by
      intro hspace
      have hcases := of_decide_eq_true hspace
      omega
    rw [hdigits, List.dropWhile_cons_of_neg hnot]
  have hsign : splitSign (Nat.toDigits 10 n) = (false, Nat.toDigits 10 n) := by
    rw [hdigits]
    unfold splitSign
    split
    · rename_i heq
      rw [(List.cons.inj heq).1] at hx
      exact absurd hx (by decide)
    · rename_i heq
      rw [(List.cons.inj heq).1] at hx
      exact absurd hx (by decide)
    · rfl
  rw [strtol, hspace, hsign, List.takeWhile_eq_self_iff.mpr hall, natOfDigits_toDigits]
  norm_num
  omega

theorem ofInt_atoi_toDigits (n : UInt32) :
    UInt32.ofInt (atoi (Nat.toDigits 10 n.toNat)) = n := by
  have hn : n.toNat < 2^32 := n.toNat_lt
  have hwrap : Int.bmod (n.toNat:ℤ) (2^32) % 2^32 = n.toNat := by
    calc Int.bmod (n.toNat:ℤ) (2^32) % 2^32
      _ = (n.toNat:ℤ) % 2^32 := Int.bmod_emod
      _ = n.toNat := Int.emod_eq_of_lt (Int.natCast_nonneg _) (by exact_mod_cast hn)
  rw [atoi, strtol_toDigits (by omega), UInt32.ofInt, hwrap, Int.toNat_natCast, UInt32.ofNat_toNat]

theorem takeArg_render (p : TrafficParams) (x : TrafficSetting) :
    p.takeArg x.render = x.apply p := by
  cases x with
  | exponential => rfl
  | deterministic => rfl
  | byteSwitched => rfl
  | numCycles n =>
    have harg : p.takeArg (TrafficSetting.numCycles n).render =
        { p with numCycles := UInt32.ofInt (atoi (Nat.toDigits 10 n.toNat)) } := rfl
    rw [harg, ofInt_atoi_toDigits]
    rfl

theorem comma_notMem_render (x : TrafficSetting) : ',' ∉ x.render := by
  cases x with
  | exponential => decide
  | deterministic => decide
  | byteSwitched => decide
  | numCycles n =>
    intro hmem
    rcases List.mem_append.mp hmem with hname | hdigit
    · exact absurd hname (by decide)
    · exact absurd (isDigit_of_mem_toDigits hdigit) (by decide)

end TrafficParams

/-- Every string sets what its arguments between commas say: the last type, and the last number of
cycles, and switching by bytes once it is asked for. -/
theorem traffic_params_last_wins (meanOnUnit meanOffUnit : ℚ) (cs : List Char) :
    trafficParams meanOnUnit meanOffUnit cs =
      { trafficType := ((cs.splitOn ',').filterMap TrafficParams.typeOf).getLastD .exponentialOnOff
        switchType :=
          if "byte_switched".toList ∈ cs.splitOn ',' then .byteSwitched else .timeSwitched
        meanOffUnit := meanOffUnit
        meanOnUnit := meanOnUnit
        numCycles := ((cs.splitOn ',').filterMap TrafficParams.cyclesOf).getLastD (-1) } := by
  rw [trafficParams, TrafficParams.parseLoop_eq, List.drop_zero, TrafficParams.foldl_takeArg]

/-- What is asked for is what is set, in any order and however often. -/
theorem traffic_params_round_trip (meanOnUnit meanOffUnit : ℚ)
    (xs : List TrafficParams.TrafficSetting) :
    trafficParams meanOnUnit meanOffUnit
        ([','].intercalate (xs.map TrafficParams.TrafficSetting.render)) =
      xs.foldl TrafficParams.TrafficSetting.apply
        ⟨.exponentialOnOff, .timeSwitched, meanOffUnit, meanOnUnit, -1⟩ := by
  rw [trafficParams, TrafficParams.parseLoop_eq, List.drop_zero]
  cases xs with
  | nil => rfl
  | cons x xs =>
    rw [List.splitOn_intercalate]
    · rw [List.foldl_map]
      apply List.foldl_ext
      intro p y _
      exact TrafficParams.takeArg_render p y
    · intro arg harg
      obtain ⟨y, _, rfl⟩ := List.mem_map.mp harg
      exact TrafficParams.comma_notMem_render y
    · exact List.cons_ne_nil _ _

end CopaNgscope
