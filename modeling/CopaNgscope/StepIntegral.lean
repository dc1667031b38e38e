import Mathlib.Algebra.Order.Field.Basic
import Mathlib.Data.List.MinMax
import Mathlib.Tactic.Linarith
import Mathlib.Tactic.Ring

/-! Time integrals of step functions given by samples. A sample is a value and the time up to
which it holds, from the time of the sample before. -/
namespace CopaNgscope.StepIntegral

variable {K : Type*} [Field K]

/-- The integral from the first time to the last one. The first value has no interval. -/
def integral : List (K × K) → K
  | x :: y :: rest => y.1*(y.2-x.2)+integral (y :: rest)
  | _ => 0

/-- The time from the first sample to the last one. -/
def duration : List (K × K) → K
  | [] => 0
  | x :: rest => ((x :: rest).getLast (List.cons_ne_nil x rest)).2-x.2

@[simp] theorem integral_nil : integral ([] : List (K × K)) = 0 := rfl

@[simp] theorem integral_singleton (x : K × K) : integral [x] = 0 := rfl

theorem integral_cons_cons (x y : K × K) (rest : List (K × K)) :
    integral (x :: y :: rest) = y.1*(y.2-x.2)+integral (y :: rest) := rfl

theorem duration_cons_cons (x y : K × K) (rest : List (K × K)) :
    duration (x :: y :: rest) = (y.2-x.2)+duration (y :: rest) := by
  rw [duration, duration, List.getLast_cons (List.cons_ne_nil y rest)]
  ring

/-- A further sample adds its value over the time since the last one. -/
theorem integral_concat (x : K × K) (rest : List (K × K)) (z : K × K) :
    integral (x :: rest ++ [z]) =
      integral (x :: rest)+z.1*(z.2-((x :: rest).getLast (List.cons_ne_nil x rest)).2) := by
  induction rest generalizing x with
  | nil => simp [integral_cons_cons]
  | cons y rest ih =>
    rw [List.cons_append, List.cons_append, integral_cons_cons, integral_cons_cons,
      List.getLast_cons (List.cons_ne_nil y rest), ← List.cons_append, ih y]
    ring

/-- The integral of a constant. -/
theorem integral_const {c : K} {xs : List (K × K)} (h : ∀ x ∈ xs, x.1 = c) :
    integral xs = c*duration xs := by
  match xs with
  | [] => simp [duration]
  | [x] => simp [duration]
  | x :: y :: rest =>
    have hrest : integral (y :: rest) = c*duration (y :: rest) :=
      integral_const (fun z hz => h z (List.mem_cons_of_mem x hz))
    rw [integral_cons_cons, duration_cons_cons, hrest, h y (by simp)]
    ring

/-- The area between a level and the signal. -/
theorem integral_const_sub (c : K) (xs : List (K × K)) :
    integral (xs.map fun y => (c-y.1,y.2)) = c*duration xs-integral xs := by
  match xs with
  | [] => simp [duration]
  | [x] => simp [duration]
  | x :: y :: rest =>
    have hrest := integral_const_sub c (y :: rest)
    rw [List.map_cons] at hrest
    rw [List.map_cons, List.map_cons, integral_cons_cons, hrest, duration_cons_cons,
      integral_cons_cons]
    ring

theorem integral_sub_const (c : K) (xs : List (K × K)) :
    integral (xs.map fun y => (y.1-c,y.2)) = integral xs-c*duration xs := by
  match xs with
  | [] => simp [duration]
  | [x] => simp [duration]
  | x :: y :: rest =>
    have hrest := integral_sub_const c (y :: rest)
    rw [List.map_cons] at hrest
    rw [List.map_cons, List.map_cons, integral_cons_cons, hrest, duration_cons_cons,
      integral_cons_cons]
    ring

variable [LinearOrder K] [IsStrictOrderedRing K]

/-- Increasing times. -/
def Timed (xs : List (K × K)) : Prop := xs.Pairwise (fun x y => x.2 < y.2)

theorem duration_nonneg {xs : List (K × K)} (hs : Timed xs) : 0 ≤ duration xs := by
  match xs, hs with
  | [], _ => exact le_rfl
  | [x], _ => simp [duration]
  | x :: y :: rest, hs =>
    obtain ⟨hx, hrest⟩ := List.pairwise_cons.mp hs
    have hpos : 0 ≤ duration (y :: rest) := duration_nonneg hrest
    have hxy := hx y List.mem_cons_self
    rw [duration_cons_cons]
    linarith

theorem duration_pos {x y : K × K} {rest : List (K × K)} (hs : Timed (x :: y :: rest)) :
    0 < duration (x :: y :: rest) := by
  obtain ⟨hx, hrest⟩ := List.pairwise_cons.mp hs
  have hnonneg : 0 ≤ duration (y :: rest) := duration_nonneg hrest
  have hxy := hx y List.mem_cons_self
  rw [duration_cons_cons]
  linarith

/-- The integral is at most an upper bound of the values times the duration. -/
theorem integral_le {hi : K} {xs : List (K × K)} (h : ∀ x ∈ xs, x.1 ≤ hi) (hs : Timed xs) :
    integral xs ≤ hi*duration xs := by
  match xs, hs with
  | [], _ => simp [duration]
  | [x], _ => simp [duration]
  | x :: y :: rest, hs =>
    obtain ⟨hx, hrest⟩ := List.pairwise_cons.mp hs
    have hle : integral (y :: rest) ≤ hi*duration (y :: rest) :=
      integral_le (fun z hz => h z (List.mem_cons_of_mem x hz)) hrest
    have hstep := mul_le_mul_of_nonneg_right (h y (by simp))
      (sub_nonneg.mpr (hx y List.mem_cons_self).le)
    calc integral (x :: y :: rest) = y.1*(y.2-x.2)+integral (y :: rest) := rfl
      _ ≤ hi*(y.2-x.2)+hi*duration (y :: rest) := add_le_add hstep hle
      _ = hi*duration (x :: y :: rest) := by rw [duration_cons_cons, mul_add]

theorem le_integral {lo : K} {xs : List (K × K)} (h : ∀ x ∈ xs, lo ≤ x.1) (hs : Timed xs) :
    lo*duration xs ≤ integral xs := by
  match xs, hs with
  | [], _ => simp [duration]
  | [x], _ => simp [duration]
  | x :: y :: rest, hs =>
    obtain ⟨hx, hrest⟩ := List.pairwise_cons.mp hs
    have hle : lo*duration (y :: rest) ≤ integral (y :: rest) :=
      le_integral (fun z hz => h z (List.mem_cons_of_mem x hz)) hrest
    have hstep := mul_le_mul_of_nonneg_right (h y (by simp))
      (sub_nonneg.mpr (hx y List.mem_cons_self).le)
    calc lo*duration (x :: y :: rest) = lo*(y.2-x.2)+lo*duration (y :: rest) := by
          rw [duration_cons_cons, mul_add]
      _ ≤ y.1*(y.2-x.2)+integral (y :: rest) := add_le_add hstep hle

/-- The mean over the time is no less than some value and no more than another one. -/
theorem exists_mul_le_integral {xs : List (K × K)} (hne : xs ≠ []) (hs : Timed xs) :
    ∃ x ∈ xs, x.1*duration xs ≤ integral xs := by
  obtain ⟨x, hx⟩ : ∃ x, xs.argmin Prod.fst = some x :=
    Option.ne_none_iff_exists'.mp (fun h => hne (List.argmin_eq_none.mp h))
  exact ⟨x, List.argmin_mem hx, le_integral (fun y hy => List.le_of_mem_argmin hy hx) hs⟩

theorem exists_integral_le_mul {xs : List (K × K)} (hne : xs ≠ []) (hs : Timed xs) :
    ∃ x ∈ xs, integral xs ≤ x.1*duration xs := by
  obtain ⟨x, hx⟩ : ∃ x, xs.argmax Prod.fst = some x :=
    Option.ne_none_iff_exists'.mp (fun h => hne (List.argmax_eq_none.mp h))
  exact ⟨x, List.argmax_mem hx, integral_le (fun y hy => List.le_of_mem_argmax hy hx) hs⟩

end CopaNgscope.StepIntegral
