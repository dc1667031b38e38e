import Mathlib.Algebra.Order.Ring.Int
import CopaNgscope.RunInvariant

/-! What a run costs: a cost of each step, summed up over the steps, and the rule of potential
functions, which bounds the sum by what the states hold. -/
namespace CopaNgscope.RunTotal
open RunInvariant

variable {σ α : Type*} {step : σ → α → Option σ}

/-- The costs of the steps of a run, each in the state before it, up to the first step that is not
defined. -/
def runTotal (step : σ → α → Option σ) (cost : σ → α → ℤ) : σ → List α → ℤ
  | _, [] => 0
  | s, a :: as => cost s a+(step s a).elim 0 (fun t => runTotal step cost t as)

theorem runTotal_cons {cost : σ → α → ℤ} {s t : σ} {a : α} (h : step s a = some t) (as : List α) :
    runTotal step cost s (a :: as) = cost s a+runTotal step cost t as := by
  rw [runTotal, h, Option.elim_some]

variable (step) in
/-- A potential that every step changes by an amount between two costs is changed by a run by an
amount between the two sums. -/
theorem potential_between {Inv : σ → Prop} {ok : σ → α → Prop} {potential : σ → ℤ}
    {low high : σ → α → ℤ} (hinv : ∀ s a t, Inv s → ok s a → step s a = some t → Inv t)
    (hs : ∀ s a t, Inv s → ok s a → step s a = some t →
      potential s+low s a ≤ potential t ∧ potential t ≤ potential s+high s a)
    {as : List α} {s u : σ} (h0 : Inv s) (hok : RunMeets step ok s as)
    (hu : run step s as = some u) :
    potential s+runTotal step low s as ≤ potential u ∧
      potential u ≤ potential s+runTotal step high s as := by
  induction as generalizing s with
  | nil =>
    cases hu
    exact ⟨(add_zero _).le, (add_zero _).ge⟩
  | cons a as ih =>
    obtain ⟨t, ht, hrest⟩ := Option.bind_eq_some_iff.mp hu
    obtain ⟨hlow, hhigh⟩ := hs s a t h0 hok.1 ht
    obtain ⟨hlowTail, hhighTail⟩ :=
      ih (hinv s a t h0 hok.1 ht) ((runMeets_cons_iff step ok ht as).mp hok).2 hrest
    rw [runTotal_cons ht, runTotal_cons ht]
    constructor
    · omega
    · omega

/-- The costs `x+k*y`, summed up. -/
theorem runTotal_add_mul (x y : σ → α → ℤ) (k : ℤ) (s : σ) (as : List α) :
    runTotal step (fun s a => x s a+k*y s a) s as =
      runTotal step x s as+k*runTotal step y s as := by
  induction as generalizing s with
  | nil => exact (zero_add _).symm.trans (congrArg (0+·) (mul_zero k).symm)
  | cons a as ih =>
    rw [runTotal, runTotal, runTotal, mul_add]
    cases step s a with
    | none =>
      rw [Option.elim_none, Option.elim_none, Option.elim_none, mul_zero]
      omega
    | some t =>
      rw [Option.elim_some, Option.elim_some, Option.elim_some, ih]
      omega

end CopaNgscope.RunTotal
