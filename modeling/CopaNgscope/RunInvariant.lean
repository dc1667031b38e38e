import Mathlib.Data.List.Induction
import Mathlib.Data.Option.Basic

/-! Runs of a partial step function, and the induction rules that carry an
invariant from one step to a whole run. `none` stands for a step without a
defined result. -/
namespace CopaNgscope.RunInvariant

variable {σ α : Type*}

/-- The state after the actions `as`, when every step on the way is defined. -/
def run (step : σ → α → Option σ) (s : σ) (as : List α) : Option σ :=
  as.foldlM step s

section
variable (step : σ → α → Option σ)

@[simp] theorem run_nil (s : σ) : run step s [] = some s := rfl

@[simp] theorem run_cons (s : σ) (a : α) (as : List α) :
    run step s (a :: as) = (step s a).bind (fun t => run step t as) := rfl

theorem run_append (s : σ) (as bs : List α) :
    run step s (as ++ bs) = (run step s as).bind (fun t => run step t bs) := by
  simp only [run, List.foldlM_append]
  rfl

@[simp] theorem run_singleton (s : σ) (a : α) : run step s [a] = step s a := by
  simp

theorem run_concat (s : σ) (as : List α) (a : α) :
    run step s (as ++ [a]) = (run step s as).bind (fun t => step t a) := by
  simp [run_append]

theorem run_append_eq_some {s u : σ} {as bs : List α} :
    run step s (as ++ bs) = some u ↔
      ∃ t, run step s as = some t ∧ run step t bs = some u := by
  rw [run_append, Option.bind_eq_some_iff]

theorem run_concat_eq_some {s u : σ} {as : List α} {a : α} :
    run step s (as ++ [a]) = some u ↔
      ∃ t, run step s as = some t ∧ step t a = some u := by
  rw [run_concat, Option.bind_eq_some_iff]

/-- Steps that do the same for the actions at hand run alike. -/
theorem run_congr {step' : σ → α → Option σ} {as : List α}
    (h : ∀ a ∈ as, ∀ s, step s a = step' s a) (s : σ) : run step s as = run step' s as := by
  induction as generalizing s with
  | nil => rfl
  | cons a as ih =>
    obtain ⟨hhead, htail⟩ := List.forall_mem_cons.mp h
    rw [run_cons, run_cons, hhead s]
    exact congrArg _ (funext (ih htail))

/-- What one system does step by step, another one that simulates it does as well. -/
theorem run_simulation {τ : Type*} {step' : τ → α → Option τ} (R : σ → τ → Prop) {as : List α}
    (hs : ∀ a ∈ as, ∀ s s' t, R s s' → step s a = some t → ∃ t', step' s' a = some t' ∧ R t t')
    {s t : σ} {s' : τ} (h0 : R s s') (ht : run step s as = some t) :
    ∃ t', run step' s' as = some t' ∧ R t t' := by
  induction as generalizing s s' with
  | nil =>
    cases ht
    exact ⟨s', rfl, h0⟩
  | cons a as ih =>
    obtain ⟨hhead, htail⟩ := List.forall_mem_cons.mp hs
    obtain ⟨u, hu, hrest⟩ := Option.bind_eq_some_iff.mp ht
    obtain ⟨u', hu', hrel⟩ := hhead s s' u h0 hu
    obtain ⟨t', ht', hrel'⟩ := ih htail hrel hrest
    exact ⟨t', by rw [run_cons, hu', Option.bind_some, ht'], hrel'⟩

/-- The invariant may speak about the actions taken so far as well as the state. -/
theorem run_history_invariant (s : σ) (Inv : List α → σ → Prop) (h0 : Inv [] s)
    (hs : ∀ pre a t u, run step s pre = some t → Inv pre t → step t a = some u →
      Inv (pre ++ [a]) u) :
    ∀ (as : List α) (u : σ), run step s as = some u → Inv as u := by
  intro as
  induction as using List.reverseRecOn with
  | nil =>
    intro u hu
    cases hu
    exact h0
  | append_singleton pre a ih =>
    intro u hu
    obtain ⟨t, ht, hstep⟩ := (run_concat_eq_some step).mp hu
    exact hs pre a t u ht (ih t ht) hstep

/-- An invariant kept by every defined step holds in every state reached. -/
theorem run_invariant (Inv : σ → Prop) (hs : ∀ s a t, Inv s → step s a = some t → Inv t)
    {s u : σ} {as : List α} (h0 : Inv s) (hu : run step s as = some u) : Inv u :=
  run_history_invariant step s (fun _ => Inv) h0
    (fun _ a t _ _ ht hstep => hs t a _ ht hstep) as u hu

/-- Every step of the run meets the condition `ok` in the state before it. -/
def RunMeets (ok : σ → α → Prop) : σ → List α → Prop
  | _, [] => True
  | s, a :: as => ok s a ∧ ∀ t, step s a = some t → RunMeets ok t as

instance decidableRunMeets (ok : σ → α → Prop) [∀ s a, Decidable (ok s a)] :
    ∀ (s : σ) (as : List α), Decidable (RunMeets step ok s as)
  | _, [] => isTrue trivial
  | s, a :: as =>
    have : DecidablePred (fun t => RunMeets step ok t as) :=
      fun t => decidableRunMeets ok t as
    inferInstanceAs (Decidable (ok s a ∧ ∀ t ∈ step s a, RunMeets step ok t as))

theorem runMeets_cons_iff (ok : σ → α → Prop) {s t : σ} {a : α} (ht : step s a = some t)
    (as : List α) : RunMeets step ok s (a :: as) ↔ ok s a ∧ RunMeets step ok t as := by
  apply and_congr_right
  intro _
  constructor
  · intro hrest
    exact hrest t ht
  · intro hrest u hu
    cases ht.symm.trans hu
    exact hrest

/-- An invariant kept by every step that meets a condition, in a run of such steps. -/
theorem run_invariant_of_meets (Inv : σ → Prop) (ok : σ → α → Prop)
    (hs : ∀ s a t, Inv s → ok s a → step s a = some t → Inv t) {as : List α} {s u : σ}
    (h0 : Inv s) (hok : RunMeets step ok s as) (hu : run step s as = some u) : Inv u := by
  induction as generalizing s with
  | nil =>
    cases hu
    exact h0
  | cons a as ih =>
    obtain ⟨v, hv, hrest⟩ := Option.bind_eq_some_iff.mp hu
    exact ih (hs s a v h0 hok.1 hv) (hok.2 v hv) hrest

/-- A condition on the actions alone, in a run that is defined. -/
theorem runMeets_actions_iff (ok : α → Prop) {as : List α} {s u : σ}
    (hu : run step s as = some u) : RunMeets step (fun _ a => ok a) s as ↔ ∀ a ∈ as, ok a := by
  induction as generalizing s with
  | nil => exact iff_of_true trivial (fun a ha => absurd ha List.not_mem_nil)
  | cons a as ih =>
    obtain ⟨v, hv, hrest⟩ := Option.bind_eq_some_iff.mp hu
    rw [List.forall_mem_cons, runMeets_cons_iff step _ hv, ih hrest]

theorem RunMeets.mono {step : σ → α → Option σ} {ok ok' : σ → α → Prop}
    (himp : ∀ s a, ok s a → ok' s a) {as : List α} {s : σ} (h : RunMeets step ok s as) :
    RunMeets step ok' s as := by
  induction as generalizing s with
  | nil => trivial
  | cons a as ih => exact ⟨himp s a h.1, fun t ht => ih (h.2 t ht)⟩

theorem RunMeets.and {step : σ → α → Option σ} {ok ok' : σ → α → Prop} {as : List α} {s : σ}
    (h : RunMeets step ok s as) (h' : RunMeets step ok' s as) :
    RunMeets step (fun s a => ok s a ∧ ok' s a) s as := by
  induction as generalizing s with
  | nil => trivial
  | cons a as ih => exact ⟨⟨h.1, h'.1⟩, fun t ht => ih (h.2 t ht) (h'.2 t ht)⟩

theorem runMeets_of_forall {ok : σ → α → Prop} (h : ∀ s a, ok s a) (s : σ) (as : List α) :
    RunMeets step ok s as := by
  induction as generalizing s with
  | nil => trivial
  | cons a as ih => exact ⟨h s a, fun t _ => ih t⟩

/-- In runs that keep to a domain, two conditions that agree on the states an invariant allows are
met alike. Only steps that meet them need to keep the invariant. -/
theorem runMeets_congr_on {dom ok ok' : σ → α → Prop} (Inv : σ → Prop)
    (hs : ∀ s a, Inv s → dom s a → (ok s a ↔ ok' s a))
    (hinv : ∀ s a t, Inv s → dom s a → ok' s a → step s a = some t → Inv t) {as : List α} {s : σ}
    (h0 : Inv s) (hdom : RunMeets step dom s as) :
    RunMeets step ok s as ↔ RunMeets step ok' s as := by
  induction as generalizing s with
  | nil => exact Iff.rfl
  | cons a as ih =>
    refine (and_congr_left' (hs s a h0 hdom.1)).trans (and_congr_right (fun hok => ?_))
    exact forall₂_congr (fun t ht => ih (hinv s a t h0 hdom.1 hok ht) (hdom.2 t ht))

theorem runMeets_congr {ok ok' : σ → α → Prop} (Inv : σ → Prop)
    (hs : ∀ s a, Inv s → (ok s a ↔ ok' s a))
    (hinv : ∀ s a t, Inv s → ok' s a → step s a = some t → Inv t) {as : List α} {s : σ}
    (h0 : Inv s) : RunMeets step ok s as ↔ RunMeets step ok' s as :=
  runMeets_congr_on step Inv (fun s a hi _ => hs s a hi) (fun s a t hi _ => hinv s a t hi) h0
    (runMeets_of_forall step (fun _ _ => trivial) s as)

theorem runMeets_defined {as : List α} {s u : σ} (hu : run step s as = some u) :
    RunMeets step (fun s a => ∃ t, step s a = some t) s as := by
  induction as generalizing s with
  | nil => trivial
  | cons a as ih =>
    obtain ⟨v, hv, hrest⟩ := Option.bind_eq_some_iff.mp hu
    exact (runMeets_cons_iff step _ hv as).mpr ⟨⟨v, hv⟩, ih hrest⟩

theorem runMeets_append (ok : σ → α → Prop) {s t : σ} {as bs : List α}
    (h : run step s as = some t) :
    RunMeets step ok s (as ++ bs) ↔ RunMeets step ok s as ∧ RunMeets step ok t bs := by
  induction as generalizing s with
  | nil =>
    cases h
    exact ⟨fun h => ⟨trivial, h⟩, And.right⟩
  | cons a as ih =>
    obtain ⟨v, hv, hrest⟩ := Option.bind_eq_some_iff.mp h
    rw [List.cons_append, runMeets_cons_iff step ok hv, runMeets_cons_iff step ok hv, ih hrest,
      and_assoc]

/-- The run is defined, meets the condition and ends in `t`. -/
def RunsTo (ok : σ → α → Prop) (s : σ) (as : List α) (t : σ) : Prop :=
  run step s as = some t ∧ RunMeets step ok s as

variable {step} in
theorem RunsTo.append {ok : σ → α → Prop} {s t u : σ} {as bs : List α}
    (h : RunsTo step ok s as t) (h' : RunsTo step ok t bs u) :
    RunsTo step ok s (as ++ bs) u :=
  ⟨(run_append_eq_some step).mpr ⟨t, h.1, h'.1⟩, (runMeets_append step ok h.1).mpr ⟨h.2, h'.2⟩⟩

theorem runsTo_nil (ok : σ → α → Prop) (s : σ) : RunsTo step ok s [] s := ⟨rfl, trivial⟩

variable {step} in
theorem RunsTo.cons {ok : σ → α → Prop} {s t u : σ} {a : α} {as : List α} (hok : ok s a)
    (hstep : step s a = some t) (h : RunsTo step ok t as u) : RunsTo step ok s (a :: as) u :=
  ⟨by rw [run_cons, hstep, Option.bind_some, h.1],
    (runMeets_cons_iff step ok hstep as).mpr ⟨hok, h.2⟩⟩

variable {step} in
/-- Where every step of one system is a run of another that shows the same, so is a whole run. -/
theorem RunsTo.refines {τ β γ : Type*} {step' : τ → β → Option τ} {ok : σ → α → Prop}
    {ok' : τ → β → Prop} (φ : σ → τ) (Inv : σ → Prop) (view : α → Option γ)
    (view' : β → Option γ)
    (hs : ∀ s a t, Inv s → ok s a → step s a = some t → Inv t ∧
      ∃ bs, RunsTo step' ok' (φ s) bs (φ t) ∧ bs.filterMap view' = (view a).toList)
    {as : List α} {s u : σ} (h0 : Inv s) (h : RunsTo step ok s as u) :
    Inv u ∧ ∃ bs, RunsTo step' ok' (φ s) bs (φ u) ∧ bs.filterMap view' = as.filterMap view := by
  obtain ⟨hrun, hok⟩ := h
  induction as generalizing s with
  | nil =>
    cases hrun
    exact ⟨h0, [], runsTo_nil step' ok' _, rfl⟩
  | cons a as ih =>
    obtain ⟨t, ht, hrest⟩ := Option.bind_eq_some_iff.mp hrun
    obtain ⟨hinv, bs, hbs, hview⟩ := hs s a t h0 hok.1 ht
    obtain ⟨hlast, cs, hcs, hviews⟩ := ih hinv hrest (hok.2 t ht)
    refine ⟨hlast, bs ++ cs, hbs.append hcs, ?_⟩
    calc (bs ++ cs).filterMap view'
        = (view a).toList ++ as.filterMap view := by rw [List.filterMap_append, hview, hviews]
      _ = (a :: as).filterMap view := by
        rw [List.filterMap_cons]
        cases view a <;> rfl

/-- A counted sequence of actions, with an invariant that counts along. -/
theorem runsTo_map_range (ok : σ → α → Prop) (Inv : ℕ → σ → Prop) (f : ℕ → α) {n : ℕ}
    (hs : ∀ k < n, ∀ s, Inv k s → ok s (f k) ∧ ∃ t, step s (f k) = some t ∧ Inv (k+1) t)
    {s : σ} (h0 : Inv 0 s) : ∃ t, RunsTo step ok s ((List.range n).map f) t ∧ Inv n t := by
  induction n with
  | zero => exact ⟨s, runsTo_nil step ok s, h0⟩
  | succ n ih =>
    obtain ⟨t, hrun, hinv⟩ := ih (fun k hk => hs k (by omega))
    obtain ⟨hok, u, hstep, hinv'⟩ := hs n (by omega) t hinv
    refine ⟨u, ?_, hinv'⟩
    rw [List.range_succ, List.map_append]
    exact hrun.append (RunsTo.cons hok hstep (runsTo_nil step ok u))

/-- Where every action of a kind is defined and keeps the invariant, so does a run of such
actions. -/
theorem run_all_invariant (ok : α → Prop) (Inv : σ → Prop)
    (hs : ∀ s a, Inv s → ok a → ∃ t, step s a = some t ∧ Inv t) :
    ∀ (as : List α) (s : σ), Inv s → (∀ a ∈ as, ok a) → ∃ u, run step s as = some u ∧ Inv u := by
  intro as
  induction as with
  | nil => exact fun s h0 _ => ⟨s, rfl, h0⟩
  | cons a as ih =>
    intro s h0 hok
    obtain ⟨t, ht, hinv⟩ := hs s a h0 (hok a List.mem_cons_self)
    obtain ⟨u, hu, hiu⟩ := ih t hinv (fun b hb => hok b (List.mem_cons_of_mem a hb))
    exact ⟨u, by simp [ht, hu], hiu⟩

/-- Every step of the run is defined and ends as `good` asks. -/
def RunShows (good : σ → α → σ → Prop) : σ → List α → Prop
  | _, [] => True
  | s, a :: as => ∃ t, step s a = some t ∧ good s a t ∧ RunShows good t as

/-- What a run shows at its last step. -/
theorem RunShows.last {good : σ → α → σ → Prop} {s : σ} {as : List α} {a : α}
    (h : RunShows step good s (as ++ [a])) :
    ∃ t u, run step s as = some t ∧ step t a = some u ∧ good t a u := by
  induction as generalizing s with
  | nil =>
    obtain ⟨u, hu, hgood, _⟩ := h
    exact ⟨s, u, rfl, hu, hgood⟩
  | cons b as ih =>
    obtain ⟨v, hv, _, hrest⟩ := h
    obtain ⟨t, u, ht, hu, hgood⟩ := ih hrest
    exact ⟨t, u, by rw [run_cons, hv, Option.bind_some, ht], hu, hgood⟩

/-- In a run that is defined, showing a property after every step is having it in every state
reached. -/
theorem runShows_iff_reached (P : σ → Prop) {as : List α} {s u : σ} (h0 : P s)
    (hu : run step s as = some u) :
    RunShows step (fun _ _ t => P t) s as ↔
      ∀ pre t, pre <+: as → run step s pre = some t → P t := by
  induction as generalizing s with
  | nil =>
    refine ⟨fun _ pre t hpre ht => ?_, fun _ => trivial⟩
    obtain rfl := List.prefix_nil.mp hpre
    cases ht
    exact h0
  | cons a as ih =>
    obtain ⟨v, hv, hrest⟩ := Option.bind_eq_some_iff.mp hu
    constructor
    · rintro ⟨t, ht, hP, hshows⟩ pre w hpre hw
      cases hv.symm.trans ht
      cases pre with
      | nil =>
        cases hw
        exact h0
      | cons b pre =>
        obtain ⟨rfl, htail⟩ := List.cons_prefix_cons.mp hpre
        rw [run_cons, hv, Option.bind_some] at hw
        exact (ih hP hrest).mp hshows pre w htail hw
    · intro hall
      have hPv : P v := hall [a] v (by simp) (by simpa using hv)
      refine ⟨v, hv, hPv, (ih hPv hrest).mpr (fun pre t hpre ht => ?_)⟩
      refine hall (a :: pre) t (List.cons_prefix_cons.mpr ⟨rfl, hpre⟩) ?_
      rw [run_cons, hv, Option.bind_some, ht]

/-- A condition that is exact for one step, on the states an invariant allows, is exact for
whole runs. -/
theorem runShows_iff_runMeets (dom ok : σ → α → Prop) (good : σ → α → σ → Prop)
    (Inv : σ → Prop)
    (hs : ∀ s a, Inv s → dom s a → ((∃ t, step s a = some t ∧ good s a t) ↔ ok s a))
    (hinv : ∀ s a t, Inv s → dom s a → step s a = some t → good s a t → Inv t) :
    ∀ (as : List α) (s : σ), Inv s → RunMeets step dom s as →
      (RunShows step good s as ↔ RunMeets step ok s as) := by
  intro as
  induction as with
  | nil => exact fun s _ _ => Iff.rfl
  | cons a as ih =>
    intro s h0 hdom
    constructor
    · rintro ⟨t, ht, hgood, hrest⟩
      refine ⟨(hs s a h0 hdom.1).mp ⟨t, ht, hgood⟩, fun u hu => ?_⟩
      cases ht.symm.trans hu
      exact (ih t (hinv s a t h0 hdom.1 ht hgood) (hdom.2 t ht)).mp hrest
    · rintro ⟨hok, hrest⟩
      obtain ⟨t, ht, hgood⟩ := (hs s a h0 hdom.1).mpr hok
      exact ⟨t, ht, hgood,
        (ih t (hinv s a t h0 hdom.1 ht hgood) (hdom.2 t ht)).mpr (hrest t ht)⟩

end

end CopaNgscope.RunInvariant
