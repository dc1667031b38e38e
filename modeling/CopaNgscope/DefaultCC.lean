import CopaNgscope.SendDataTimeout

/-! `DefaultCC` of `congctrls.hh`, the Reno controller. Its `init` swaps the values of the
threshold and of the slow start flag, so that slow start ends at the first acknowledgement. -/
namespace CopaNgscope
open RunInvariant

/-- An `int` computation; an overflow has no defined result. -/
def checkedInt (v : ℤ) : Option ℤ := if -2^31 ≤ v ∧ v < 2^31 then some v else none

theorem eq_of_checkedInt {v w : ℤ} (h : checkedInt v = some w) : w = v :=
  (Option.some.inj (Option.ite_none_right_eq_some.mp h).2).symm

/-- Doubles are exact rationals. -/
structure DefaultCC where
  intersendTime : ℚ
  theWindow : ℚ
  timeout : ℚ
  issthresh : ℤ
  bSlowStart : Bool
  iDupACKCount : ℤ
  iLastACK : ℤ
deriving DecidableEq

/-- The constructors of `CCC` and of the class. -/
def defaultCC : DefaultCC := ⟨0, 2, 1000, 83333, true, 0, 0⟩

namespace DefaultCC

/-- `true` becomes the threshold 1, and 83333 the flag `true`. -/
def init (s : DefaultCC) : DefaultCC :=
  { s with
    issthresh := Bool.toInt true
    bSlowStart := decide ((83333 : ℤ) ≠ 0)
    intersendTime := 0
    theWindow := 2
    timeout := 1000000/1000 }

def ackAction (s : DefaultCC) : DefaultCC :=
  if s.bSlowStart then
    { s with
      theWindow := s.theWindow+1
      bSlowStart := decide (¬ (s.issthresh : ℚ) ≤ s.theWindow+1) }
  else { s with theWindow := s.theWindow+1/s.theWindow }

/-- Half the window, at least 2. -/
def halfWindow (s : DefaultCC) : Option ℤ :=
  (doubleToInt (s.theWindow/2)).map fun issthresh => if issthresh < 2 then 2 else issthresh

def dupACKAction (s : DefaultCC) : Option DefaultCC :=
  s.halfWindow.bind fun issthresh => (checkedInt (issthresh+3)).map fun (v : ℤ) =>
    { s with bSlowStart := false, issthresh := issthresh, theWindow := (v : ℚ) }

def onACK (s : DefaultCC) (ack : ℤ) : Option DefaultCC :=
  if ack = s.iLastACK then
    (checkedInt (s.iDupACKCount+1)).bind fun count =>
      let s := { s with iDupACKCount := count }
      if 3 = count then s.dupACKAction
      else if 3 < count then some { s with theWindow := s.theWindow+1 }
      else some s.ackAction
  else
    some ({ s with
      theWindow := if 3 ≤ s.iDupACKCount then (s.issthresh : ℚ) else s.theWindow
      iLastACK := ack
      iDupACKCount := 1 }).ackAction

def onTimeout (s : DefaultCC) : Option DefaultCC :=
  s.halfWindow.map fun issthresh =>
    { s with issthresh := issthresh, bSlowStart := true, theWindow := 2 }

/-- The callbacks; those that are inherited do nothing. -/
inductive Callback
  | init
  | onACK (ack : ℤ)
  | onTimeout
  | inherited

def step (s : DefaultCC) : Callback → Option DefaultCC
  | .init => some s.init
  | .onACK ack => s.onACK ack
  | .onTimeout => s.onTimeout
  | .inherited => some s

/-! ### The window never closes -/

/-- The window is at least 2. The threshold may be 1, but where the window is set to it after
duplicates, slow start adds 1 or the threshold is at least 2. -/
structure Open (s : DefaultCC) : Prop where
  two_le : 2 ≤ s.theWindow
  one_le : 1 ≤ s.issthresh
  after_dup : 3 ≤ s.iDupACKCount → s.bSlowStart = false → 2 ≤ s.issthresh

theorem open_defaultCC : Open defaultCC := ⟨by decide, by decide, by decide⟩

theorem Open.init {s : DefaultCC} : Open s.init :=
  ⟨le_rfl, le_rfl, fun _ h => absurd h Bool.true_eq_false_eq_False⟩

theorem two_le_halfWindow {s : DefaultCC} {issthresh : ℤ} (h : s.halfWindow = some issthresh) :
    2 ≤ issthresh := by
  obtain ⟨v, _, hv⟩ := Option.map_eq_some_iff.mp h
  rw [← hv]
  split_ifs with hlt
  · exact le_rfl
  · exact not_lt.mp hlt

/-- The window before an acknowledgement counts is at least 2, or at least 1 in slow start. -/
theorem two_le_ackAction {s : DefaultCC}
    (h : 2 ≤ s.theWindow ∨ 1 ≤ s.theWindow ∧ s.bSlowStart = true) :
    2 ≤ s.ackAction.theWindow := by
  unfold ackAction
  split_ifs with hslow
  · change 2 ≤ s.theWindow+1
    rcases h with h | h
    · linarith
    · linarith [h.1]
  · have hw := h.resolve_right (fun h => hslow h.2)
    have hpos : 0 < 1/s.theWindow := one_div_pos.mpr (by linarith)
    change 2 ≤ s.theWindow+1/s.theWindow
    linarith

@[simp] theorem ackAction_issthresh (s : DefaultCC) : s.ackAction.issthresh = s.issthresh := by
  unfold ackAction
  split_ifs
  · rfl
  · rfl

@[simp] theorem ackAction_iDupACKCount (s : DefaultCC) :
    s.ackAction.iDupACKCount = s.iDupACKCount := by
  unfold ackAction
  split_ifs
  · rfl
  · rfl

/-- What an acknowledgement does: it is new, or the second, the third or a later one. -/
theorem onACK_cases {s t : DefaultCC} {ack : ℤ} (ht : s.onACK ack = some t) :
    t = ({ s with
      theWindow := if 3 ≤ s.iDupACKCount then (s.issthresh : ℚ) else s.theWindow
      iLastACK := ack
      iDupACKCount := 1 }).ackAction ∨
    (s.iDupACKCount+1 < 3 ∧ t = ({ s with iDupACKCount := s.iDupACKCount+1 }).ackAction) ∨
    ({ s with iDupACKCount := 3 }).dupACKAction = some t ∨
    (3 < s.iDupACKCount+1 ∧
      t = { s with iDupACKCount := s.iDupACKCount+1, theWindow := s.theWindow+1 }) := by
  unfold onACK at ht
  split at ht
  · obtain ⟨count, hcount, ht⟩ := Option.bind_eq_some_iff.mp ht
    obtain rfl := eq_of_checkedInt hcount
    simp only at ht
    split_ifs at ht with hthree hlater
    · rw [← hthree] at ht
      exact Or.inr (Or.inr (Or.inl ht))
    · exact Or.inr (Or.inr (Or.inr ⟨hlater, (Option.some.inj ht).symm⟩))
    · exact Or.inr (Or.inl ⟨by omega, (Option.some.inj ht).symm⟩)
  · exact Or.inl (Option.some.inj ht).symm

theorem Open.dupACKAction {s t : DefaultCC} (ht : s.dupACKAction = some t) : Open t := by
  obtain ⟨issthresh, hhalf, ht⟩ := Option.bind_eq_some_iff.mp ht
  obtain ⟨v, hv, rfl⟩ := Option.map_eq_some_iff.mp ht
  obtain rfl := eq_of_checkedInt hv
  have htwo := two_le_halfWindow hhalf
  refine ⟨?_, ?_, fun _ _ => htwo⟩
  · have hle : (2 : ℤ) ≤ issthresh+3 := by omega
    have hcast : (2 : ℚ) ≤ ((issthresh+3 : ℤ) : ℚ) := by exact_mod_cast hle
    exact hcast
  · exact le_trans (by decide) htwo

theorem Open.onACK {s t : DefaultCC} (h : Open s) {ack : ℤ} (ht : s.onACK ack = some t) :
    Open t := by
  rcases onACK_cases ht with rfl | ⟨hfew, rfl⟩ | hdup | ⟨hmany, rfl⟩
  · refine ⟨two_le_ackAction ?_, ?_, fun hcount => ?_⟩
    · by_cases hdup : 3 ≤ s.iDupACKCount
      · -- the window is set to the threshold
        rw [if_pos hdup]
        rcases Bool.eq_false_or_eq_true s.bSlowStart with hslow | hslow
        · have hone : (1 : ℚ) ≤ s.issthresh := by exact_mod_cast h.one_le
          exact Or.inr ⟨hone, hslow⟩
        · have htwo : (2 : ℚ) ≤ s.issthresh := by exact_mod_cast h.after_dup hdup hslow
          exact Or.inl htwo
      · rw [if_neg hdup]
        exact Or.inl h.two_le
    · rw [ackAction_issthresh]
      exact h.one_le
    · rw [ackAction_iDupACKCount] at hcount
      change (3 : ℤ) ≤ 1 at hcount
      omega
  · refine ⟨two_le_ackAction (Or.inl h.two_le), ?_, fun hcount => ?_⟩
    · rw [ackAction_issthresh]
      exact h.one_le
    · rw [ackAction_iDupACKCount] at hcount
      exact absurd hcount (not_le.mpr hfew)
  · exact Open.dupACKAction hdup
  · refine ⟨?_, h.one_le, fun _ hslow => ?_⟩
    · change 2 ≤ s.theWindow+1
      linarith [h.two_le]
    · exact h.after_dup (by omega) hslow

theorem Open.onTimeout {s t : DefaultCC} (ht : s.onTimeout = some t) : Open t := by
  obtain ⟨issthresh, hhalf, rfl⟩ := Option.map_eq_some_iff.mp ht
  have htwo := two_le_halfWindow hhalf
  exact ⟨le_rfl, le_trans (by decide) htwo, fun _ _ => htwo⟩

theorem Open.step {s t : DefaultCC} (h : Open s) {cb : Callback} (ht : s.step cb = some t) :
    Open t := by
  cases cb with
  | init =>
    rw [← Option.some.inj ht]
    exact Open.init
  | onACK ack => exact h.onACK ht
  | onTimeout => exact Open.onTimeout ht
  | inherited => exact Option.some.inj ht ▸ h

/-! ### The restart -/

/-- New acknowledgements after `s`: positive, increasing, and not the last one seen. -/
structure NewAcks (s : DefaultCC) (acks : List ℤ) : Prop where
  pos : ∀ ack ∈ acks, 0 < ack
  increasing : acks.Pairwise (· < ·)
  ne_last : ∀ ack ∈ acks, ack ≠ s.iLastACK

/-- After `init` each acknowledgement opens the window by 1, as long as it stays below the initial
threshold, and the window is at least 2 all the time. -/
def RestartsSlowStart (s : DefaultCC) (acks : List ℤ) : Prop :=
  ∃ t, run onACK s.init acks = some t ∧
    (2+acks.length ≤ 83333 → t.theWindow = 2+acks.length) ∧
    RunShows onACK (fun _ _ t => 2 ≤ t.theWindow) s.init acks

theorem Open.runShows {s u : DefaultCC} (h : Open s) {acks : List ℤ}
    (hu : run DefaultCC.onACK s acks = some u) :
    RunShows DefaultCC.onACK (fun _ _ t => 2 ≤ t.theWindow) s acks := by
  induction acks generalizing s with
  | nil => trivial
  | cons ack acks ih =>
    obtain ⟨t, ht, hrest⟩ := Option.bind_eq_some_iff.mp hu
    have hopen := h.onACK ht
    exact ⟨t, ht, hopen.two_le, ih hopen hrest⟩

theorem onACK_new {s : DefaultCC} {ack : ℤ} (hne : ack ≠ s.iLastACK) :
    s.onACK ack = some ({ s with
      theWindow := if 3 ≤ s.iDupACKCount then (s.issthresh : ℚ) else s.theWindow
      iLastACK := ack
      iDupACKCount := 1 }).ackAction := if_neg hne

/-- Out of slow start, new acknowledgements open the window by at most a half each. -/
theorem run_onACK_le {s : DefaultCC} (hslow : s.bSlowStart = false) (hdup : s.iDupACKCount = 1)
    (hw : 2 ≤ s.theWindow) {acks : List ℤ} (hacks : (s.iLastACK :: acks).Pairwise (· < ·)) :
    ∃ u, run onACK s acks = some u ∧ u.theWindow ≤ s.theWindow+acks.length/2 := by
  induction acks generalizing s with
  | nil => exact ⟨s, rfl, by simp⟩
  | cons ack acks ih =>
    obtain ⟨hlast, hrest⟩ := List.pairwise_cons.mp hacks
    have hne : ack ≠ s.iLastACK := (hlast ack List.mem_cons_self).ne'
    have hstep : s.onACK ack = some { s with
        theWindow := s.theWindow+1/s.theWindow, iLastACK := ack, iDupACKCount := 1 } := by
      rw [onACK_new hne, if_neg (by omega), ackAction, if_neg (by simp [hslow])]
    have hhalf : 1/s.theWindow ≤ 1/2 := one_div_le_one_div_of_le (by norm_num) hw
    have hpos : 0 < 1/s.theWindow := one_div_pos.mpr (by linarith)
    obtain ⟨u, hu, hle⟩ := ih (s := { s with
      theWindow := s.theWindow+1/s.theWindow, iLastACK := ack, iDupACKCount := 1 })
      hslow rfl (show 2 ≤ s.theWindow+1/s.theWindow by linarith) hrest
    refine ⟨u, by rw [run_cons, hstep, Option.bind_some, hu], ?_⟩
    calc u.theWindow ≤ s.theWindow+1/s.theWindow+acks.length/2 := hle
      _ ≤ s.theWindow+(acks.length+1)/2 := by linarith
      _ = s.theWindow+(ack :: acks).length/2 := by
        rw [List.length_cons]
        push_cast
        ring

/-- With the threshold at 1, the first acknowledgement after `init` ends slow start. -/
theorem ackAction_init (s : DefaultCC) (ack : ℤ) {w : ℚ} (hw : 1 ≤ w) :
    ackAction { s.init with theWindow := w, iLastACK := ack, iDupACKCount := 1 } =
      { s.init with
        theWindow := w+1, bSlowStart := false, iLastACK := ack, iDupACKCount := 1 } := by
  have hreached : (s.init.issthresh : ℚ) ≤ w+1 := by
    change ((1 : ℤ) : ℚ) ≤ w+1
    push_cast
    linarith
  rw [ackAction, if_pos (show s.init.bSlowStart = true from rfl)]
  simp only [decide_eq_false (not_not.mpr hreached)]

/-- With three duplicates left over, the window is set to the threshold before. -/
theorem init_onACK {s : DefaultCC} {ack : ℤ} (hne : ack ≠ s.iLastACK) :
    s.init.onACK ack = some { s.init with
      theWindow := if 3 ≤ s.iDupACKCount then 2 else 3
      bSlowStart := false
      iLastACK := ack
      iDupACKCount := 1 } := by
  rw [onACK_new (s := s.init) hne]
  by_cases hdup : 3 ≤ s.iDupACKCount
  · rw [if_pos (show 3 ≤ s.init.iDupACKCount from hdup), if_pos hdup,
      ackAction_init s ack (show (1 : ℚ) ≤ (s.init.issthresh : ℚ) by norm_num [init])]
    norm_num [init]
  · rw [if_neg (show ¬ 3 ≤ s.init.iDupACKCount from hdup), if_neg hdup,
      ackAction_init s ack (show (1 : ℚ) ≤ s.init.theWindow by norm_num [init])]
    norm_num [init]

/-- The window after the first acknowledgement, and a half for each further one at most. -/
theorem run_init_cons {s : DefaultCC} {ack : ℤ} {acks : List ℤ} (hacks : NewAcks s (ack :: acks)) :
    ∃ u, run onACK s.init (ack :: acks) = some u ∧
      u.theWindow ≤ (if 3 ≤ s.iDupACKCount then 2 else 3)+acks.length/2 ∧
      (acks = [] → u.theWindow = if 3 ≤ s.iDupACKCount then 2 else 3) := by
  have hfirst := init_onACK (hacks.ne_last ack List.mem_cons_self)
  obtain ⟨u, hu, hle⟩ := run_onACK_le (s := { s.init with
    theWindow := if 3 ≤ s.iDupACKCount then 2 else 3
    bSlowStart := false
    iLastACK := ack
    iDupACKCount := 1 }) rfl rfl
    (by split_ifs <;> norm_num) hacks.increasing
  refine ⟨u, by rw [run_cons, hfirst, Option.bind_some, hu], hle, fun hnil => ?_⟩
  rw [hnil] at hu
  rw [← Option.some.inj hu]

/-- The window is at least 2 anyway, so that only the one at the end counts. -/
theorem restartsSlowStart_iff_window {s u : DefaultCC} {acks : List ℤ}
    (hu : run DefaultCC.onACK s.init acks = some u) :
    RestartsSlowStart s acks ↔ (2+acks.length ≤ 83333 → u.theWindow = 2+acks.length) := by
  constructor
  · rintro ⟨t, ht, hwindow, _⟩
    cases hu.symm.trans ht
    exact hwindow
  · intro h
    exact ⟨u, hu, h, Open.init.runShows hu⟩

/-- In every state that callbacks lead to, every callback leaves the window at least 2. New
acknowledgements after `init` follow slow start only if there is none, or only one without three
duplicates left over, or so many that they pass the threshold. -/
theorem restartsSlowStart_iff {s : DefaultCC} {cbs : List Callback}
    (hs : run step defaultCC cbs = some s) {acks : List ℤ} (hacks : NewAcks s acks) :
    (∀ cb t, s.step cb = some t → 2 ≤ t.theWindow) ∧
      (RestartsSlowStart s acks ↔
        acks.length = 0 ∨ (acks.length = 1 ∧ s.iDupACKCount < 3) ∨ 83333 < 2+acks.length) := by
  have hopen : Open s := run_invariant step Open (fun _ _ _ h ht => h.step ht) open_defaultCC hs
  refine ⟨fun cb t ht => (hopen.step ht).two_le, ?_⟩
  cases acks with
  | nil => exact iff_of_true ⟨s.init, rfl, fun _ => by norm_num [init], trivial⟩ (Or.inl rfl)
  | cons ack acks =>
    obtain ⟨u, hu, hle, hone⟩ := run_init_cons hacks
    rw [restartsSlowStart_iff_window hu]
    cases acks with
    | nil =>
      have hwindow := hone rfl
      by_cases hdup : 3 ≤ s.iDupACKCount
      · refine iff_of_false (fun h => ?_) (by simp [hdup])
        have hthree := h (by simp)
        norm_num [hwindow, if_pos hdup] at hthree
      · refine iff_of_true (fun _ => ?_) (Or.inr (Or.inl ⟨rfl, not_le.mp hdup⟩))
        norm_num [hwindow, if_neg hdup]
    | cons second rest =>
      -- the window falls behind with the second acknowledgement and never catches up
      have hstart : (if 3 ≤ s.iDupACKCount then (2 : ℚ) else 3) ≤ 3 := by
        split_ifs <;> norm_num
      have hlate : u.theWindow < 2+(ack :: second :: rest).length := by
        have hlen : (0 : ℚ) ≤ rest.length := Nat.cast_nonneg _
        simp only [List.length_cons, Nat.cast_add, Nat.cast_one] at hle ⊢
        linarith
      constructor
      · intro h
        by_contra hnot
        push Not at hnot
        exact hlate.ne (h hnot.2.2)
      · rintro (h | ⟨h, _⟩ | h)
        · exact absurd h (by simp)
        · exact absurd h (by simp)
        · exact fun hle => absurd hle (by omega)

/-- In a first flow the first acknowledgement opens the window to 3, the second not to 4. -/
theorem restartsSlowStart_iff_one :
    RestartsSlowStart defaultCC [1] ∧ ¬ RestartsSlowStart defaultCC [1, 2] :=
  ⟨(@restartsSlowStart_iff defaultCC [] rfl [1] ⟨by decide, by decide, by decide⟩).2.mpr
      (by decide),
    (@restartsSlowStart_iff defaultCC [] rfl [1, 2]
      ⟨by decide, by decide, by decide⟩).2.not.mpr (by decide)⟩

/-- After two acknowledgements the window is 3 1/3 instead of 4. -/
theorem not_restartsSlowStart :
    NewAcks defaultCC [1,2] ∧ ¬ RestartsSlowStart defaultCC [1,2] := by
  refine ⟨⟨by decide, by decide, by decide⟩, ?_⟩
  rintro ⟨t, ht, hwindow, _⟩
  have hrun : run onACK defaultCC.init [1,2] =
      some ⟨0, 10/3, 1000, 1, false, 1, 2⟩ := by decide +kernel
  cases hrun.symm.trans ht
  have hfour := hwindow (by decide)
  norm_num at hfour

end DefaultCC

end CopaNgscope
