import CopaNgscope.MarkovianCCSafe

/-! The step size of Copa over the RTT intervals: it is doubled when the window moves on in one
direction. The direction of the interval before is not stored as such. -/
namespace CopaNgscope
open RunInvariant

namespace MarkovianCC

/-! ### Intervals -/

/-- An RTT ends with this call. -/
def AtBoundary (e : MarkovianCC) : Prop :=
  e.lastUpdateTime+e.rttWindow.getLatestRtt < e.curTick

instance (e : MarkovianCC) : Decidable e.AtBoundary := inferInstanceAs (Decidable (_ < _))

/-- The window goes up or down by the call. -/
def move (e : MarkovianCC) : ℤ := if e.theWindow < e.targetWindow then 1 else -1

/-- Ups minus downs, of the intervals that have ended, the last one first, and of the one under
way. -/
structure NetMoves where
  ended : List ℤ
  current : ℤ
deriving DecidableEq

/-- The move of the call that ends an interval counts for the next one. -/
def NetMoves.add (n : NetMoves) (e : MarkovianCC) : NetMoves :=
  if e.AtBoundary then ⟨n.current :: n.ended, e.move⟩
  else { n with current := n.current+e.move }

/-- The interval under way has moved like the one before it. -/
def NetMoves.Sustained (n : NetMoves) : Prop :=
  n.current ≠ 0 ∧ ∃ d ∈ n.ended.head?, d.sign = n.current.sign

instance (n : NetMoves) : Decidable n.Sustained := inferInstanceAs (Decidable (_ ∧ _))

/-! ### Calls -/

/-- What `update_intersend_time` keeps from one call to the next. -/
structure Velocity where
  updateAmt : ℚ
  updateDir : ℤ
  prevUpdateDir : ℤ
  lastUpdateTime : ℚ
deriving DecidableEq

def velocity (q : MarkovianCC) : Velocity :=
  ⟨q.updateAmt, q.updateDir, q.prevUpdateDir, q.lastUpdateTime⟩

/-- The call that the state `e` makes in steady state. Whatever happens between two calls keeps
the velocity, and the clock does not go back. -/
def steadyCall (q e : MarkovianCC) : Option MarkovianCC :=
  if e.velocity = q.velocity ∧ q.curTick ≤ e.curTick ∧ e.slowStart = false ∧
      2*numProbePkts-1 ≤ e.numPktsAcked then
    e.updateIntersendTime.toOption
  else none

/-- A state between calls with the moves so far. -/
structure SteadyRun where
  q : MarkovianCC
  moves : NetMoves

def steadyStep (s : SteadyRun) (e : MarkovianCC) : Option SteadyRun :=
  (steadyCall s.q e).map fun r => ⟨r, s.moves.add e⟩

/-- From the third interval on, the step size is doubled at the end of an interval that moved like
the one before, and set back at the end of any other. -/
def DoublesSustained (s : SteadyRun) (e : MarkovianCC) : Prop :=
  e.AtBoundary → 2 ≤ s.moves.ended.length →
    e.updateAmtPerRtt.updateAmt = if s.moves.Sustained then doubledAmt e.updateAmt else 1

/-- The direction left by the intervals that have ended: that of the last one that had a
direction, turned round by every one after it. A flow starts as if after one down. -/
def storedDirection (ended : List ℤ) : ℤ :=
  (-1)^(ended.takeWhile (· = 0)).length*
    ((ended.dropWhile (· = 0)).head?.map Int.sign).getD (-1)

/-- After intervals without a net move, the one under way does not move in the direction that
they leave. -/
def TurnedDirectionUnused (s : SteadyRun) (e : MarkovianCC) : Prop :=
  e.AtBoundary → 2 ≤ s.moves.ended.length → s.moves.ended.head? = some 0 →
    s.moves.current.sign ≠ storedDirection s.moves.ended

instance (s : SteadyRun) (e : MarkovianCC) : Decidable (TurnedDirectionUnused s e) :=
  inferInstanceAs (Decidable (_ → _ → _ → _ ≠ _))

/-! ### One call -/

/-- At the end of an interval the step size is doubled or set back by the two counters. -/
theorem updateAmtPerRtt_atBoundary {e : MarkovianCC} (h : e.AtBoundary)
    (hamt : ∃ k < 31, e.updateAmt = 2^k) :
    e.updateAmtPerRtt.updateAmt =
        (if 0 < e.prevUpdateDir*e.updateDir then doubledAmt e.updateAmt else 1) ∧
      e.updateAmtPerRtt.prevUpdateDir =
        (if 0 < e.prevUpdateDir*e.updateDir then e.prevUpdateDir else -e.prevUpdateDir) ∧
      e.updateAmtPerRtt.updateDir = 0 := by
  have hlarge : ¬ e.updateAmt < 6/1000 := by
    obtain ⟨k, _, hk⟩ := hamt
    have hone : (1:ℚ) ≤ 2^k := one_le_pow₀ (by norm_num)
    rw [hk]
    linarith
  have hover : e.lastUpdateTime+e.rttWindow.getLatestRtt < e.curTick := h
  rw [updateAmtPerRtt, if_pos hover]
  refine ⟨?_, ?_, rfl⟩
  · dsimp only
    rw [if_neg hlarge]
  · dsimp only
    rw [mul_neg_one]

theorem updateAmtPerRtt_of_not_atBoundary {e : MarkovianCC} (h : ¬ e.AtBoundary) :
    e.updateAmtPerRtt = e := if_neg h

theorem steadyState_updateDir (e : MarkovianCC) :
    (e.steadyState e.targetWindow).updateDir = e.updateAmtPerRtt.updateDir+e.move ∧
      (e.steadyState e.targetWindow).prevUpdateDir = e.updateAmtPerRtt.prevUpdateDir := by
  obtain ⟨a, p, l, c, d, hframe⟩ := updateAmtPerRtt_frame e
  unfold steadyState move
  rw [hframe]
  extract_lets r amt amt' r'
  by_cases hup : e.theWindow < e.targetWindow
  · rw [if_pos hup, if_pos hup]
    exact ⟨rfl, rfl⟩
  · rw [if_neg hup, if_neg hup]
    exact ⟨rfl, rfl⟩

/-- A call in steady state moves the window by what the step size has become. -/
theorem steadyCall_eq_some {q e r : MarkovianCC} (h : steadyCall q e = some r) :
    e.velocity = q.velocity ∧ e.slowStart = false ∧
      r = (e.steadyState e.targetWindow).setIntersendTime
        (e.steadyState e.targetWindow).theWindow e.rttWindow.getUnjitteredRtt := by
  unfold steadyCall at h
  split_ifs at h with hcall
  obtain ⟨hvelocity, -, hslow, hacked⟩ := hcall
  refine ⟨hvelocity, hslow, ?_⟩
  rw [updateIntersendTime, if_neg (not_lt.mpr hacked), hslow, if_neg Bool.false_ne_true] at h
  exact (Option.some.inj h).symm

/-! ### The stored direction -/

theorem pos_mul_iff_sign {p d : ℤ} (hp : p = 1 ∨ p = -1) : 0 < p*d ↔ d ≠ 0 ∧ d.sign = p := by
  rcases hp with rfl | rfl
  · rw [one_mul, Int.sign_eq_one_iff_pos]
    exact ⟨fun h => ⟨h.ne', h⟩, And.right⟩
  · rw [neg_one_mul, Int.neg_pos, Int.sign_eq_neg_one_iff_neg]
    exact ⟨fun h => ⟨h.ne, h⟩, And.right⟩

theorem doubledAmt_ne_one {a : ℚ} (h : ∃ k < 31, a = 2^k) : doubledAmt a ≠ 1 := by
  obtain ⟨k, hk, rfl⟩ := h
  rcases doubledAmt_pow hk with ⟨hpow, _⟩ | hneg
  · have htwo : (2:ℚ) ≤ 2^(k+1) := by
      rw [pow_succ]
      have hone : (1:ℚ) ≤ 2^k := one_le_pow₀ (by norm_num)
      linarith
    rw [hpow]
    linarith
  · linarith

theorem storedDirection_cons (d : ℤ) (ds : List ℤ) :
    storedDirection (d :: ds) = if d = 0 then -storedDirection ds else d.sign := by
  unfold storedDirection
  by_cases hd : d = 0
  · rw [List.takeWhile_cons_of_pos (by simpa using hd), List.dropWhile_cons_of_pos
      (by simpa using hd), List.length_cons, pow_succ, if_pos hd]
    ring
  · rw [List.takeWhile_cons_of_neg (by simpa using hd), List.dropWhile_cons_of_neg
      (by simpa using hd), if_neg hd]
    exact one_mul _

/-- What holds between the calls of a run. Before the first boundary the counter is one ahead,
and the stored direction is up. -/
structure Tracked (s : SteadyRun) : Prop where
  updateAmt : ∃ k < 31, s.q.updateAmt = 2^k
  prevUpdateDir : s.q.prevUpdateDir = 1 ∨ s.q.prevUpdateDir = -1
  updateDir : s.q.updateDir = s.moves.current+(if s.moves.ended = [] then 1 else 0)
  stored : s.q.prevUpdateDir =
    if s.moves.ended = [] then 1 else storedDirection s.moves.ended

theorem tracked_init (q : MarkovianCC) : Tracked ⟨q.init, ⟨[], 0⟩⟩ where
  updateAmt := ⟨0, by norm_num, by norm_num [init]⟩
  prevUpdateDir := Or.inl rfl
  updateDir := rfl
  stored := rfl

/-- After a boundary the stored direction is that of the interval just ended, if it had one. -/
theorem stored_boundary {p d : ℤ} (hp : p = 1 ∨ p = -1) :
    (if 0 < p*d then p else -p) = if d = 0 then -p else d.sign := by
  by_cases hd : d = 0
  · rw [if_pos hd, hd, mul_zero, if_neg (lt_irrefl 0)]
  rw [if_neg hd]
  split_ifs with hkeeps
  · exact ((pos_mul_iff_sign hp).mp hkeeps).2.symm
  · have hneg : 0 < -p*d := by
      rcases hp with rfl | rfl
      · omega
      · omega
    have hp' : -p = 1 ∨ -p = -1 := hp.symm.imp (fun h => by omega) (fun h => by omega)
    exact ((pos_mul_iff_sign hp').mp hneg).2.symm

/-- The first boundary finds the counter one ahead. -/
theorem stored_firstBoundary (d : ℤ) :
    (if 0 < 1*(d+1) then (1:ℤ) else -1) = storedDirection [d] := by
  rw [storedDirection_cons, one_mul]
  rcases lt_trichotomy d 0 with hd | rfl | hd
  · rw [if_neg (by omega), if_neg hd.ne, Int.sign_eq_neg_one_of_neg hd]
  · decide
  · rw [if_pos (by omega), if_neg hd.ne', Int.sign_eq_one_of_pos hd]

/-- Only the velocity counts. -/
theorem Tracked.of_velocity {s : SteadyRun} (hs : Tracked s) {e : MarkovianCC}
    (h : e.velocity = s.q.velocity) : Tracked ⟨e, s.moves⟩ := by
  obtain ⟨hamt, hdir, hprev, -⟩ := Velocity.mk.inj h
  constructor
  · rw [hamt]
    exact hs.updateAmt
  · rw [hprev]
    exact hs.prevUpdateDir
  · rw [hdir]
    exact hs.updateDir
  · rw [hprev]
    exact hs.stored

theorem Tracked.updateDir_eq_current {s : SteadyRun} (hs : Tracked s)
    (hended : s.moves.ended ≠ []) : s.q.updateDir = s.moves.current := by
  rw [hs.updateDir, if_neg hended, add_zero]

theorem tracked_step {s t : SteadyRun} {e : MarkovianCC} (hs : Tracked s)
    (h : steadyStep s e = some t) : Tracked t := by
  obtain ⟨r, hr, rfl⟩ := Option.map_eq_some_iff.mp h
  obtain ⟨hvelocity, -, rfl⟩ := steadyCall_eq_some hr
  obtain ⟨hpow, hsign, hdir, hstored⟩ := hs.of_velocity hvelocity
  obtain ⟨hdir', hprev'⟩ := steadyState_updateDir e
  refine ⟨updateAmt_steadyState hpow _, prevUpdateDir_steadyState hsign _, ?_, ?_⟩
  · change (e.steadyState e.targetWindow).updateDir = _
    rw [hdir', NetMoves.add]
    by_cases hboundary : e.AtBoundary
    · rw [if_pos hboundary, (updateAmtPerRtt_atBoundary hboundary hpow).2.2, zero_add]
      exact (add_zero _).symm
    · rw [if_neg hboundary, updateAmtPerRtt_of_not_atBoundary hboundary, hdir]
      ring
  · -- only a boundary changes the stored direction
    change (e.steadyState e.targetWindow).prevUpdateDir = _
    rw [hprev', NetMoves.add]
    by_cases hboundary : e.AtBoundary
    · rw [if_pos hboundary, (updateAmtPerRtt_atBoundary hboundary hpow).2.1,
        if_neg (List.cons_ne_nil _ _), hdir]
      dsimp only at hstored ⊢
      by_cases hended : s.moves.ended = []
      · rw [hstored, if_pos hended, if_pos hended, hended]
        exact stored_firstBoundary s.moves.current
      · rw [if_neg hended] at hstored
        rw [if_neg hended, add_zero, storedDirection_cons, ← hstored]
        exact stored_boundary hsign
    · rw [if_neg hboundary, updateAmtPerRtt_of_not_atBoundary hboundary]
      exact hstored

/-- At the end of an interval the counters double the step size exactly when the move is
sustained, unless the interval before had no direction and the one left before it fits. -/
theorem doublesSustained_iff {s t : SteadyRun} {e : MarkovianCC} (hs : Tracked s)
    (h : steadyStep s e = some t) : DoublesSustained s e ↔ TurnedDirectionUnused s e := by
  obtain ⟨r, hr, rfl⟩ := Option.map_eq_some_iff.mp h
  obtain ⟨hvelocity, -, rfl⟩ := steadyCall_eq_some hr
  obtain ⟨hpow, hsign, -, hstored⟩ := hs.of_velocity hvelocity
  refine forall_congr' (fun hboundary => forall_congr' (fun hlen => ?_))
  rw [(updateAmtPerRtt_atBoundary hboundary hpow).1]
  obtain ⟨d, ds, hended⟩ := List.exists_cons_of_length_pos (lt_of_lt_of_le two_pos hlen)
  have hne : s.moves.ended ≠ [] := hended ▸ List.cons_ne_nil d ds
  have hcounter : e.updateDir = s.moves.current :=
    (hs.of_velocity hvelocity).updateDir_eq_current hne
  have hstored : e.prevUpdateDir = storedDirection s.moves.ended := hstored.trans (if_neg hne)
  have hdoubles : 0 < e.prevUpdateDir*s.moves.current ↔
      s.moves.current ≠ 0 ∧ s.moves.current.sign = storedDirection s.moves.ended := by
    rw [← hstored]
    exact pos_mul_iff_sign hsign
  have hsustained : s.moves.Sustained ↔ s.moves.current ≠ 0 ∧ d.sign = s.moves.current.sign := by
    rw [NetMoves.Sustained, hended]
    simp only [List.head?_cons, Option.mem_some_iff, exists_eq_left']
  rw [hcounter, if_congr hdoubles rfl rfl, hended, List.head?_cons, Option.some.injEq, ← hended]
  by_cases hd : d = 0
  · -- no direction before: nothing is sustained
    have hnot : ¬ s.moves.Sustained := by
      rw [hsustained, hd, Int.sign_zero]
      exact fun h => h.1 (Int.sign_eq_zero_iff_zero.mp h.2.symm)
    rw [if_neg hnot]
    constructor
    · intro hreset _ hturned
      have hcurrent : s.moves.current ≠ 0 := by
        intro hzero
        rw [← hstored, hzero, Int.sign_zero] at hturned
        have hunit : e.prevUpdateDir = 1 ∨ e.prevUpdateDir = -1 := hsign
        omega
      rw [if_pos ⟨hcurrent, hturned⟩] at hreset
      exact doubledAmt_ne_one hpow hreset
    · intro hunused
      exact if_neg fun hkeeps => hunused hd hkeeps.2
  · -- the stored direction is that of the interval before
    have hdirection : storedDirection s.moves.ended = d.sign := by
      rw [hended, storedDirection_cons, if_neg hd]
    refine iff_of_true (if_congr ?_ rfl rfl) (fun h => absurd h hd)
    rw [hsustained, hdirection]
    exact and_congr_right (fun _ => eq_comm)

/-! ### Runs -/

theorem run_doublesSustained_iff {s t : SteadyRun} (hs : Tracked s) {es : List MarkovianCC}
    (hrun : run steadyStep s es = some t) :
    RunMeets steadyStep DoublesSustained s es ↔ RunMeets steadyStep TurnedDirectionUnused s es :=
  runMeets_congr_on steadyStep Tracked (fun _ _ hs hdef => doublesSustained_iff hs hdef.choose_spec)
    (fun _ _ _ hs _ _ ht => tracked_step hs ht) hs (runMeets_defined steadyStep hrun)

/-- In a run of calls in steady state, the step size is doubled exactly for sustained moves if and
only if after `k` intervals without a net move none moves in the direction `(-1)^k` times the last
one before them. -/
theorem velocity_doubles_sustained_iff (q : MarkovianCC) {es : List MarkovianCC} {t : SteadyRun}
    (hrun : run steadyStep ⟨q.init, ⟨[], 0⟩⟩ es = some t) :
    RunMeets steadyStep DoublesSustained ⟨q.init, ⟨[], 0⟩⟩ es ↔
      RunMeets steadyStep TurnedDirectionUnused ⟨q.init, ⟨[], 0⟩⟩ es :=
  run_doublesSustained_iff (tracked_init q) hrun

/-- Calls at the given times from given states: an RTT of 10, and a target that is above the
window or below it. -/
def callsAt (q : MarkovianCC) : List (ℚ × Bool) → List MarkovianCC
  | [] => []
  | (now, up) :: calls =>
    let e := { q with
      curTick := now
      slowStart := false
      numPktsAcked := 19
      minRtt := if up then 10 else 5
      rttWindow := CopaNgscope.rttWindow.newRttSample 10 now }
    e :: callsAt (e.steadyState e.targetWindow) calls

/-- An interval up, one without a net move, and one up. -/
def upThenUp : List MarkovianCC :=
  callsAt constantDeltaOne.init [(11, true), (22, true), (23, false), (33, true), (44, true)]

/-- An interval up, one without a net move, and one down. -/
def upThenDown : List MarkovianCC :=
  callsAt constantDeltaOne.init [(11, true), (22, true), (23, false), (33, false), (44, false)]

theorem velocity_doubles_sustained_iff_upThenUp : ∃ t,
    run steadyStep ⟨constantDeltaOne.init, ⟨[], 0⟩⟩ upThenUp = some t ∧
    RunMeets steadyStep TurnedDirectionUnused ⟨constantDeltaOne.init, ⟨[], 0⟩⟩ upThenUp ∧
    RunMeets steadyStep DoublesSustained ⟨constantDeltaOne.init, ⟨[], 0⟩⟩ upThenUp := by
  have hrun := (Option.some_get (x := run steadyStep ⟨constantDeltaOne.init, ⟨[], 0⟩⟩ upThenUp)
    (by decide +kernel)).symm
  have hunused : RunMeets steadyStep TurnedDirectionUnused ⟨constantDeltaOne.init, ⟨[], 0⟩⟩
      upThenUp := by
    decide +kernel
  exact ⟨_, hrun, hunused, (velocity_doubles_sustained_iff constantDeltaOne hrun).mpr hunused⟩

/-- The step size is doubled for the interval down. -/
theorem velocity_doubles_unsustained :
    ¬ ∀ (q : MarkovianCC) (es : List MarkovianCC) (t : SteadyRun),
      run steadyStep ⟨q.init, ⟨[], 0⟩⟩ es = some t →
      RunMeets steadyStep DoublesSustained ⟨q.init, ⟨[], 0⟩⟩ es := by
  intro hall
  have hrun := (Option.some_get (x := run steadyStep ⟨constantDeltaOne.init, ⟨[], 0⟩⟩ upThenDown)
    (by decide +kernel)).symm
  have hunused := (run_doublesSustained_iff (tracked_init constantDeltaOne) hrun).mp
    (hall constantDeltaOne upThenDown _ hrun)
  have hused : ¬ RunMeets steadyStep TurnedDirectionUnused ⟨constantDeltaOne.init, ⟨[], 0⟩⟩
      upThenDown := by
    decide +kernel
  exact hused hunused

/-! ### The calls of the controller -/

theorem velocity_ackEntry {q e : MarkovianCC} {sentTime : ℚ} {adjustUs : ℤ}
    (h : q.AckEntry sentTime adjustUs e) :
    e.velocity = q.velocity ∧ e.curTick = q.curTick ∧ e.slowStart = q.slowStart ∧
      e.numPktsAcked = q.numPktsAcked := by
  obtain ⟨f, i, p, rfl⟩ := ackEntry_frame h
  obtain ⟨i', o, d, p', p'', hentry⟩ := updateDelta_frame _ false (q.currRtt sentTime adjustUs)
  rw [hentry]
  exact ⟨rfl, rfl, rfl, rfl⟩

theorem velocity_ackTail {r u : MarkovianCC} {ack : ℤ} (h : r.ackTail ack = .ok u) :
    u.velocity = r.velocity ∧ u.curTick = r.curTick := by
  obtain ⟨t, ht, rfl⟩ := ackTail_eq_ok h
  have herase : t.1.velocity = r.velocity ∧ t.1.curTick = r.curTick := by
    rcases eraseAcked_eq_ok ht with ⟨_, rfl⟩ | ⟨v, _, hv, rfl⟩
    · exact ⟨rfl, rfl⟩
    · obtain ⟨a, b, c, d, e, n, l, hframe⟩ := ackLoop_frame hv
      dsimp only
      rw [hframe]
      exact ⟨rfl, rfl⟩
  obtain ⟨i, o, d, p, p', hdelta⟩ := updateDelta_frame t.1 true 0
  obtain ⟨l, w, j, j', hreduce⟩ :=
    reduceWindow_frame (if t.2.1 then t.1.updateDelta true 0 else t.1) t.2.2
  rw [hreduce, hdelta]
  split_ifs
  · exact herase
  · exact herase

/-- A call that is not in steady state leaves the velocity. -/
theorem velocity_updateIntersendTime {e r : MarkovianCC} (h : e.updateIntersendTime = .ok r)
    (hunsteady : e.slowStart = true ∨ e.numPktsAcked < 2*numProbePkts-1) :
    r.velocity = e.velocity ∧ r.curTick = e.curTick := by
  rcases updateIntersendTime_eq_ok h with ⟨_, rfl⟩ | ⟨s, ⟨_, hs⟩ | ⟨hslow, rfl⟩, rfl⟩
  · exact ⟨rfl, rfl⟩
  · obtain ⟨_, rfl⟩ := startUp_eq_ok hs
    exact ⟨rfl, rfl⟩
  · rcases hunsteady with hstart | hprobe
    · exact absurd (hslow.symm.trans hstart) Bool.false_ne_true
    · rw [updateIntersendTime, if_pos hprobe] at h
      rw [← Except.ok.inj h]
      exact ⟨rfl, rfl⟩

/-- What a run of calls has reached when the controller is in the state `q`. -/
def Follows (q : MarkovianCC) (s : SteadyRun) : Prop :=
  s.q.velocity = q.velocity ∧ s.q.curTick ≤ q.curTick

/-- An ACK makes one call in steady state, or leaves the velocity. -/
theorem follows_onACK {q u : MarkovianCC} {s : SteadyRun} (hs : Follows q s) {ack : ℤ}
    {sentTime : ℚ} {adjustUs : ℤ} (h : q.onACK ack sentTime adjustUs = .ok u) :
    ∃ es t, run steadyStep s es = some t ∧ Follows u t := by
  obtain ⟨e, r, he, hr, htail⟩ := onACK_eq_ok h
  obtain ⟨hvelocity, htick, -⟩ := velocity_ackEntry he
  obtain ⟨hvelocity', htick'⟩ := velocity_ackTail htail
  by_cases hsteady : e.slowStart = false ∧ 2*numProbePkts-1 ≤ e.numPktsAcked
  · have hcall : steadyCall s.q e = some r := by
      have hclock : s.q.curTick ≤ e.curTick := hs.2.trans_eq htick.symm
      rw [steadyCall, if_pos ⟨hvelocity.trans hs.1.symm, hclock, hsteady⟩, hr]
      rfl
    refine ⟨[e], ⟨r, s.moves.add e⟩, ?_, hvelocity'.symm, htick'.ge⟩
    rw [run_singleton, steadyStep, hcall]
    rfl
  · have hunsteady : e.slowStart = true ∨ e.numPktsAcked < 2*numProbePkts-1 := by
      rw [not_and_or, Bool.not_eq_false, not_le] at hsteady
      exact hsteady
    obtain ⟨hsame, htick''⟩ := velocity_updateIntersendTime hr hunsteady
    refine ⟨[], s, rfl, ?_, ?_⟩
    · rw [hvelocity', hsame, hvelocity]
      exact hs.1
    · rw [htick', htick'', htick]
      exact hs.2

/-- No new flow is started. -/
def SameFlow : Callback → Prop
  | .init | .setMinRtt _ => False
  | _ => True

theorem follows_step {q u : MarkovianCC} {s : SteadyRun} (hs : Follows q s) {c : Callback}
    (hc : SameFlow c) (hclock : q.ClockForward c) (h : q.step c = some u) :
    ∃ es t, run steadyStep s es = some t ∧ Follows u t := by
  cases c with
  | init => exact absurd hc id
  | setMinRtt x => exact absurd hc id
  | setTimestamp now =>
    cases h
    exact ⟨[], s, rfl, hs.1, hs.2.trans hclock⟩
  | onTimeout =>
    cases h
    exact ⟨[], s, rfl, hs⟩
  | onPktSent seqNum =>
    cases h
    obtain ⟨e, i, v, hframe⟩ := onPktSent_frame q seqNum
    rw [hframe]
    exact ⟨[], s, rfl, hs⟩
  | onACK ack sentTime adjustUs => exact follows_onACK hs (toOption_eq_some h)

/-- A flow of the controller is a run of calls in steady state, with what happens in between. -/
theorem steadyRun_of_flow {q u : MarkovianCC} {s : SteadyRun} (hs : Follows q s)
    {cs : List Callback} (hflow : ∀ c ∈ cs, SameFlow c) (hclock : RunMeets step ClockForward q cs)
    (hrun : run step q cs = some u) : ∃ es t, run steadyStep s es = some t ∧ Follows u t := by
  induction cs generalizing q s with
  | nil =>
    cases hrun
    exact ⟨[], s, rfl, hs⟩
  | cons c cs ih =>
    obtain ⟨hc, hrest⟩ := List.forall_mem_cons.mp hflow
    obtain ⟨r, hr, hru⟩ := Option.bind_eq_some_iff.mp hrun
    obtain ⟨es, t, ht, hfollows⟩ := follows_step hs hc hclock.1 hr
    obtain ⟨es', t', ht', hfollows'⟩ := ih hfollows hrest (hclock.2 r hr) hru
    exact ⟨es ++ es', t', (run_append_eq_some steadyStep).mpr ⟨t, ht, ht'⟩, hfollows'⟩

end MarkovianCC

end CopaNgscope
