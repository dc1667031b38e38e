import CopaNgscope.NgscopeReTxBurst
import CopaNgscope.NgscopeReorderingBuf

/-! What the result of `update_reTx_buf` says: whether a retransmission entered the buffer, and
when a new burst is reported although the buffer is active. -/
namespace CopaNgscope
open CircularDistance

/-! ### The reports of the loop -/

/-- Entry `i` is taken for the start of a burst while the buffer is active. -/
def ReportsEntry (q : NgscopeReorderingBuf) (trace : NgscopeReTxCa) (i : ℕ) : Prop :=
  trace.reTx i = true ∧ q.bufferActive = true ∧ ngscopeReTxIsNewBurst trace i = true

instance (q : NgscopeReorderingBuf) (trace : NgscopeReTxCa) (i : ℕ) :
    Decidable (ReportsEntry q trace i) := inferInstanceAs (Decidable (_ ∧ _))

/-- The entries at which the loop of `update_reTx_buf` only prints an error. -/
def newBurstReports (trace : NgscopeReTxCa) : List ℕ → NgscopeReorderingBuf → List ℕ
  | [], _ => []
  | i :: is, q =>
    if ttiASeB (wrapTti (trace.tti i)) (wrapTti q.bufLastTti) ∧ q.ready then
      newBurstReports trace is q
    else
      let report := if ReportsEntry q trace i then [i] else []
      let q := if trace.reTx i then takeReTx q trace i else q
      if q.bufferActive ∧ ttiALB (wrapTti (trace.tti i)) (wrapTti (q.bufLastTti+8)) then report
      else report ++ newBurstReports trace is q

section
variable {q : NgscopeReorderingBuf} {trace : NgscopeReTxCa} {i : ℕ}

theorem newBurstReports_skips (h : SkipsEntry q trace i) (is : List ℕ) :
    newBurstReports trace (i :: is) q = newBurstReports trace is q := by
  rw [newBurstReports]
  exact if_pos h

theorem newBurstReports_over (h : ¬ SkipsEntry q trace i)
    (hover : BurstOver (takeEntry q trace i) trace i) (is : List ℕ) :
    newBurstReports trace (i :: is) q = if ReportsEntry q trace i then [i] else [] := by
  rw [newBurstReports]
  exact (if_neg h).trans (if_pos hover)

theorem newBurstReports_takes (h : ¬ SkipsEntry q trace i)
    (hover : ¬ BurstOver (takeEntry q trace i) trace i) (is : List ℕ) :
    newBurstReports trace (i :: is) q = (if ReportsEntry q trace i then [i] else []) ++
      newBurstReports trace is (takeEntry q trace i) := by
  rw [newBurstReports]
  exact (if_neg h).trans (if_neg hover)

/-- Quiet entries are not reported. -/
theorem newBurstReports_append {is : List ℕ} (his : ∀ i ∈ is, QuietEntry q trace i)
    (js : List ℕ) : newBurstReports trace (is ++ js) q = newBurstReports trace js q := by
  induction is with
  | nil => rfl
  | cons i is ih =>
    obtain ⟨hi, hrest⟩ := List.forall_mem_cons.mp his
    rw [List.cons_append]
    by_cases hskip : SkipsEntry q trace i
    · rw [newBurstReports_skips hskip]
      exact ih hrest
    · obtain ⟨hreTx, hover⟩ := hi.resolve_left hskip
      have hsame := takeEntry_of_not_reTx hreTx q
      have hreport : ¬ ReportsEntry q trace i := fun h => absurd h.1 (by simp [hreTx])
      rw [newBurstReports_takes hskip (by rwa [hsame]), hsame, if_neg hreport, List.nil_append]
      exact ih hrest

/-- Nor is anything reported where every retransmission is left out. -/
theorem newBurstReports_old {is : List ℕ}
    (his : ∀ i ∈ is, trace.reTx i = true → SkipsEntry q trace i) :
    newBurstReports trace is q = [] := by
  induction is with
  | nil => rfl
  | cons i is ih =>
    obtain ⟨hi, hrest⟩ := List.forall_mem_cons.mp his
    by_cases hskip : SkipsEntry q trace i
    · rw [newBurstReports_skips hskip]
      exact ih hrest
    · have hreTx : trace.reTx i = false := by simpa using fun h => hskip (hi h)
      have hsame := takeEntry_of_not_reTx hreTx q
      have hreport : ¬ ReportsEntry q trace i := fun h => absurd h.1 (by simp [hreTx])
      by_cases hover : BurstOver (takeEntry q trace i) trace i
      · rw [newBurstReports_over hskip hover, if_neg hreport]
      · rw [newBurstReports_takes hskip hover, hsame, if_neg hreport, List.nil_append]
        exact ih hrest

end

section
variable {q : NgscopeReorderingBuf} {trace : NgscopeReTxCa} {start a last : ℕ} {bs : List ℕ}
  (htrace : trace.Contiguous start) (hsize : trace.size < 5120)
include htrace hsize

/-- Behind a retransmission taken only the entry nine TTIs after the end of its chain can be
reported. -/
theorem newBurstReports_chain (h : TookReTx q trace a) (hchain : BurstChain trace a bs last) :
    newBurstReports trace (List.range' (a+1) (trace.size-(a+1))) q =
      if last+9 < trace.size ∧ trace.reTx (last+9) = true then [last+9] else [] := by
  induction hchain generalizing q with
  | @ends a hends =>
    have hlt := h.lt_size
    rcases Nat.lt_or_ge (a+9) trace.size with hlate | hshort
    · -- the loop still looks at the entry nine behind, and ends with it
      obtain ⟨hskip, hover⟩ := h.stops_late htrace hsize hends hlate
      have hquiet : ∀ k ∈ List.range' (a+1) (a+9-(a+1)), QuietEntry q trace k :=
        fun k hk => Or.inr (h.quiet_behind htrace hsize hends (by omega) (by omega) k hk)
      have hnew : ngscopeReTxIsNewBurst trace (a+9) = true := by
        apply isNewBurst_eq_true hlate
        intro k hle hk
        exact hends k (by omega) (by omega) (by omega)
      rw [range'_split (show a < a+9 by omega) hlate, newBurstReports_append hquiet,
        newBurstReports_over hskip hover]
      have hiff : ReportsEntry q trace (a+9) ↔
          a+9 < trace.size ∧ trace.reTx (a+9) = true := by
        rw [ReportsEntry, hnew, h.active]
        simp [hlate]
      simp only [hiff]
    · have hquiet : ∀ k ∈ List.range' (a+1) (trace.size-(a+1)), QuietEntry q trace k :=
        fun k hk => Or.inr (h.quiet_behind htrace hsize hends (by omega) (by omega) k hk)
      have hnil := newBurstReports_append hquiet []
      rw [List.append_nil] at hnil
      rw [hnil, if_neg (by omega)]
      rfl
  | @next a b last bs hnext hrest ih =>
    have hb := hnext.lt_size
    have hle := hnext.le
    have hab := hnext.lt
    obtain ⟨hskip, hover⟩ := h.goes_on htrace hsize hnext
    have hreport : ¬ ReportsEntry q trace b := by
      intro hreport
      have hold := isNewBurst_eq_false hb (by omega) hab h.reTx
      exact absurd hreport.2.2 (by simp [hold])
    have hquiet : ∀ k ∈ List.range' (a+1) (b-(a+1)), QuietEntry q trace k :=
      fun k hk => Or.inr (h.quiet_between htrace hsize hnext k hk)
    rw [range'_split hab hb, newBurstReports_append hquiet,
      newBurstReports_takes hskip hover, if_neg hreport, List.nil_append,
      h.takeEntry_next hnext]
    exact ih (h.next hnext)

end

theorem IsTtiOf.cdist_eq {a b : UInt16} {x y : ℕ} (ha : IsTtiOf a x) (hb : IsTtiOf b y)
    (hxy : x ≤ y) (hlt : y < x+maxTti) : cdist maxTti a.toNat b.toNat = y-x := by
  have hwalk : b.toNat = (a.toNat+(y-x))%maxTti := by
    rw [hb, ha, Nat.mod_add_mod]
    congr 1
    omega
  rw [hwalk, cdist_add_right (by decide), Nat.mod_eq_of_lt (by omega)]

/-! ### What the result should say -/

/-- The last retransmission recorded after the update is newer than the one before. -/
def AbsorbsReTx (q : NgscopeReorderingBuf) (trace : NgscopeReTxCa) : Prop :=
  ∃ k < trace.size, trace.reTx k = true ∧ NewerThanLast q trace k ∧
    (updateReTxBuf q trace).1.bufLastTti = trace.tti k

/-- The result says whether a retransmission was absorbed, and no new burst is reported while the
buffer is active. -/
def ReportsAbsorption (q : NgscopeReorderingBuf) (trace : NgscopeReTxCa) : Prop :=
  ((updateReTxBuf q trace).2 = true ↔ AbsorbsReTx q trace) ∧
    newBurstReports trace (List.range trace.size) q = []

/-- The loop gets to entry `i` before it gives up the burst of an active buffer. -/
def ReachesEntry (q : NgscopeReorderingBuf) (trace : NgscopeReTxCa) (i : ℕ) : Prop :=
  q.bufferActive = true → i = 0 ∨ cdist maxTti q.bufLastTti.toNat (trace.tti i).toNat ≤ 9

/-- The first new retransmission that the loop gets to does not look like a new burst to an active
buffer, and its chain is not followed by a retransmission nine TTIs later. -/
def JoinsBurst (q : NgscopeReorderingBuf) (trace : NgscopeReTxCa) : Prop :=
  ∀ i, FirstNewReTx q trace i → ReachesEntry q trace i →
    (q.bufferActive = true → ∃ k, i-8 ≤ k ∧ k < i ∧ trace.reTx k = true) ∧
    ∀ bs last, BurstChain trace i bs last → last+9 < trace.size → trace.reTx (last+9) = false

section
variable {q : NgscopeReorderingBuf} {trace : NgscopeReTxCa} {tail : ℕ}

theorem NewerThanLast.ne_last {k : ℕ} (h : NewerThanLast q trace k) (hready : q.ready = true) :
    q.bufLastTti ≠ trace.tti k := by
  intro heq
  have hlt := h hready
  rw [heq] at hlt
  exact lt_irrefl _ hlt

variable (htrace : trace.Contiguous tail) (hsize : trace.size < 5120) (hrecent : RecentLast q trace)
include htrace hsize hrecent

theorem NewerThanLast.mono {i k : ℕ} (h : NewerThanLast q trace i) (hik : i ≤ k)
    (hk : k < trace.size) : NewerThanLast q trace k := by
  intro hready
  obtain ⟨start, last, _, _, _, _, hnewer⟩ :=
    exists_time_of_recentLast htrace hsize hrecent hready (by omega)
  have hi := (hnewer i (by omega)).mp h
  exact (hnewer k hk).mpr (by omega) hready

/-- Without a new retransmission the result is right. -/
theorem reportsAbsorption_of_none (hnone : ¬ ∃ i, FirstNewReTx q trace i) :
    ReportsAbsorption q trace := by
  have hskip := skipsEntry_of_none htrace hsize hrecent hnone
  refine ⟨?_, newBurstReports_old fun i hi => hskip i (List.mem_range.mp hi)⟩
  rw [updateReTxBuf_of_old hskip]
  constructor
  · intro h
    cases h
  · intro h
    obtain ⟨k, hk, hreTx, hnewer, _⟩ := h
    exact absurd (exists_firstNewReTx ⟨k, hk, hreTx, hnewer⟩) hnone

/-- Once the first new retransmission is taken, the result is right as long as its chain is not
followed by a retransmission nine TTIs later. -/
theorem reportsAbsorption_of_took {i : ℕ} (hi : FirstNewReTx q trace i) {bs : List ℕ} {last : ℕ}
    (hchain : BurstChain trace i bs last)
    (hquiet : ∀ k ∈ List.range i, QuietEntry q trace k)
    (htook : TookReTx (takeReTx q trace i) trace i) (hreport : ¬ ReportsEntry q trace i) :
    ReportsAbsorption q trace ↔ (last+9 < trace.size → trace.reTx (last+9) = false) := by
  obtain ⟨htake, hskip, hover⟩ := hi.takes htrace hsize hrecent htook
  have hloop := updateReTxLoop_append hquiet (i :: List.range' (i+1) (trace.size-(i+1))) false
  have hreports := newBurstReports_append hquiet (i :: List.range' (i+1) (trace.size-(i+1)))
  rw [← range_split hi.lt_size, updateReTxLoop_takes hskip hover, htake, hi.reTx,
    Bool.false_or] at hloop
  rw [← range_split hi.lt_size, newBurstReports_takes hskip hover, if_neg hreport,
    List.nil_append, htake, newBurstReports_chain htrace hsize htook hchain] at hreports
  have hfound : (updateReTxBuf q trace).2 = true := by
    rw [updateReTxBuf, hloop]
    exact updateReTxLoop_found trace _ _
  have hlast : (updateReTxBuf q trace).1.bufLastTti = trace.tti last := by
    rw [updateReTxBuf, hloop, updateReTxLoop_fst, scanReTx_chain htrace hsize htook hchain]
    rfl
  obtain ⟨hreTxLast, hlt⟩ := hchain.last_reTx hi.reTx hi.lt_size
  have habsorbs : AbsorbsReTx q trace :=
    ⟨last, hlt, hreTxLast, hi.newer.mono htrace hsize hrecent hchain.le_last hlt, hlast⟩
  rw [ReportsAbsorption, hreports, and_iff_right (iff_of_true hfound habsorbs)]
  constructor
  · intro hnil hend
    by_contra hset
    rw [if_pos ⟨hend, by simpa using hset⟩] at hnil
    cases hnil
  · intro h
    apply if_neg
    intro hlate
    rw [h hlate.1] at hlate
    exact absurd hlate.2 (by decide)

/-- In terms of times: the loop gets to a new entry within nine TTIs of the last one. -/
theorem exists_times (hactive : q.bufferActive = true) (hready : q.ready = true) {i : ℕ}
    (hi : FirstNewReTx q trace i) :
    ∃ start last, (ReachesEntry q trace i ↔ i = 0 ∨ start+i ≤ last+9) ∧
      ∀ k < trace.size, (SkipsEntry q trace k ↔ start+k ≤ last) ∧
        (last < start+k → (BurstOver q trace k ↔ last+8 < start+k)) := by
  have hlt := hi.lt_size
  obtain ⟨start, last, htrace', hlast, hle, hend, hnewer⟩ :=
    exists_time_of_recentLast htrace hsize hrecent hready (by omega)
  have hnew := (hnewer i hlt).mp hi.newer
  refine ⟨start, last, ?_, ?_⟩
  · rw [ReachesEntry, hlast.cdist_eq (htrace' i hlt) hnew.le (by unfold maxTti; omega)]
    constructor
    · intro h
      have := h hactive
      omega
    · intro h _
      omega
  · intro k hk
    refine ⟨?_, ?_⟩
    · rw [skipsEntry_iff_not_newer htrace hsize hrecent hk, hnewer k hk, not_lt]
    · intro hlater
      have htti := htrace' k hk
      have hlimit := isTtiOf_wrapTti_add hlast (show 8 < 10240 by omega)
      rw [BurstOver, htti.wrapTti_eq, and_iff_right hactive]
      exact ttiALB_iff_lt htti hlimit (by omega) (by omega)

section
variable (hactive : q.bufferActive = true) (hready : q.ready = true)
include hactive hready

/-- The entries before a first new retransmission within reach are quiet. -/
theorem quietEntry_of_reached {i : ℕ} (hi : FirstNewReTx q trace i)
    (hreach : ReachesEntry q trace i) : ∀ k ∈ List.range i, QuietEntry q trace k := by
  obtain ⟨start, last, hiff, hentry⟩ := exists_times htrace hsize hrecent hactive hready hi
  have hnear := hiff.mp hreach
  intro k hk
  have hk := List.mem_range.mp hk
  obtain ⟨hskip, hover⟩ := hentry k (hk.trans hi.lt_size)
  by_cases hold : start+k ≤ last
  · exact Or.inl (hskip.mpr hold)
  · refine Or.inr ⟨?_, ?_⟩
    · by_contra hset
      have hnewer := hi.old k hk (by simpa using hset)
      rw [← skipsEntry_iff_not_newer htrace hsize hrecent (hk.trans hi.lt_size), hskip] at hnewer
      exact hold hnewer
    · rw [hover (not_le.mp hold)]
      omega

/-- A first new retransmission out of reach is not seen, and the result is right. -/
theorem reportsAbsorption_of_unreached {i : ℕ} (hi : FirstNewReTx q trace i)
    (hreach : ¬ ReachesEntry q trace i) : ReportsAbsorption q trace := by
  obtain ⟨start, last, hiff, hentry⟩ := exists_times htrace hsize hrecent hactive hready hi
  have hlt := hi.lt_size
  have hfar : i ≠ 0 ∧ last+9 < start+i := by
    rw [hiff] at hreach
    omega
  -- the loop gives up at the first entry that is more than eight TTIs later
  have hk : last+9-start < trace.size := by omega
  have hnotReTx : ∀ k < i, last < start+k → trace.reTx k = false := by
    intro k hki hlater
    by_contra hset
    have hnewer := hi.old k hki (by simpa using hset)
    rw [← skipsEntry_iff_not_newer htrace hsize hrecent (hki.trans hlt),
      (hentry k (hki.trans hlt)).1] at hnewer
    omega
  have hquiet : ∀ k ∈ List.range (last+9-start), QuietEntry q trace k := by
    intro k hk'
    have hk' := List.mem_range.mp hk'
    obtain ⟨hskip, hover⟩ := hentry k (hk'.trans hk)
    by_cases hold : start+k ≤ last
    · exact Or.inl (hskip.mpr hold)
    · refine Or.inr ⟨hnotReTx k (by omega) (by omega), ?_⟩
      rw [hover (not_le.mp hold)]
      omega
  have hreTx := hnotReTx (last+9-start) (by omega) (by omega)
  have hsame := takeEntry_of_not_reTx hreTx q
  have hskip : ¬ SkipsEntry q trace (last+9-start) := by
    rw [(hentry _ hk).1]
    omega
  have hover : BurstOver (takeEntry q trace (last+9-start)) trace (last+9-start) := by
    rw [hsame, (hentry _ hk).2 (by omega)]
    omega
  have hreport : ¬ ReportsEntry q trace (last+9-start) := fun h => absurd h.1 (by simp [hreTx])
  have hloop := updateReTxLoop_append hquiet
    ((last+9-start) :: List.range' (last+9-start+1) (trace.size-(last+9-start+1))) false
  have hreports := newBurstReports_append hquiet
    ((last+9-start) :: List.range' (last+9-start+1) (trace.size-(last+9-start+1)))
  rw [← range_split hk, updateReTxLoop_over hskip hover, hsame, hreTx, Bool.or_false] at hloop
  rw [← range_split hk, newBurstReports_over hskip hover, if_neg hreport] at hreports
  refine ⟨?_, hreports⟩
  rw [AbsorbsReTx, updateReTxBuf, hloop]
  constructor
  · intro h
    cases h
  · intro h
    obtain ⟨k, _, _, hnewer, hlast⟩ := h
    exact absurd hlast (hnewer.ne_last hready)

end

/-- The first new retransmission, within reach, looks like a new burst: it is only reported. -/
theorem not_reportsAbsorption_of_new (hactive : q.bufferActive = true) (hready : q.ready = true)
    {i : ℕ} (hi : FirstNewReTx q trace i) (hreach : ReachesEntry q trace i)
    (hnew : ngscopeReTxIsNewBurst trace i = true) : ¬ ReportsAbsorption q trace := by
  intro h
  have hquiet := quietEntry_of_reached htrace hsize hrecent hactive hready hi hreach
  have hskip := hi.not_skipsEntry htrace hsize hrecent
  have hreports := newBurstReports_append hquiet (i :: List.range' (i+1) (trace.size-(i+1)))
  rw [← range_split hi.lt_size, h.2] at hreports
  have hreport : ReportsEntry q trace i := ⟨hi.reTx, hactive, hnew⟩
  by_cases hover : BurstOver (takeEntry q trace i) trace i
  · rw [newBurstReports_over hskip hover, if_pos hreport] at hreports
    cases hreports
  · rw [newBurstReports_takes hskip hover, if_pos hreport] at hreports
    cases hreports

end

section
variable {q : NgscopeReorderingBuf} {trace : NgscopeReTxCa}

theorem FirstNewReTx.unique {i j : ℕ} (hi : FirstNewReTx q trace i) (hj : FirstNewReTx q trace j) :
    i = j := by
  rcases lt_trichotomy i j with hij | hij | hij
  · exact absurd hi.newer (hj.old i hij hi.reTx)
  · exact hij
  · exact absurd hj.newer (hi.old j hij hj.reTx)

/-- The condition, for the entry it is about and one chain from it. -/
theorem joinsBurst_iff {i : ℕ} (hi : FirstNewReTx q trace i) (hreach : ReachesEntry q trace i) :
    JoinsBurst q trace ↔
      (q.bufferActive = true → ∃ k, i-8 ≤ k ∧ k < i ∧ trace.reTx k = true) ∧
      ∀ bs last, BurstChain trace i bs last → last+9 < trace.size →
        trace.reTx (last+9) = false := by
  constructor
  · intro h
    exact h i hi hreach
  · intro h j hj _
    rw [hj.unique hi]
    exact h

theorem isNewBurst_eq_false_iff {i : ℕ} (hi : i < trace.size) :
    ngscopeReTxIsNewBurst trace i = false ↔ ∃ k, i-8 ≤ k ∧ k < i ∧ trace.reTx k = true := by
  constructor
  · intro h
    rw [ngscopeReTxIsNewBurst, if_neg (by omega), List.all_eq_false] at h
    obtain ⟨k, hk, hset⟩ := h
    obtain ⟨hle, hlt⟩ := mem_before8.mp hk
    exact ⟨k, hle, hlt, by simpa using hset⟩
  · intro h
    obtain ⟨k, hle, hlt, hreTx⟩ := h
    exact isNewBurst_eq_false hi hle hlt hreTx

variable {tail : ℕ} (htrace : trace.Contiguous tail) (hsize : trace.size < 5120)
  (hrecent : RecentLast q trace)
include htrace hsize hrecent

theorem reportsAbsorption_iff_of_took {i : ℕ} (hi : FirstNewReTx q trace i)
    (hreach : ReachesEntry q trace i) (hquiet : ∀ k ∈ List.range i, QuietEntry q trace k)
    (htook : TookReTx (takeReTx q trace i) trace i) (hreport : ¬ ReportsEntry q trace i)
    (hjoin : q.bufferActive = true → ∃ k, i-8 ≤ k ∧ k < i ∧ trace.reTx k = true) :
    ReportsAbsorption q trace ↔ JoinsBurst q trace := by
  rw [joinsBurst_iff hi hreach, and_iff_right hjoin]
  constructor
  · intro h bs last hchain
    exact (reportsAbsorption_of_took htrace hsize hrecent hi hchain hquiet htook hreport).mp h
  · intro h
    obtain ⟨bs, last, hchain⟩ := exists_burstChain trace i
    exact (reportsAbsorption_of_took htrace hsize hrecent hi hchain hquiet htook hreport).mpr
      (h bs last hchain)

theorem reportsAbsorption_iff (hready : q.bufferActive = true → q.ready = true) :
    ReportsAbsorption q trace ↔ JoinsBurst q trace := by
  by_cases hnew : ∃ i, FirstNewReTx q trace i
  · obtain ⟨i, hi⟩ := hnew
    cases hactive : q.bufferActive with
    | false =>
      have hreach : ReachesEntry q trace i := fun h => absurd (hactive.symm.trans h) (by decide)
      refine reportsAbsorption_iff_of_took htrace hsize hrecent hi hreach ?_
        (tookReTx_takeReTx hactive hi.lt_size hi.reTx) ?_ ?_
      · intro k hk
        have hk := List.mem_range.mp hk
        cases hreTx : trace.reTx k with
        | true =>
          refine Or.inl ?_
          rw [skipsEntry_iff_not_newer htrace hsize hrecent (hk.trans hi.lt_size)]
          exact hi.old k hk hreTx
        | false => exact Or.inr ⟨hreTx, fun h => absurd (hactive.symm.trans h.1) (by decide)⟩
      · intro h
        exact absurd (hactive.symm.trans h.2.1) (by decide)
      · intro h
        exact absurd (hactive.symm.trans h) (by decide)
    | true =>
      have hready := hready hactive
      by_cases hreach : ReachesEntry q trace i
      · cases hburst : ngscopeReTxIsNewBurst trace i with
        | true =>
          apply iff_of_false
            (not_reportsAbsorption_of_new htrace hsize hrecent hactive hready hi hreach hburst)
          intro h
          have hold := (isNewBurst_eq_false_iff hi.lt_size).mpr ((h i hi hreach).1 hactive)
          exact absurd (hburst.symm.trans hold) (by decide)
        | false =>
          have htake : takeReTx q trace i = setReTxTtiInBurst q trace i := by
            rw [takeReTx, if_pos hactive, if_neg (by simp [hburst])]
          refine reportsAbsorption_iff_of_took htrace hsize hrecent hi hreach
            (quietEntry_of_reached htrace hsize hrecent hactive hready hi hreach) ?_ ?_ ?_
          · rw [htake]
            exact ⟨⟨rfl, hready, hi.lt_size, rfl⟩, hi.reTx, rfl⟩
          · intro h
            exact absurd (hburst.symm.trans h.2.2) (by decide)
          · intro _
            exact (isNewBurst_eq_false_iff hi.lt_size).mp hburst
      · apply iff_of_true
          (reportsAbsorption_of_unreached htrace hsize hrecent hactive hready hi hreach)
        intro j hj hreach'
        rw [hj.unique hi] at hreach'
        exact absurd hreach' hreach
  · apply iff_of_true (reportsAbsorption_of_none htrace hsize hrecent hnew)
    intro i hi
    exact absurd ⟨i, hi⟩ hnew

end

/-- In every state that the buffer can reach the result of an update is right exactly when the
first new retransmission it gets to joins the burst, and none follows nine TTIs behind its chain. -/
theorem update_reTx_buf_result_iff (as : List BufAction) {trace : NgscopeReTxCa} {tail : ℕ}
    (htrace : trace.Contiguous tail) (hsize : trace.size < 5120)
    (hrecent : RecentLast (as.foldl bufStep ngscopeReTxInitBuf) trace) :
    ReportsAbsorption (as.foldl bufStep ngscopeReTxInitBuf) trace ↔
      JoinsBurst (as.foldl bufStep ngscopeReTxInitBuf) trace :=
  reportsAbsorption_iff htrace hsize hrecent
    (consistent_foldl_bufStep as consistent_initBuf).ready_of_active

/-- Two retransmissions nine TTIs apart. -/
def nineApart : NgscopeReTxCa where
  reTx := fun k => k = 5 ∨ k = 14
  tti := fun k => UInt16.ofNat (100+k)
  tbs := fun _ => 1000
  rxTUs := fun k => UInt64.ofNat (1000*k)
  size := 20

theorem contiguous_nineApart : nineApart.Contiguous 100 := by
  unfold NgscopeReTxCa.Contiguous IsTtiOf
  decide

/-- The first one has been taken from an earlier trace. -/
def tookFirst : List BufAction := [.update (nineApart.slice 0 10)]

/-- The second one is seven TTIs behind the first. -/
def sevenApart : NgscopeReTxCa := { nineApart with reTx := fun k => k = 5 ∨ k = 12 }

/-- Seven TTIs behind it the second one joins the burst, nine TTIs behind it does not. -/
theorem update_reTx_buf_result_iff_sevenApart :
    ReportsAbsorption (tookFirst.foldl bufStep ngscopeReTxInitBuf) sevenApart ∧
      ¬ ReportsAbsorption (tookFirst.foldl bufStep ngscopeReTxInitBuf) nineApart := by
  have hrecent : RecentLast (tookFirst.foldl bufStep ngscopeReTxInitBuf) nineApart := by
    intro _ _
    decide +kernel
  refine ⟨?_, ?_⟩
  · have hiff := @update_reTx_buf_result_iff tookFirst sevenApart 100 contiguous_nineApart
      (by decide) hrecent
    have hfirst : FirstNewReTx (tookFirst.foldl bufStep ngscopeReTxInitBuf) sevenApart 12 := by
      refine ⟨by decide, rfl, ?_, ?_⟩ <;> unfold NewerThanLast <;> decide +kernel
    rw [hiff]
    intro i hi _
    rw [hi.unique hfirst]
    refine ⟨fun _ => ⟨5, by decide, by decide, rfl⟩, fun bs last hchain hlt => ?_⟩
    -- the chain begins at 12, so it is followed by nothing
    have hle := hchain.le_last
    have hsize : last+9 < 20 := hlt
    omega
  · have hiff := @update_reTx_buf_result_iff tookFirst nineApart 100 contiguous_nineApart
      (by decide) hrecent
    have hfirst : FirstNewReTx (tookFirst.foldl bufStep ngscopeReTxInitBuf) nineApart 14 := by
      refine ⟨by decide, rfl, ?_, ?_⟩ <;> unfold NewerThanLast <;> decide +kernel
    have hreaches : ReachesEntry (tookFirst.foldl bufStep ngscopeReTxInitBuf) nineApart 14 := by
      intro _
      exact .inr (by decide +kernel)
    rw [hiff]
    intro hjoins
    obtain ⟨k, hlow, hlt, hreTx⟩ := (hjoins 14 hfirst hreaches).1 (by decide +kernel)
    have hnone : ∀ k < 14, 14-8 ≤ k → nineApart.reTx k = false := by decide
    rw [hnone k hlt hlow] at hreTx
    cases hreTx

/-- The second one is reported as a new burst and not taken, but the result says it was found. -/
theorem nineApart_found_not_absorbed :
    ¬ ReportsAbsorption (tookFirst.foldl bufStep ngscopeReTxInitBuf) nineApart ∧
      updateReTxBuf (tookFirst.foldl bufStep ngscopeReTxInitBuf) nineApart =
        (tookFirst.foldl bufStep ngscopeReTxInitBuf,true) := by
  have hreports : newBurstReports nineApart (List.range nineApart.size)
      (tookFirst.foldl bufStep ngscopeReTxInitBuf) = [14] := by decide +kernel
  refine ⟨?_, by decide +kernel⟩
  intro h
  rw [h.2] at hreports
  cases hreports

end CopaNgscope
