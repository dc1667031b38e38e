import CopaNgscope.MarkovianCCStartUp
import CopaNgscope.RttWindowSample

/-! The minimum RTT that queuing is measured from, and the one that was set from outside: every ACK
takes the minimum from the RTT samples alone. -/
namespace CopaNgscope
open RunInvariant

namespace MarkovianCC

/-- The minimum RTT that an ACK takes the queuing delay from is not above the external one. -/
def KeepsExternal (q : MarkovianCC) : Callback → Prop
  | .onACK _ sentTime adjustUs =>
    ∀ e, q.AckEntry sentTime adjustUs e → 2*numProbePkts-1 ≤ e.numPktsAcked →
      e.minRtt ≤ e.externalMinRtt
  | _ => True

/-- An RTT that is still in the window when the window is updated is not above the external
one. -/
def SeesExternal (q : MarkovianCC) : Callback → Prop
  | .onACK _ sentTime adjustUs =>
    sentTime < q.curTick → 2*numProbePkts-1 ≤ q.numPktsAcked →
      q.currRtt sentTime adjustUs ≤ q.externalMinRtt ∨
        ∃ s ∈ q.rttWindow.minRtt.recent q.rttWindow.historyLength q.curTick,
          s.2 ≤ q.externalMinRtt
  | _ => True

instance decidableSeesExternal (q : MarkovianCC) : ∀ c, Decidable (q.SeesExternal c)
  | .onACK _ sentTime adjustUs =>
    inferInstanceAs (Decidable (sentTime < q.curTick → 2*numProbePkts-1 ≤ q.numPktsAcked →
      q.currRtt sentTime adjustUs ≤ q.externalMinRtt ∨
        ∃ s ∈ q.rttWindow.minRtt.recent q.rttWindow.historyLength q.curTick,
          s.2 ≤ q.externalMinRtt))
  | .init | .setMinRtt _ | .setTimestamp _ | .onPktSent _ | .onTimeout => isTrue trivial

/-- The clock does not go back, and the RTT of an ACK is a `double`. -/
def OnDoubleClock (q : MarkovianCC) : Callback → Prop
  | .setTimestamp now => q.curTick ≤ now
  | .onACK _ sentTime adjustUs => q.currRtt sentTime adjustUs ≤ dblMax
  | _ => True

instance decidableOnDoubleClock (q : MarkovianCC) : ∀ c, Decidable (q.OnDoubleClock c)
  | .setTimestamp now => inferInstanceAs (Decidable (q.curTick ≤ now))
  | .onACK _ sentTime adjustUs =>
    inferInstanceAs (Decidable (q.currRtt sentTime adjustUs ≤ dblMax))
  | .init | .setMinRtt _ | .onPktSent _ | .onTimeout => isTrue trivial

theorem OnDoubleClock.clockForward {q : MarkovianCC} {c : Callback} (h : q.OnDoubleClock c) :
    q.ClockForward c := by
  cases c with
  | setTimestamp now => exact h
  | init | setMinRtt | onPktSent | onACK | onTimeout => trivial

/-- What an ACK brings to `update_intersend_time`. -/
theorem ackEntry_minRtt {q e : MarkovianCC} {sentTime : ℚ} {adjustUs : ℤ}
    (h : q.AckEntry sentTime adjustUs e) :
    e.minRtt = (q.rttWindow.newRttSample (q.currRtt sentTime adjustUs) q.curTick).getMinRtt ∧
      e.externalMinRtt = q.externalMinRtt ∧ e.numPktsAcked = q.numPktsAcked := by
  obtain ⟨f, i, t, rfl⟩ := ackEntry_frame h
  obtain ⟨_, _, _, _, _, hdelta⟩ := updateDelta_frame _ false (q.currRtt sentTime adjustUs)
  rw [hdelta]
  exact ⟨rfl, rfl, rfl⟩

/-- One ACK keeps to the external minimum if and only if the window has seen such an RTT. -/
theorem keepsExternal_iff {q : MarkovianCC} (hq : q.rttWindow.Coherent q.curTick) {c : Callback}
    (hc : q.OnDoubleClock c) : q.KeepsExternal c ↔ q.SeesExternal c := by
  cases c with
  | init | setMinRtt | setTimestamp | onPktSent | onTimeout => exact Iff.rfl
  | onACK ack sentTime adjustUs =>
    have hmin := getMinRtt_newRttSample_iff (p := fun v => v ≤ q.externalMinRtt) hq
      (fun a b hab hb => hab.trans hb) (fun _ => hc)
    constructor
    · intro hkeeps hsent hacked
      obtain ⟨hminRtt, hext, hnum⟩ := ackEntry_minRtt
        ⟨_, ackSample_of_coherent hq hsent adjustUs, rfl⟩
      have hle := hkeeps _ ⟨_, ackSample_of_coherent hq hsent adjustUs, rfl⟩
        (hacked.trans_eq hnum.symm)
      rw [hminRtt, hext] at hle
      exact hmin.mp hle
    · intro hsees e he hacked
      obtain ⟨hminRtt, hext, hnum⟩ := ackEntry_minRtt he
      obtain ⟨a, ha, -⟩ := he
      rw [hminRtt, hext]
      exact hmin.mpr (hsees (ackSample_eq_ok ha).1 (hacked.trans_eq hnum))

theorem run_keepsExternal_iff {q : MarkovianCC} (hq : q.rttWindow.Coherent q.curTick)
    {cs : List Callback} (hcs : RunMeets step OnDoubleClock q cs) :
    RunMeets step KeepsExternal q cs ↔ RunMeets step SeesExternal q cs :=
  runMeets_congr_on step (fun q => q.rttWindow.Coherent q.curTick)
    (fun _ _ hs hc => keepsExternal_iff hs hc)
    (fun _ _ _ hs hc _ ht => coherent_step hs hc.clockForward ht) hq hcs

/-- A string leaves the RTT window as it is. -/
theorem kinds_interpretConfigStr {delta : ℚ} {flowId : ℤ} {config : List Char} {q : MarkovianCC}
    (hq : (markovianCC delta flowId).interpretConfigStr config = .ok q) : q.rttWindow.Kinds := by
  obtain ⟨k, m, d, v, b, c, rfl⟩ := interpretConfigStr_frame hq
  exact ⟨rfl, rfl, rfl, rfl⟩

/-- Whatever follows a minimum RTT from outside, all ACKs keep to it if and only if at each of
them an RTT in the window does. -/
theorem external_min_rtt_kept_iff {delta : ℚ} {flowId : ℤ} {doSs : Bool} {rest : List Char}
    {q s : MarkovianCC}
    (hq : (markovianCC delta flowId).interpretConfigStr (confPrefix doSs true ++ rest) = .ok q)
    {before cs : List Callback} (hbefore : run step q before = some s) (x : ℚ)
    (hcs : RunMeets step OnDoubleClock (s.setMinRtt x) cs) :
    RunMeets step KeepsExternal (s.setMinRtt x) cs ↔
      RunMeets step SeesExternal (s.setMinRtt x) cs := by
  have hkinds := (sameConfig_run hbefore).kinds (kinds_interpretConfigStr hq)
  exact run_keepsExternal_iff (coherent_clear hkinds _) hcs

/-- Copa with `keep_ext_min_rtt:constant_delta:1` in its configuration. -/
def keepExtOne : MarkovianCC :=
  { markovianCC 1 0 with keepExtMinRtt := true, utilityMode := .constantDelta, delta := 1 }

theorem keepExtOne_configured :
    (markovianCC 1 0).interpretConfigStr
      (confPrefix false true ++ ("constant_delta:".toList ++ "1".toList)) = .ok keepExtOne := by
  rw [interpret_constant_delta _ false true (d := 1) (by decide +kernel)]
  rfl

/-- Twenty ACKs of packets that were sent 20 ms before. -/
def twentyAcks : List Callback := .setTimestamp 100 :: List.replicate 20 (.onACK 1 80 0)

theorem external_min_rtt_kept_iff_twentyAcks :
    RunMeets step KeepsExternal (keepExtOne.setMinRtt 20) twentyAcks :=
  (external_min_rtt_kept_iff keepExtOne_configured (run_nil step keepExtOne) 20
    (by decide +kernel)).mpr (by decide +kernel)

/-- An external minimum of 10 ms is lost at the twentieth. -/
theorem external_min_rtt_not_kept :
    ¬ ∀ (delta : ℚ) (flowId : ℤ) (doSs : Bool) (rest : List Char) (q s : MarkovianCC)
      (before cs : List Callback) (x : ℚ),
      (markovianCC delta flowId).interpretConfigStr (confPrefix doSs true ++ rest) = .ok q →
      run step q before = some s → RunMeets step OnDoubleClock (s.setMinRtt x) cs →
      RunMeets step KeepsExternal (s.setMinRtt x) cs := by
  intro hall
  have hclock : RunMeets step OnDoubleClock (keepExtOne.setMinRtt 10) twentyAcks := by
    decide +kernel
  have hkeeps := hall 1 0 false _ keepExtOne keepExtOne [] twentyAcks 10 keepExtOne_configured rfl
    hclock
  have hcoherent : (keepExtOne.setMinRtt 10).rttWindow.Coherent (keepExtOne.setMinRtt 10).curTick :=
    coherent_clear (kinds_interpretConfigStr keepExtOne_configured) _
  have hsees := (run_keepsExternal_iff hcoherent hclock).mp hkeeps
  have hnot : ¬ RunMeets step SeesExternal (keepExtOne.setMinRtt 10) twentyAcks := by
    decide +kernel
  exact hnot hsees

end MarkovianCC

end CopaNgscope
