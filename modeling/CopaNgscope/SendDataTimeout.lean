import Mathlib.Tactic.Linarith
import Mathlib.Tactic.Positivity
import CopaNgscope.RunInvariant
import CopaNgscope.SendData

/-! How long `CTCP::send_data` waits for an ACK. A negative timeout is an infinite wait. -/
namespace CopaNgscope
open RunInvariant

/-- The reading of the clock that an action comes with. -/
def SendAction.reading : SendAction → Option ℚ
  | .enter now => some now
  | .transmit _ => none
  | .stopTransmitting _ now => some now
  | .timedOut now => some now
  | .receive _ now => some now
  | .receiveError now => some now
  | .finish now => some now

section
variable {κ : Type*} (cc : CongCtrl κ) (c : FlowConfig)

/-- The loop as a system that takes step after step. -/
def senderStep (s : Sender κ) (a : SendAction) : Option (Sender κ) :=
  (sendStep cc c s a).map SendOutcome.sender

/-- The clock does not go back. -/
def ReadingForward (s : Sender κ) (a : SendAction) : Prop := ∀ now ∈ a.reading, s.curTime ≤ now

/-- A step that leads to a wait gives it a timeout from 0 to 1000. -/
def WaitBounded (s : Sender κ) (a : SendAction) : Prop :=
  ∀ t, senderStep cc c s a = some t → t.phase = .receiving →
    ∃ v, doubleToInt (receiveTimeout cc c t) = some v ∧ 0 ≤ v ∧ v ≤ 1000

/-- What the pacing counts from after the sending loop: the probe is the last packet sent. -/
def pacingStart (s : Sender κ) : ℚ := if Hopeless cc c s then s.curTime else s.lastSendTime

/-- Before a wait the clock is read less than a millisecond after the next train is due. With no
window, the last packet left in the first millisecond of the flow. -/
def WaitTimely (s : Sender κ) : SendAction → Prop
  | .stopTransmitting _ now =>
    s.phase = .sending → ¬ MayTransmit cc c s →
      if 0 < cc.getTheWindow s.congctrl then
        now < pacingStart cc c s+cc.getIntersendTime s.congctrl*c.trainLength+1
      else pacingStart cc c s < 1
  | _ => True

instance (s : Sender κ) (a : SendAction) : Decidable (ReadingForward s a) :=
  inferInstanceAs (Decidable (∀ now ∈ a.reading, s.curTime ≤ now))

instance (s : Sender κ) : DecidablePred (WaitTimely cc c s)
  | .stopTransmitting _ now =>
    inferInstanceAs (Decidable (s.phase = .sending → ¬ MayTransmit cc c s →
      if 0 < cc.getTheWindow s.congctrl then
        now < pacingStart cc c s+cc.getIntersendTime s.congctrl*c.trainLength+1
      else pacingStart cc c s < 1))
  | .enter _ | .transmit _ | .timedOut _ | .receive _ _ | .receiveError _ | .finish _ =>
    inferInstanceAs (Decidable True)

/-- What every state of a run satisfies. -/
structure Sender.TimesNonneg (s : Sender κ) : Prop where
  curTime : 0 ≤ s.curTime
  lastSendTime : 0 ≤ s.lastSendTime

variable {cc c}

/-! ### The conversion -/

theorem doubleToInt_mem_iff (x : ℚ) :
    (∃ v, doubleToInt x = some v ∧ 0 ≤ v ∧ v ≤ 1000) ↔ -1 < x ∧ x < 1001 := by
  unfold doubleToInt
  constructor
  · rintro ⟨v, hv, h0, h1000⟩
    obtain ⟨-, heq⟩ := Option.ite_none_right_eq_some.mp hv
    obtain rfl := Option.some.inj heq
    split_ifs at h0 h1000 with hx
    · exact ⟨by linarith, (Int.floor_lt (z := 1001)).mp (by omega)⟩
    · -- the rounding goes up to 0
      have hneg : (-1 : ℤ) < ⌈x⌉ := by omega
      rw [Int.lt_ceil] at hneg
      exact ⟨by exact_mod_cast hneg, by linarith⟩
  · rintro ⟨hlow, hhigh⟩
    by_cases hx : 0 ≤ x
    · have h0 : 0 ≤ ⌊x⌋ := Int.floor_nonneg.mpr hx
      have h1000 : ⌊x⌋ < 1001 := Int.floor_lt.mpr hhigh
      refine ⟨⌊x⌋, ?_, h0, by omega⟩
      rw [if_pos hx, if_pos (by omega)]
    · -- a timeout that is late by less than a millisecond is cut to 0
      have hceil : ⌈x⌉ = 0 := Int.ceil_eq_zero_iff.mpr ⟨hlow, le_of_not_ge hx⟩
      refine ⟨0, ?_, le_refl _, by norm_num⟩
      rw [if_neg hx, hceil]
      rfl

theorem receiveTimeout_bounds_iff {s : Sender κ} (hs : 0 ≤ s.lastSendTime) :
    (-1 < receiveTimeout cc c s ∧ receiveTimeout cc c s < 1001) ↔
      if 0 < cc.getTheWindow s.congctrl then
        s.curTime < s.lastSendTime+cc.getIntersendTime s.congctrl*c.trainLength+1
      else s.lastSendTime < 1 := by
  unfold receiveTimeout
  split_ifs with hwindow
  · rw [lt_min_iff, min_lt_iff]
    constructor
    · rintro ⟨⟨-, hlate⟩, -⟩
      linarith
    · intro hlate
      exact ⟨⟨by norm_num, by linarith⟩, Or.inl (by norm_num)⟩
  · constructor
    · rintro ⟨-, hhigh⟩
      linarith
    · intro hearly
      exact ⟨by linarith, by linarith⟩

/-! ### The times -/

theorem takeAck_times {s : Sender κ} {r : SendOutcome κ} {now : ℚ}
    (hr : takeAck cc c s now = some r) :
    (r.sender.curTime = s.curTime ∨ r.sender.curTime ∈ some now) ∧
      r.sender.lastSendTime = s.lastSendTime ∧ r.sender.phase ≠ .receiving := by
  by_cases hown : c.Own s.buf
  · have hids : ¬ (s.buf.srcId ≠ c.srcId ∨ s.buf.flowId ≠ c.flowId) := by
      rw [not_or, not_not, not_not]
      exact hown
    rw [takeAck, if_neg hids] at hr
    extract_lets call t at hr
    obtain ⟨congctrl, _, rfl⟩ := Option.map_eq_some_iff.mp hr
    obtain ⟨e, k, ht⟩ := estimateLinkRate_frame cc c
      { s with curTime := now, lastAckTime := now } now
    have hcur := congrArg Sender.curTime ht
    have hlast := congrArg Sender.lastSendTime ht
    exact ⟨Or.inr (congrArg some hcur.symm), hlast, SendPhase.noConfusion⟩
  · rw [takeAck_of_not_own hown] at hr
    cases hr
    exact ⟨Or.inl rfl, rfl, SendPhase.noConfusion⟩

theorem enterLoop_times {s t : Sender κ} {now : ℚ} (h : enterLoop cc c s now = some t) :
    t.curTime = now ∧ (t.lastSendTime = s.lastSendTime ∨ t.lastSendTime = now) ∧
      t.phase ≠ .receiving := by
  rw [enterLoop] at h
  split_ifs at h
  · obtain ⟨congctrl, _, rfl⟩ := Option.map_eq_some_iff.mp h
    exact ⟨rfl, Or.inr rfl, SendPhase.noConfusion⟩
  · cases h
    exact ⟨rfl, Or.inl rfl, SendPhase.noConfusion⟩
  · cases h
    exact ⟨rfl, Or.inl rfl, SendPhase.noConfusion⟩

/-- The state in which the loop waits. -/
theorem senderStep_stopTransmitting {s t : Sender κ} {txTimestamp : UInt64} {now : ℚ}
    (ht : senderStep cc c s (.stopTransmitting txTimestamp now) = some t) :
    (s.phase = .sending ∧ ¬ MayTransmit cc c s) ∧ t.curTime = now ∧
      t.lastSendTime = pacingStart cc c s ∧ t.congctrl = s.congctrl := by
  obtain ⟨r, hr, rfl⟩ := Option.map_eq_some_iff.mp ht
  rw [sendStep] at hr
  unfold pacingStart
  split_ifs at hr ⊢ with hhopeless hstop hstop
  · cases hr
    exact ⟨hstop, rfl, rfl, rfl⟩
  · cases hr
    exact ⟨hstop, rfl, rfl, rfl⟩

theorem senderStep_stopTransmitting_defined {s : Sender κ} (hphase : s.phase = .sending)
    (hstop : ¬ MayTransmit cc c s) (txTimestamp : UInt64) (now : ℚ) :
    ∃ t, senderStep cc c s (.stopTransmitting txTimestamp now) = some t ∧
      t.phase = .receiving := by
  rw [senderStep, sendStep, if_pos ⟨hphase, hstop⟩]
  split_ifs
  · exact ⟨_, rfl, rfl⟩
  · exact ⟨_, rfl, rfl⟩

/-- Any other step does not lead to a wait, and sets the times to readings of the clock or adds
the pacing interval. -/
theorem senderStep_times {s t : Sender κ} {a : SendAction}
    (ha : ∀ txTimestamp now, a ≠ .stopTransmitting txTimestamp now)
    (ht : senderStep cc c s a = some t) :
    (t.curTime = s.curTime ∨ t.curTime ∈ a.reading) ∧
      (t.lastSendTime = s.lastSendTime ∨
        t.lastSendTime = s.lastSendTime+cc.getIntersendTime s.congctrl ∨
          t.lastSendTime ∈ a.reading) ∧ t.phase ≠ .receiving := by
  obtain ⟨r, hr, rfl⟩ := Option.map_eq_some_iff.mp ht
  cases a with
  | enter now =>
    rw [sendStep] at hr
    split_ifs at hr
    obtain ⟨u, hu, rfl⟩ := Option.map_eq_some_iff.mp hr
    obtain ⟨hcur, hlast, hphase⟩ := enterLoop_times hu
    exact ⟨Or.inr (congrArg some hcur.symm),
      hlast.imp_right (fun h => Or.inr (congrArg some h.symm)), hphase⟩
  | transmit txTimestamp =>
    rw [sendStep] at hr
    split_ifs at hr with hsend
    cases hr
    refine ⟨Or.inl rfl, Or.inr (Or.inl rfl), fun hphase => ?_⟩
    exact SendPhase.noConfusion (hsend.1.symm.trans hphase)
  | stopTransmitting txTimestamp now => exact absurd rfl (ha txTimestamp now)
  | timedOut now =>
    rw [sendStep] at hr
    split_ifs at hr
    cases hr
    exact ⟨Or.inr rfl, Or.inl rfl, SendPhase.noConfusion⟩
  | receive header now =>
    rw [sendStep] at hr
    split_ifs at hr
    obtain ⟨hcur, hlast, hphase⟩ := takeAck_times hr
    exact ⟨hcur, Or.inl hlast, hphase⟩
  | receiveError now =>
    rw [sendStep] at hr
    split_ifs at hr
    obtain ⟨hcur, hlast, hphase⟩ := takeAck_times hr
    exact ⟨hcur, Or.inl hlast, hphase⟩
  | finish now =>
    rw [sendStep] at hr
    split_ifs at hr
    cases hr
    exact ⟨Or.inr rfl, Or.inl rfl, SendPhase.noConfusion⟩

theorem pacingStart_nonneg {s : Sender κ} (hs : s.TimesNonneg) : 0 ≤ pacingStart cc c s := by
  unfold pacingStart
  split_ifs
  · exact hs.curTime
  · exact hs.lastSendTime

/-- The readings start at 0 with the flow, and pacing only adds to them. -/
theorem timesNonneg_step (hpacing : ∀ k, 0 ≤ cc.getIntersendTime k) {s t : Sender κ}
    {a : SendAction} (hs : s.TimesNonneg) (hclock : ReadingForward s a)
    (ht : senderStep cc c s a = some t) : t.TimesNonneg := by
  have hread : ∀ now ∈ a.reading, 0 ≤ now := fun now hnow => hs.curTime.trans (hclock now hnow)
  by_cases ha : ∃ txTimestamp now, a = .stopTransmitting txTimestamp now
  · obtain ⟨txTimestamp, now, rfl⟩ := ha
    obtain ⟨-, hcur, hlast, -⟩ := senderStep_stopTransmitting ht
    exact ⟨hcur ▸ hread now rfl, hlast ▸ pacingStart_nonneg hs⟩
  · have ha' : ∀ txTimestamp now, a ≠ .stopTransmitting txTimestamp now :=
      fun txTimestamp now heq => ha ⟨txTimestamp, now, heq⟩
    obtain ⟨hcur, hlast, -⟩ := senderStep_times ha' ht
    constructor
    · obtain heq | hnow := hcur
      · exact heq ▸ hs.curTime
      · exact hread _ hnow
    · obtain heq | heq | hnow := hlast
      · exact heq ▸ hs.lastSendTime
      · exact heq ▸ add_nonneg hs.lastSendTime (hpacing s.congctrl)
      · exact hread _ hnow

/-- The timeout of a wait is right if and only if the clock is read in time. -/
theorem waitBounded_iff {s : Sender κ} (hs : s.TimesNonneg) (a : SendAction) :
    WaitBounded cc c s a ↔ WaitTimely cc c s a := by
  by_cases ha : ∃ txTimestamp now, a = .stopTransmitting txTimestamp now
  · obtain ⟨txTimestamp, now, rfl⟩ := ha
    have htimeout : ∀ t, senderStep cc c s (.stopTransmitting txTimestamp now) = some t →
        ((∃ v, doubleToInt (receiveTimeout cc c t) = some v ∧ 0 ≤ v ∧ v ≤ 1000) ↔
          if 0 < cc.getTheWindow s.congctrl then
            now < pacingStart cc c s+cc.getIntersendTime s.congctrl*c.trainLength+1
          else pacingStart cc c s < 1) := by
      intro t ht
      obtain ⟨-, hcur, hlast, hcongctrl⟩ := senderStep_stopTransmitting ht
      have hnonneg : 0 ≤ t.lastSendTime := hlast ▸ pacingStart_nonneg hs
      rw [doubleToInt_mem_iff, receiveTimeout_bounds_iff hnonneg, hcur, hlast, hcongctrl]
    constructor
    · intro hbounded hphase hstop
      obtain ⟨t, ht, hwait⟩ :=
        senderStep_stopTransmitting_defined hphase hstop txTimestamp now
      exact (htimeout t ht).mp (hbounded t ht hwait)
    · intro htimely t ht _
      obtain ⟨⟨hphase, hstop⟩, -⟩ := senderStep_stopTransmitting ht
      exact (htimeout t ht).mpr (htimely hphase hstop)
  · have ha' : ∀ txTimestamp now, a ≠ .stopTransmitting txTimestamp now :=
      fun txTimestamp now heq => ha ⟨txTimestamp, now, heq⟩
    have hbounded : WaitBounded cc c s a :=
      fun t ht hphase => absurd hphase (senderStep_times ha' ht).2.2
    refine iff_of_true hbounded ?_
    cases a with
    | stopTransmitting txTimestamp now => exact absurd rfl (ha' txTimestamp now)
    | enter | transmit | timedOut | receive | receiveError | finish => trivial

end

/-- Copa's window and pacing interval before the first ACK. -/
def beforeFirstAck : CongCtrl Unit where
  init := some
  close := id
  setTimestamp := fun k _ => k
  getTheWindow := fun _ => 10
  getIntersendTime := fun _ => 0
  getTimeout := fun _ => 1000
  onPktSent := fun k _ => k
  onACK := fun k _ => some k
  onTimeout := id
  onLinkRateMeasurement := fun k _ => k

def oneSecondFlow : FlowConfig := ⟨1000, false, 1, 7, 1⟩

def firstSender : Sender Unit :=
  ⟨(), 0, -1, 0, 0, 0, 0, 0, 0, ⟨0, 0, 0, 0, 0, 0, 0⟩, .head⟩

/-- Five windows of packets, and the probe. -/
def fiveWindows (now : ℚ) : List SendAction :=
  .enter 0 :: List.replicate 50 (.transmit 100) ++ [.stopTransmitting 110 now]

end CopaNgscope
