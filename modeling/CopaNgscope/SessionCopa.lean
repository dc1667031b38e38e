import CopaNgscope.CopaFlow
import CopaNgscope.Session

/-! A whole session of Copa: the controller that was configured once goes from flow to flow, and
is given the RTT of each handshake. -/
namespace CopaNgscope
open RunInvariant

section
variable {g : SessionConfig} {q : MarkovianCC} {s t : Session MarkovianCC}

/-! ### Steps -/

/-- The clock of a flow moves on while the sender waits. Each flow has a clock of its own. -/
def SessionClock (s : Session MarkovianCC) : SessionAction → Prop
  | .flow a => OnSender ReadingLater s.flow a
  | _ => True

instance (s : Session MarkovianCC) : DecidablePred (SessionClock s)
  | .flow a => inferInstanceAs (Decidable (OnSender ReadingLater s.flow a))
  | .begin _ _ _ _ | .handshake _ | .start _ _ | .next => isTrue trivial

/-- The place in the handshake is that of the action. -/
def HandshakeAction.Fits (h : Handshake) : HandshakeAction → Prop
  | .punch _ => h.phase = .punching
  | .round _ => h.phase = .sending
  | .timedOut | .receive _ _ | .receiveError _ => h.phase = .receiving

/-- The program of the sender is where the action is taken, and what it receives is on the
network. -/
def SessionAction.Fits (g : SessionConfig) (s : Session MarkovianCC) : SessionAction → Prop
  | .begin _ header _ _ => s.stage = .off ∧ header.seqNum = -1 ∧ header.flowId = -1 ∧
      header.srcId = -1 ∧ header.senderTimestamp = -1
  | .handshake a => ∃ h, s.stage = .handshake h ∧ a.Fits h ∧ a.Arrives s.flow.toSender
  | .start _ _ => ∃ h, s.stage = .handshake h ∧ h.phase = .established
  | .flow (.sender a) => s.stage = .sending ∧ a.Fits copa (s.config g) s.flow.sender ∧
      a.Arrives s.flow.toSender
  | .flow _ => False
  | .next => s.stage = .sending ∧ s.flow.sender.phase = .finished

/-- Copa before a flow of the session is as it was configured, after callbacks of the flows
before. -/
structure CopaSessionInv (g : SessionConfig) (q : MarkovianCC) (s : Session MarkovianCC) :
    Prop where
  session : SessionInv g s
  called : ∃ before, run MarkovianCC.step q before = some s.flow.sender.congctrl
  sending : s.stage = .sending → CopaFlowInv (s.config g) s.flow

/-- A step that leaves the sender alone, and does not start a flow. -/
theorem CopaSessionInv.keep (h : CopaSessionInv g q s) (ht : SessionInv g t)
    (hsender : t.flow.sender.congctrl = s.flow.sender.congctrl) (hstage : t.stage ≠ .sending) :
    CopaSessionInv g q t where
  session := ht
  called := by
    rw [hsender]
    exact h.called
  sending := fun hsending => absurd hsending hstage

/-- A step of the flow is a run of the callbacks that it makes. -/
theorem CopaSessionInv.flow (h : CopaSessionInv g q s) (hpos : 1 ≤ g.trainLength)
    (hsrc : 0 < g.srcId) {a : FlowAction} {f : Flow MarkovianCC}
    (hclock : OnSender ReadingLater s.flow a)
    (hf : flowStep copa (s.config g) s.flow a = some f)
    (ht : SessionInv g { s with flow := f }) : CopaSessionInv g q { s with flow := f } := by
  obtain ⟨before, hbefore⟩ := h.called
  have hcallbacks := flow_callbacks ((run_singleton _ _ _).trans hf)
  refine ⟨ht, ⟨_, (run_append_eq_some _).mpr ⟨_, hbefore, hcallbacks⟩⟩, fun hsending => ?_⟩
  have hids : ¬ ((s.config g).srcId = 0 ∧ (s.config g).flowId = 0) :=
    fun hzero => hsrc.ne' hzero.1
  exact copaFlowInv_step (h.sending hsending) hpos hids hclock hf

/-- The controller that a flow starts with: the RTT of the handshake is set if there was one
probe. -/
theorem startFlow_sender {k : Handshake} {startTime now : ℚ}
    (hstart : s.startFlow copa MarkovianCC.setMinRtt k startTime now = some t) :
    ∃ more congctrl, run MarkovianCC.step s.flow.sender.congctrl more = some congctrl ∧
      senderInit copa congctrl dashHeader startTime now = some t.flow.sender := by
  unfold Session.startFlow at hstart
  extract_lets congctrl at hstart
  obtain ⟨sender, hsender, rfl⟩ := Option.map_eq_some_iff.mp hstart
  by_cases hmulti : k.multiSend = true
  · exact ⟨[], congctrl, congrArg some (if_pos hmulti).symm, hsender⟩
  · exact ⟨[.setMinRtt k.rtt], congctrl, congrArg some (if_neg hmulti).symm, hsender⟩

/-- The flow after a handshake starts with Copa as it was configured. -/
theorem CopaSessionInv.start (h : CopaSessionInv g q s) {delta : ℚ} {flowId : ℤ}
    {config : List Char}
    (hconfig : (markovianCC delta flowId).interpretConfigStr config = .ok q)
    (hss : config.take 6 = "do_ss:".toList) (hdash : g.srcId ≠ dashInt) {k : Handshake}
    (hstage : s.stage = .handshake k) {startTime now : ℚ} (ht : SessionInv g t)
    (hstart : s.startFlow copa MarkovianCC.setMinRtt k startTime now = some t) :
    CopaSessionInv g q t := by
  obtain ⟨before, hbefore⟩ := h.called
  obtain ⟨hflow, _, _, _, _, hbuf, _⟩ := flowStart_startFlow h.session hstage hstart
  obtain ⟨more, congctrl, hmore, hsender⟩ := startFlow_sender hstart
  obtain ⟨started, hinit, hstarted⟩ := Option.map_eq_some_iff.mp hsender
  have hcalled : run MarkovianCC.step q (before ++ more) = some congctrl :=
    (run_append_eq_some _).mpr ⟨_, hbefore, hmore⟩
  refine ⟨ht, ⟨before ++ more ++ [.setTimestamp now, .init], ?_⟩, fun _ => ?_⟩
  · rw [run_append_eq_some]
    refine ⟨congctrl, hcalled, ?_⟩
    calc
      run MarkovianCC.step congctrl [.setTimestamp now, .init] = some started := hinit
      _ = some t.flow.sender.congctrl := by rw [← hstarted]
  · have hnot : ¬ (t.config g).Own t.flow.sender.buf := by
      rw [hbuf]
      exact fun hown => hdash hown.1.symm
    exact copaFlowInv_of_start ⟨hflow, hnot, delta, flowId, config, q, before ++ more, congctrl,
      dashHeader, startTime, now, hconfig, hss, hcalled, hsender⟩

/-- A step of the session. -/
theorem copaSessionInv_step {delta : ℚ} {flowId : ℤ} {config : List Char}
    (hconfig : (markovianCC delta flowId).interpretConfigStr config = .ok q)
    (hss : config.take 6 = "do_ss:".toList) (hpos : 1 ≤ g.trainLength) (hsrc : 0 < g.srcId)
    (hdash : g.srcId ≠ dashInt) {a : SessionAction} (h : CopaSessionInv g q s)
    (hclock : SessionClock s a) (ht : sessionStep copa MarkovianCC.setMinRtt g s a = some t) :
    CopaSessionInv g q t := by
  have hsession := sessionInv_step h.session hsrc hdash ht
  cases a with
  | begin onDuration header buf stale =>
    rw [sessionStep] at ht
    split at ht
    · rw [Option.ite_none_right_eq_some] at ht
      cases ht.2
      exact h.keep hsession rfl Stage.noConfusion
    · cases ht
  | handshake b =>
    rw [sessionStep] at ht
    split at ht
    · rw [Option.ite_none_right_eq_some] at ht
      obtain ⟨r, _, rfl⟩ := Option.map_eq_some_iff.mp ht.2
      exact h.keep hsession rfl Stage.noConfusion
    · cases ht
  | start startTime now =>
    rw [sessionStep] at ht
    split at ht
    · rename_i k hstage
      rw [Option.ite_none_right_eq_some] at ht
      exact h.start hconfig hss hdash hstage hsession ht.2
    · cases ht
  | flow b =>
    cases b with
    | sender d =>
      rw [sessionStep] at ht
      split at ht
      · obtain ⟨f, hf, rfl⟩ := Option.map_eq_some_iff.mp ht
        exact h.flow (a := .sender d) hpos hsrc hclock hf hsession
      · cases ht
    | client d =>
      obtain ⟨f, hf, rfl⟩ := Option.map_eq_some_iff.mp ht
      exact h.flow (a := .client d) hpos hsrc hclock hf hsession
    | batch d =>
      obtain ⟨f, hf, rfl⟩ := Option.map_eq_some_iff.mp ht
      exact h.flow (a := .batch d) hpos hsrc hclock hf hsession
  | next =>
    rw [sessionStep] at ht
    split at ht
    · rw [Option.ite_none_right_eq_some] at ht
      cases ht.2
      refine h.keep hsession rfl ?_
      dsimp only
      split_ifs
      · exact Stage.noConfusion
      · exact Stage.noConfusion
    · cases ht

theorem handshakeStep_of_fits {h : Handshake} {a : HandshakeAction} (hfits : a.Fits h) :
    ∃ r, handshakeStep h a = some r := by
  cases a with
  | punch header => exact ⟨_, if_pos hfits⟩
  | round now =>
    have hphase : h.phase = .sending := hfits
    rw [handshakeStep, if_pos hphase]
    split_ifs
    · exact ⟨_, rfl⟩
    · exact ⟨_, rfl⟩
  | timedOut => exact ⟨_, if_pos hfits⟩
  | receive header now => exact ⟨_, if_pos hfits⟩
  | receiveError now => exact ⟨_, if_pos hfits⟩

/-- The action fits, and needs nothing of the network. -/
def HandshakeAction.Unaided (h : Handshake) : HandshakeAction → Prop
  | .punch _ | .receive _ _ | .receiveError _ => False
  | a => a.Fits h

def SessionAction.Unaided (g : SessionConfig) (s : Session MarkovianCC) : SessionAction → Prop
  | .handshake a => ∃ h, s.stage = .handshake h ∧ a.Unaided h
  | .flow (.sender a) => s.stage = .sending ∧ a.Unaided copa (s.config g) s.flow.sender
  | a => a.Fits g s

/-- The program of the sender is not over, does not await the packet that tells it the remote
address, and does not wait for an ACK with a negative timeout. -/
structure Session.GoesOn (g : SessionConfig) (s : Session MarkovianCC) : Prop where
  notEnded : s.stage ≠ .ended
  address : ∀ h, s.stage = .handshake h → h.phase ≠ .punching
  wait : s.stage = .sending → s.flow.sender.phase = .receiving →
    WaitEnds copa (s.config g) s.flow.sender

theorem SessionAction.Unaided.fits {a : SessionAction} (h : a.Unaided g s) : a.Fits g s := by
  cases a with
  | begin onDuration header buf stale | start startTime now | next => exact h
  | handshake b =>
    obtain ⟨k, hstage, hplace⟩ := h
    cases b with
    | punch header | receive header now | receiveError now => exact hplace.elim
    | round now | timedOut => exact ⟨k, hstage, hplace, trivial⟩
  | flow b =>
    cases b with
    | sender d => exact ⟨h.1, h.2.fits.1, h.2.fits.2 _⟩
    | client d | batch d => exact h

/-- The program goes on without the network in these states. -/
theorem exists_session_unaided_iff (s : Session MarkovianCC) :
    (∃ a : SessionAction, a.Unaided g s ∧ SessionClock s a) ↔ s.GoesOn g := by
  constructor
  · rintro ⟨a, ha, hclock⟩
    cases a with
    | begin onDuration header buf stale =>
      obtain ⟨hstage, _⟩ := ha
      exact ⟨by simp [hstage], by simp [hstage], by simp [hstage]⟩
    | handshake b =>
      obtain ⟨k, hstage, hplace⟩ := ha
      refine ⟨by simp [hstage], fun k' hk' => ?_, by simp [hstage]⟩
      cases hstage.symm.trans hk'
      cases b with
      | punch header | receive header now | receiveError now => exact hplace.elim
      | round now | timedOut =>
        have hphase : k.phase = _ := hplace
        rw [hphase]
        decide
    | start startTime now =>
      obtain ⟨k, hstage, hdone⟩ := ha
      refine ⟨by simp [hstage], fun k' hk' => ?_, by simp [hstage]⟩
      cases hstage.symm.trans hk'
      rw [hdone]
      decide
    | flow b =>
      cases b with
      | sender d =>
        obtain ⟨hstage, hplace⟩ := ha
        exact ⟨by simp [hstage], by simp [hstage],
          fun _ => ((exists_unaided_iff s.flow.sender).mp ⟨d, hplace, hclock⟩).2⟩
      | client d | batch d => exact ha.elim
    | next =>
      obtain ⟨hstage, hphase⟩ := ha
      exact ⟨by simp [hstage], by simp [hstage], by simp [hphase]⟩
  · rintro ⟨hopen, haddress, hwait⟩
    cases hplace : s.stage with
    | off =>
      exact ⟨.begin 0 (handshakeProbe 0 0) dashHeader 0, ⟨hplace, rfl, rfl, rfl, rfl⟩, trivial⟩
    | handshake k =>
      cases hphase : k.phase with
      | punching => exact absurd hphase (haddress k hplace)
      | sending => exact ⟨.handshake (.round 0), ⟨k, hplace, hphase⟩, trivial⟩
      | receiving => exact ⟨.handshake .timedOut, ⟨k, hplace, hphase⟩, trivial⟩
      | established => exact ⟨.start 0 0, ⟨k, hplace, hphase⟩, trivial⟩
    | sending =>
      by_cases hphase : s.flow.sender.phase = .finished
      · exact ⟨.next, ⟨hplace, hphase⟩, trivial⟩
      · obtain ⟨b, hb, hlater⟩ := (exists_unaided_iff s.flow.sender).mpr ⟨hphase, hwait hplace⟩
        exact ⟨.flow (.sender b), ⟨hplace, hb⟩, hlater⟩
    | ended => exact absurd hplace hopen

/-! ### Sessions -/

end

/-- Copa with `do_ss:auto:0.5`, before its two flows. -/
def copaTwoFlows : Session MarkovianCC where
  flow := { copaBatchFlow with
    sender := { copaBatchFlow.sender with congctrl := MarkovianCC.autoHalf } }
  stage := .off
  flowId := 0
  flowSize := 0

/-- The first flow starts, and sends packets until it waits, having read the clock at `now`. -/
def firstFlow (now : ℚ) : List SessionAction :=
  firstHandshake ++ .flow (.sender (.enter 7)) ::
    List.replicate 50 (.flow (.sender (.transmit 100))) ++
      [.flow (.sender (.stopTransmitting 101 now))]

end CopaNgscope
