import CopaNgscope.FlowNetwork

/-! Which ACKs reach the congestion controller. The filter of `CTCP::send_data` looks at the ids
only, and `copa_rx_fix.cc` builds its keep-alives in a buffer that holds those of the last
packet. -/
namespace CopaNgscope
open RunInvariant

section
variable {κ : Type*} {cc : CongCtrl κ} {c : FlowConfig}

/-- The flow starts: the headers that are left on the network and in the receiver are those of
other flows. -/
structure FlowStart (cc : CongCtrl κ) (c : FlowConfig) (f : Flow κ) : Prop where
  sender : ∃ congctrl buf start now, senderInit cc congctrl buf start now = some f.sender
  sent : f.sent = []
  control : f.control = []
  headers : ∀ h ∈ f.headers, ¬ c.Own h

/-- Every header with the ids of the flow goes back to a data packet, or to a probe, filler or
keep-alive. -/
structure FlowInv (c : FlowConfig) (f : Flow κ) : Prop where
  seqNum_nonneg : 0 ≤ f.sender.seqNum
  sent : ∀ p ∈ f.sent, 0 ≤ p.seqNum ∧ p.seqNum < f.sender.seqNum
  control : ∀ p ∈ f.control, p.seqNum < 0
  headers : ∀ h ∈ f.headers, c.Own h → ∃ p, (p ∈ f.sent ∨ p ∈ f.control) ∧ EchoOf p h

theorem flowInv_of_start {f : Flow κ} (h : FlowStart cc c f) : FlowInv c f := by
  obtain ⟨congctrl, buf, start, now, hinit⟩ := h.sender
  obtain ⟨k, _, hsender⟩ := Option.map_eq_some_iff.mp hinit
  have hseq : f.sender.seqNum = 0 := by rw [← hsender]
  refine ⟨hseq.ge, ?_, ?_, fun x hx hown => absurd hown (h.headers x hx)⟩
  · rw [h.sent]
    exact fun p hp => absurd hp List.not_mem_nil
  · rw [h.control]
    exact fun p hp => absurd hp List.not_mem_nil

theorem FlowStepSpec.sent_subset {f f' : Flow κ} (h : FlowStepSpec f f') : f.sent ⊆ f'.sent := by
  rcases h.sent with ⟨hsame, _⟩ | ⟨p, hnew, _⟩
  · exact hsame ▸ List.Subset.refl _
  · exact hnew ▸ List.subset_append_left _ _

theorem FlowStepSpec.control_subset {f f' : Flow κ} (h : FlowStepSpec f f') :
    f.control ⊆ f'.control := by
  obtain ⟨ps, hnew, _⟩ := h.control
  exact hnew ▸ List.subset_append_left _ _

theorem flowInv_step {f f' : Flow κ} (h : FlowInv c f) (hs : FlowStepSpec f f') :
    FlowInv c f' := by
  refine ⟨?_, ?_, ?_, fun k hk hown => ?_⟩
  · have hnonneg := h.seqNum_nonneg
    rcases hs.sent with ⟨_, hseq⟩ | ⟨p, _, _, hseq⟩
    · exact hseq ▸ hnonneg
    · omega
  · intro p hp
    rcases hs.sent with ⟨hsame, hseq⟩ | ⟨q, hnew, hq, hseq⟩
    · rw [hsame] at hp
      rw [hseq]
      exact h.sent p hp
    · rw [hnew] at hp
      rw [hseq]
      rcases List.mem_append.mp hp with hold | hlast
      · obtain ⟨hpos, hlt⟩ := h.sent p hold
        exact ⟨hpos, hlt.trans (Int.lt_succ _)⟩
      · rw [List.mem_singleton.mp hlast, hq]
        exact ⟨h.seqNum_nonneg, Int.lt_succ _⟩
  · intro p hp
    obtain ⟨ps, hnew, hneg⟩ := hs.control
    rw [hnew] at hp
    rcases List.mem_append.mp hp with hold | hlast
    · exact h.control p hold
    · exact (hneg p hlast).1
  · rcases hs.headers k hk with ⟨x, hx, hecho⟩ | hnew
    · obtain ⟨p, hp, hpx⟩ := h.headers x hx (hecho.own hown)
      have hp' := hp.imp (fun hmem => hs.sent_subset hmem) (fun hmem => hs.control_subset hmem)
      exact ⟨p, hp', hpx.trans hecho⟩
    · exact ⟨k, hnew, EchoOf.rfl⟩

/-- What the controller may be told: the echo, off the network, of a packet that was sent. A
keep-alive changes neither the controller nor the time of the last ACK. -/
structure OnlyEchoes (f : Flow κ) (a : FlowAction) (f' : Flow κ) : Prop where
  accepted : ∀ x, f'.accepted = f.accepted ++ [x] → x.header ∈ f.toSender ∧
    0 ≤ x.header.seqNum ∧ x.header.seqNum < f.sender.seqNum ∧ ∃ p ∈ f.sent, EchoOf p x.header
  keepAlive : ∀ header now, a = .sender (.receive header now) → header.seqNum = -1111 →
    f'.accepted = f.accepted ∧ f'.sender.congctrl = f.sender.congctrl ∧
      f'.sender.lastAckTime = f.sender.lastAckTime

/-- What is taken for an ACK, if it has the ids of the flow, came over the network and does not
go back to a probe, filler or keep-alive. -/
def HearsNoControl (c : FlowConfig) (f : Flow κ) : FlowAction → Prop
  | .sender a => ∀ h ∈ f.sender.heard a, c.Own h →
      h ∈ f.toSender ∧ ∀ p ∈ f.control, ¬ EchoOf p h
  | _ => True

instance (f : Flow κ) : ∀ a : FlowAction, Decidable (HearsNoControl c f a)
  | .sender a => inferInstanceAs (Decidable (∀ h ∈ f.sender.heard a, c.Own h →
      h ∈ f.toSender ∧ ∀ p ∈ f.control, ¬ EchoOf p h))
  | .client _ => isTrue trivial
  | .batch _ => isTrue trivial

/-- What is taken for an ACK, if it has the ids of the flow, came over the network. -/
def HearsNetwork (c : FlowConfig) (f : Flow κ) : FlowAction → Prop
  | .sender a => ∀ h ∈ f.sender.heard a, c.Own h → h ∈ f.toSender
  | _ => True

/-- The last header accepted is the one that was heard, and it has the ids of the flow. -/
theorem heard_of_accepted {f : Flow κ} {a : SendAction} {r : SendOutcome κ} {x : AcceptedAck}
    (hr : sendStep cc c f.sender a = some r)
    (hx : (f.afterSender r).accepted = f.accepted ++ [x]) :
    f.sender.heard a = some x.header ∧ c.Own x.header := by
  have hack : r.ack.toList = [x] := List.append_cancel_left hx
  cases hheard : f.sender.heard a with
  | none =>
    rw [sendStep_of_heard_none hheard hr] at hack
    cases hack
  | some h =>
    have hcases := sendStep_heard hheard hr
    split_ifs at hcases with hown
    · rw [hcases] at hack
      cases hack
      exact ⟨rfl, hown⟩
    · rw [hcases.1] at hack
      cases hack

/-- What is taken for an ACK and is no control packet goes back to a data packet. -/
theorem FlowInv.heard_data {f : Flow κ} {a : SendAction} {x : TCPHeader} (hinv : FlowInv c f)
    (hno : HearsNoControl c f (.sender a)) (hx : f.sender.heard a = some x) (hown : c.Own x) :
    x ∈ f.toSender ∧ 0 ≤ x.seqNum ∧ x.seqNum < f.sender.seqNum ∧ ∃ p ∈ f.sent, EchoOf p x := by
  obtain ⟨hnet, hcontrol⟩ := hno x hx hown
  have hmem : x ∈ f.headers := Flow.mem_headers.mpr (Or.inr (Or.inl hnet))
  obtain ⟨p, hp | hp, hecho⟩ := hinv.headers x hmem hown
  · obtain ⟨hpos, hlt⟩ := hinv.sent p hp
    rw [← hecho.seqNum] at hpos hlt
    exact ⟨hnet, hpos, hlt, p, hp, hecho⟩
  · exact absurd hecho (hcontrol p hp)

theorem FlowInv.onlyEchoes {f : Flow κ} {a : SendAction} {r : SendOutcome κ}
    (hinv : FlowInv c f) (hr : sendStep cc c f.sender a = some r)
    (hno : HearsNoControl c f (.sender a)) :
    OnlyEchoes f (.sender a) (f.afterSender r) := by
  constructor
  · intro x hx
    obtain ⟨hheard, hown⟩ := heard_of_accepted hr hx
    exact hinv.heard_data hno hheard hown
  · intro header now ha hseq
    obtain rfl : a = .receive header now := FlowAction.sender.inj ha
    -- a data packet has no negative number, so the ids are not those of the flow
    have hnot : ¬ c.Own header := by
      intro hown
      have hpos := (hinv.heard_data hno rfl hown).2.1
      omega
    have hframe := sendStep_heard rfl hr
    rw [if_neg hnot] at hframe
    obtain ⟨hack, hcongctrl, hlast⟩ := hframe
    refine ⟨?_, hcongctrl, hlast⟩
    rw [Flow.afterSender, hack]
    exact List.append_nil _

theorem FlowInv.hearsNoControl {f : Flow κ} {a : SendAction} {r : SendOutcome κ}
    (hinv : FlowInv c f) (hr : sendStep cc c f.sender a = some r)
    (honly : OnlyEchoes f (.sender a) (f.afterSender r)) : HearsNoControl c f (.sender a) := by
  intro x hx hown
  -- the header is accepted, whatever it is
  have hack := sendStep_heard hx hr
  rw [if_pos hown] at hack
  have hlast : (f.afterSender r).accepted =
      f.accepted ++ [⟨x, ackCall c.srcId c.flowId c.trainLength x⟩] := by
    rw [Flow.afterSender, hack]
    rfl
  obtain ⟨hnet, hnonneg, _⟩ := honly.accepted _ hlast
  refine ⟨hnet, fun p hp hecho => ?_⟩
  have hneg := hinv.control p hp
  rw [← hecho.seqNum] at hneg
  exact absurd hnonneg hneg.not_ge

/-- A step that accepts nothing, and is none of the sender, tells the controller nothing. -/
theorem onlyEchoes_of_not_sender {f f' : Flow κ} {a : FlowAction}
    (hsame : f'.accepted = f.accepted) (ha : ∀ b, a ≠ .sender b) : OnlyEchoes f a f' := by
  constructor
  · intro x hx
    rw [hsame, List.self_eq_append_right] at hx
    exact absurd hx (List.cons_ne_nil x [])
  · intro header now hb
    exact absurd hb (ha _)

/-- One step tells the controller only echoes exactly when it hears no control packet. -/
theorem onlyEchoes_iff {f f' : Flow κ} {a : FlowAction} (hinv : FlowInv c f)
    (h : flowStep cc c f a = some f') : OnlyEchoes f a f' ↔ HearsNoControl c f a := by
  rcases flowStep_cases h with
    ⟨b, r, rfl, hr, rfl⟩ | ⟨b, s, t, rfl, _, _, _, rfl⟩ | ⟨b, s, r, rfl, _, _, _, rfl⟩
  · exact ⟨hinv.hearsNoControl hr, hinv.onlyEchoes hr⟩
  · refine iff_of_true (onlyEchoes_of_not_sender rfl ?_) trivial
    intro d hd
    cases hd
  · refine iff_of_true (onlyEchoes_of_not_sender rfl ?_) trivial
    intro d hd
    cases hd

/-- In a run of the flow the controller is told of nothing but echoes of its data packets, and
keep-alives go by unnoticed, exactly when no packet with the ids of the flow that is taken for an
ACK goes back to a probe, filler or keep-alive, or was not received at all. -/
theorem flow_hears_only_echoes_iff {f f' : Flow κ} {actions : List FlowAction}
    (hstart : FlowStart cc c f) (hrun : run (flowStep cc c) f actions = some f') :
    RunShows (flowStep cc c) OnlyEchoes f actions ↔
      RunMeets (flowStep cc c) (HearsNoControl c) f actions := by
  refine runShows_iff_runMeets (flowStep cc c) (fun g a => ∃ g', flowStep cc c g a = some g')
    (HearsNoControl c) OnlyEchoes (FlowInv c) ?_ ?_ actions f (flowInv_of_start hstart)
    (runMeets_defined (flowStep cc c) hrun)
  · intro g a hinv hdefined
    obtain ⟨g', hg⟩ := hdefined
    constructor
    · intro hshows
      obtain ⟨t, ht, honly⟩ := hshows
      exact (onlyEchoes_iff hinv ht).mp honly
    · intro hok
      exact ⟨g', hg, (onlyEchoes_iff hinv hg).mpr hok⟩
  · exact fun g a g' hinv _ hg _ => flowInv_step hinv (flowStep_spec hg)

/-! ### The packet client -/

theorem receiver_client_step {f f' : Flow κ} {a : FlowAction}
    (h : flowStep cc c f a = some f') (hf : ∃ s, f.receiver = .client s) :
    ∃ s, f'.receiver = .client s := by
  obtain ⟨s, hs⟩ := hf
  rcases flowStep_cases h with
    ⟨b, r, _, _, rfl⟩ | ⟨b, u, t, _, _, _, _, rfl⟩ | ⟨b, u, r, _, hu, _, _, rfl⟩
  · exact ⟨s, hs⟩
  · exact ⟨t, rfl⟩
  · rw [hs] at hu
    cases hu

/-- The client sets the ids of its fillers, so that the condition is met as long as what is taken
for an ACK was received. -/
theorem client_hearsNoControl_iff {f : Flow κ} {s : ClientState} {actions : List FlowAction}
    (hstart : FlowStart cc c f) (hs : f.receiver = .client s) (hflow : c.flowId ≠ -1)
    (hids : ¬ (c.srcId = 0 ∧ c.flowId = 0)) :
    RunMeets (flowStep cc c) (HearsNoControl c) f actions ↔
      RunMeets (flowStep cc c) (HearsNetwork c) f actions := by
  refine runMeets_congr (flowStep cc c)
    (fun g => (∃ s, g.receiver = .client s) ∧ ∀ p ∈ g.control, ¬ c.Own p) ?_ ?_
    ⟨⟨s, hs⟩, ?_⟩
  · intro g a hg
    obtain ⟨_, hno⟩ := hg
    cases a with
    | sender b =>
      refine forall₂_congr (fun h _ => ⟨fun hok hown => (hok hown).1, fun hok hown => ?_⟩)
      exact ⟨hok hown, fun p hp hecho => hno p hp (hecho.own hown)⟩
    | client b => exact Iff.rfl
    | batch b => exact Iff.rfl
  · intro g a g' hinv _ hstep
    obtain ⟨hg, hno⟩ := hinv
    refine ⟨receiver_client_step hstep hg, fun p hp hown => ?_⟩
    obtain ⟨ps, hnew, hids'⟩ := (flowStep_spec hstep).control
    rw [hnew] at hp
    rcases List.mem_append.mp hp with hold | hlast
    · exact hno p hold hown
    · rcases (hids' p hlast).2 with hp | ⟨hsrc, hp⟩ | ⟨t, ht, _⟩
      · exact hflow (hown.2.symm.trans hp)
      · exact hids ⟨hown.1.symm.trans hsrc, hown.2.symm.trans hp⟩
      · obtain ⟨u, hu⟩ := hg
        rw [hu] at ht
        cases ht
  · rw [hstart.control]
    exact fun p hp => absurd hp List.not_mem_nil

end

/-! ### An idle millisecond -/

/-- A controller that lets one packet out at a time. -/
def onePacket : CongCtrl Unit where
  init := fun _ => some ()
  close := fun _ => ()
  setTimestamp := fun _ _ => ()
  getTheWindow := fun _ => 1/5
  getIntersendTime := fun _ => 0
  getTimeout := fun _ => 1000
  onPktSent := fun _ _ => ()
  onACK := fun _ _ => some ()
  onTimeout := fun _ => ()
  onLinkRateMeasurement := fun _ _ => ()

/-- One second of sending, source 7, flow 0. -/
def secondFlow : FlowConfig := ⟨1000, false, 0, 7, 1⟩

/-- What the handshake leaves. -/
def handshakeHeader : TCPHeader := ⟨-1, -1, -1, -1, 0, 0, 0⟩

def batchFlow : Flow Unit where
  sender := ⟨(), 0, -1, 0, 0, 0, 0, 0, 0, handshakeHeader, .head⟩
  receiver := .batch ⟨handshakeHeader, []⟩
  toReceiver := []
  toSender := []
  sent := []
  control := []
  accepted := []

/-- The first data packet, as it is sent and as it comes back. -/
def firstPacket : TCPHeader := ⟨0, 0, 7, 1, 100, 0, 0⟩

def firstEcho : TCPHeader := batchEcho firstPacket 3 200

/-- The first packet is sent and echoed. -/
def echoActions : List FlowAction :=
  [.sender (.enter 1), .sender (.transmit 100), .sender (.stopTransmitting 110 2),
    .batch (.receive firstPacket), .batch (.endBatch (fun _ => 3) 200)]

theorem flowStart_batchFlow : FlowStart onePacket secondFlow batchFlow where
  sender := ⟨(), handshakeHeader, 0, 0, rfl⟩
  sent := rfl
  control := rfl
  headers := by decide

/-- The sender takes the echo for the ACK. -/
theorem flow_hears_first_echo :
    RunShows (flowStep onePacket secondFlow) OnlyEchoes batchFlow
      (echoActions ++ [.sender (.receive firstEcho 4)]) := by
  have hdefined : (run (flowStep onePacket secondFlow) batchFlow
      (echoActions ++ [.sender (.receive firstEcho 4)])).isSome = true := by
    decide +kernel
  obtain ⟨f', hrun⟩ := Option.isSome_iff_exists.mp hdefined
  exact (flow_hears_only_echoes_iff flowStart_batchFlow hrun).mpr (by decide +kernel)

/-- The keep-alive of an idle millisecond after it: the buffer still holds the ids. -/
def keepAliveActions : List FlowAction :=
  echoActions ++ [.batch (.endBatch (fun _ => 5) 300)]

def firstKeepAlive : TCPHeader := keepAlive firstEcho 300

/-- The controller gets the ACK -1110 for it. -/
theorem keepAlive_accepted :
    ¬ ∀ (cc : CongCtrl Unit) (c : FlowConfig) (f f' : Flow Unit) (actions : List FlowAction),
      FlowStart cc c f → run (flowStep cc c) f actions = some f' →
      RunShows (flowStep cc c) OnlyEchoes f actions := by
  intro hall
  have hview : (run (flowStep onePacket secondFlow) batchFlow keepAliveActions).bind (fun t =>
      (flowStep onePacket secondFlow t (.sender (.receive firstKeepAlive 6))).map fun u =>
        (t.accepted, u.accepted, t.sender.lastAckTime, u.sender.lastAckTime)) =
      some ([], [⟨firstKeepAlive, some ⟨-1110, 3, 1, 0⟩⟩], 0, 6) := by
    decide +kernel
  obtain ⟨t, ht, hview⟩ := Option.bind_eq_some_iff.mp hview
  obtain ⟨u, hu, hview⟩ := Option.map_eq_some_iff.mp hview
  have hrun : run (flowStep onePacket secondFlow) batchFlow
      (keepAliveActions ++ [.sender (.receive firstKeepAlive 6)]) = some u :=
    (run_concat_eq_some _).mpr ⟨t, ht, hu⟩
  obtain ⟨t', u', ht', hu', honly⟩ :=
    RunShows.last (flowStep onePacket secondFlow) (hall _ _ _ _ _ flowStart_batchFlow hrun)
  obtain rfl : t = t' := Option.some.inj (ht.symm.trans ht')
  obtain rfl : u = u' := Option.some.inj (hu.symm.trans hu')
  have hbefore : t.accepted = [] := congrArg Prod.fst hview
  have hafter : u.accepted = [⟨firstKeepAlive, some ⟨-1110, 3, 1, 0⟩⟩] :=
    congrArg (fun v => v.2.1) hview
  have hlast : u.accepted = t.accepted ++ [⟨firstKeepAlive, some ⟨-1110, 3, 1, 0⟩⟩] := by
    rw [hafter, hbefore, List.nil_append]
  exact absurd (honly.accepted _ hlast).2.1 (by decide)

end CopaNgscope
