import CopaNgscope.Handshake
import CopaNgscope.SenderPacing

/-! A whole session: `TrafficGenerator::send_data` runs one flow after the other, each with its
handshake, over one network and with one receiver. Flows are told apart by their ids alone. -/
namespace CopaNgscope
open RunInvariant

/-- `memset` fills the buffer of `send_data` with dashes, which are taken for a header when a
receive fails before anything was sent. -/
def dashInt : ℤ := 0x2d2d2d2d

/-- The dashes as a `double`: their exponent and fraction. -/
def dashDouble : ℚ := (2^52+0xd2d2d2d2d2d2d)/2^353

def dashHeader : TCPHeader :=
  ⟨dashInt, dashInt, dashInt, dashDouble, 0x2d2d2d2d2d2d2d2d, dashDouble, dashInt⟩

/-- What stays the same over a session. `num_cycles` is an `unsigned int`. -/
structure SessionConfig where
  srcId : ℤ
  trainLength : ℤ
  byteSwitched : Bool
  numCycles : ℕ
  ipKnown : Bool
  numCycles_lt : numCycles < 2^32

inductive Stage
  | off
  | handshake (h : Handshake)
  | sending
  | ended
deriving DecidableEq

/-- The sender and the counts of `flow` are those of the current flow. -/
structure Session (κ : Type*) where
  flow : Flow κ
  stage : Stage
  flowId : ℕ
  flowSize : ℚ

/-- The time off is over, a step of the handshake, the start of the flow after it, a step of the
sender, a receiver or the network, and the end of the flow. -/
inductive SessionAction
  | begin (onDuration : ℚ) (header buf : TCPHeader) (stale : ℚ)
  | handshake (a : HandshakeAction)
  | start (startTime now : ℚ)
  | flow (a : FlowAction)
  | next

/-- What the handshake receives is on the network. -/
def HandshakeAction.Arrives (toSender : List TCPHeader) : HandshakeAction → Prop
  | .receive header _ => header ∈ toSender
  | _ => True

instance (toSender : List TCPHeader) : DecidablePred (HandshakeAction.Arrives toSender)
  | .receive header _ => inferInstanceAs (Decidable (header ∈ toSender))
  | .punch _ | .round _ | .timedOut | .receiveError _ => isTrue trivial

section
variable {κ : Type*} (cc : CongCtrl κ) (setMinRtt : κ → ℚ → κ) (g : SessionConfig)

/-- The arguments of `send_data`: the flow id is converted to an `int`. -/
def Session.config (s : Session κ) : FlowConfig :=
  ⟨s.flowSize, g.byteSwitched, Int.bmod s.flowId (2^32), g.srcId, g.trainLength⟩

/-- The flow after the handshake; `min_rtt` is set only if there was one probe. -/
def Session.startFlow (s : Session κ) (h : Handshake) (startTime now : ℚ) : Option (Session κ) :=
  let congctrl := if h.multiSend then s.flow.sender.congctrl
    else setMinRtt s.flow.sender.congctrl h.rtt
  (senderInit cc congctrl dashHeader startTime now).map fun sender =>
    { s with
      flow := { s.flow with sender := sender, sent := [], control := [], accepted := [] }
      stage := .sending }

/-- One party takes a step. The receivers do so at any time. -/
def sessionStep (s : Session κ) : SessionAction → Option (Session κ)
  | .begin onDuration header buf stale =>
    match s.stage with
    | .off =>
      -- four fields of the header are set
      if header.seqNum = -1 ∧ header.flowId = -1 ∧ header.srcId = -1 ∧
          header.senderTimestamp = -1 then
        some { s with
          stage := .handshake (handshakeInit header buf g.ipKnown stale)
          flowSize := onDuration }
      else none
    | _ => none
  | .handshake a =>
    match s.stage with
    | .handshake h =>
      if a.Arrives s.flow.toSender then
        (handshakeStep h a).map fun r =>
          { s with
            stage := .handshake r.1
            flow := { s.flow with toReceiver := s.flow.toReceiver ++ r.2 } }
      else none
    | _ => none
  | .start startTime now =>
    match s.stage with
    | .handshake h =>
      if h.phase = .established then s.startFlow cc setMinRtt h startTime now else none
    | _ => none
  | .flow (.sender a) =>
    match s.stage with
    | .sending => (flowStep cc (s.config g) s.flow (.sender a)).map fun f => { s with flow := f }
    | _ => none
  | .flow a => (flowStep cc (s.config g) s.flow a).map fun f => { s with flow := f }
  | .next =>
    match s.stage with
    | .sending =>
      if s.flow.sender.phase = .finished then
        some { s with
          stage := if g.numCycles ≤ s.flowId+1 then .ended else .off
          flowId := s.flowId+1 }
      else none
    | _ => none

/-- The session starts: nothing on the network or in the receiver has its source id. The id is drawn
from 0 to the largest `int`; of these, 0 is the id in an echo to a filler of the packet client, and
`dashInt` is the id in an echo to the dashes. -/
structure SessionStart (s : Session κ) : Prop where
  stage : s.stage = .off
  flowId : s.flowId = 0
  srcId : 0 < g.srcId
  notDashes : g.srcId ≠ dashInt
  headers : ∀ h ∈ s.flow.headers, h.srcId ≠ g.srcId

end

/-! ### Ids -/

/-- Different flows have different ids, which are not that of a probe, as `num_cycles` keeps the
counter from wrapping. -/
theorem bmod_flowId_inj {j k : ℕ} (hj : j < 2^32) (hk : k < 2^32)
    (h : Int.bmod (j:ℤ) (2^32) = Int.bmod (k:ℤ) (2^32)) : j = k := by
  simp only [Int.bmod] at h
  omega

theorem bmod_flowId_ne_neg_one {k : ℕ} (hk : k+1 < 2^32) : Int.bmod (k:ℤ) (2^32) ≠ -1 := by
  simp only [Int.bmod]
  omega

section
variable {κ : Type*} {cc : CongCtrl κ} {setMinRtt : κ → ℚ → κ} {g : SessionConfig}

theorem Session.flowId_config (s : Session κ) :
    (s.config g).flowId = Int.bmod (s.flowId:ℤ) (2^32) := by
  rw [Session.config]

/-- A header of the session is a probe, or one of its first `n` flows. -/
def IdsBelow (g : SessionConfig) (n : ℕ) (h : TCPHeader) : Prop :=
  h.srcId = g.srcId → h.flowId = -1 ∨ ∃ k < n, h.flowId = Int.bmod (k:ℤ) (2^32)

theorem IdsBelow.mono {m n : ℕ} (hmn : m ≤ n) {h : TCPHeader} (hids : IdsBelow g m h) :
    IdsBelow g n h := by
  intro hsrc
  refine (hids hsrc).imp_right (fun hlow => ?_)
  obtain ⟨k, hk, hflow⟩ := hlow
  exact ⟨k, hk.trans_le hmn, hflow⟩

theorem IdsBelow.echo {n : ℕ} {p h : TCPHeader} (hids : IdsBelow g n p) (hecho : EchoOf p h) :
    IdsBelow g n h := by
  intro hsrc
  rw [hecho.flowId]
  exact hids (hecho.srcId.symm.trans hsrc)

/-- A step of the flow with the id `k` adds no other ids. -/
theorem idsBelow_flowStep {c : FlowConfig} {f f' : Flow κ} {a : FlowAction} {k n : ℕ}
    (hk : k < n ∨ ∀ b, a ≠ .sender b) (hsrc : 0 < g.srcId)
    (hflow : c.flowId = Int.bmod (k:ℤ) (2^32)) (h : ∀ x ∈ f.headers, IdsBelow g n x)
    (hsent : ∀ p ∈ f.sent, IdsBelow g n p) (hcontrol : ∀ p ∈ f.control, IdsBelow g n p)
    (hstep : flowStep cc c f a = some f') :
    (∀ x ∈ f'.headers, IdsBelow g n x) ∧ (∀ p ∈ f'.sent, IdsBelow g n p) ∧
      ∀ p ∈ f'.control, IdsBelow g n p := by
  have hspec := flowStep_spec hstep
  -- what the step sends besides echoes
  have hnew : (∀ p ∈ f'.sent, IdsBelow g n p) ∧ ∀ p ∈ f'.control, IdsBelow g n p := by
    rcases flowStep_cases hstep with
      ⟨b, r, rfl, hr, rfl⟩ | ⟨b, s, t, rfl, hs, _, ht, rfl⟩ | ⟨b, s, r, rfl, hs, _, _, rfl⟩
    · have hlt : k < n := hk.resolve_right (fun hno => hno b rfl)
      constructor
      · intro p hp
        rcases List.mem_append.mp hp with hold | hlast
        · exact hsent p hold
        · rcases (sendStep_packets hr).1 with ⟨hnil, _⟩ | ⟨txTimestamp, hone, _⟩
          · rw [hnil] at hlast
            exact absurd hlast List.not_mem_nil
          · rw [hone] at hlast
            rw [List.mem_singleton.mp hlast]
            exact fun _ => Or.inr ⟨k, hlt, hflow⟩
      · intro p hp
        rcases List.mem_append.mp hp with hold | hlast
        · exact hcontrol p hold
        · exact fun _ => Or.inl ((sendStep_packets hr).2 p hlast).2
    · refine ⟨hsent, fun p hp => ?_⟩
      rcases List.mem_append.mp hp with hold | hlast
      · exact hcontrol p hold
      · obtain ⟨e, he, hfilled⟩ := List.mem_filterMap.mp hlast
        have hsentHeader : e.sentHeader = some p := by
          cases e <;> first | exact hfilled | cases hfilled
        rcases newEvents_cases ht he hsentHeader with
          ⟨x, _, currTUs, rfl⟩ | ⟨stale, currTUs, rfl⟩
        · cases hfilled
        · -- a filler has the source id 0
          cases hfilled
          intro hzero
          exact absurd hzero hsrc.ne
    · refine ⟨hsent, fun p hp => ?_⟩
      rcases List.mem_append.mp hp with hold | hlast
      · exact hcontrol p hold
      · cases b with
        | receive header => cases hlast
        | receiveError => cases hlast
        | endBatch receiverTimestamp currT =>
          rw [BatchReceiver.keepAlives] at hlast
          split_ifs at hlast
          · have hheld : s.buff ∈ f.headers := by
              refine Flow.mem_headers.mpr (Or.inr (Or.inr ?_))
              rw [hs]
              exact List.mem_cons_self
            rw [List.mem_singleton.mp hlast]
            exact h s.buff hheld
          · cases hlast
  refine ⟨fun x hx => ?_, hnew⟩
  rcases hspec.headers x hx with ⟨y, hy, hecho⟩ | hx | hx
  · exact (h y hy).echo hecho
  · exact hnew.1 x hx
  · exact hnew.2 x hx

/-! ### Flows of a session -/

/-- Everything in the flow that goes back to a packet of the flow does so to one that it counts. -/
structure TracesOwn (c : FlowConfig) (f : Flow κ) : Prop where
  inv : FlowInv c f
  buf : c.Own f.sender.buf →
    ∃ p, (p ∈ f.sent ∨ p ∈ f.control) ∧ EchoOf p f.sender.buf
  accepted : ∀ x ∈ f.accepted, c.Own x.header ∧
    ∃ p, (p ∈ f.sent ∨ p ∈ f.control) ∧ EchoOf p x.header

/-- The buffer of the sender, and the header that it accepts, after a step. -/
theorem tracesOwn_sender {c : FlowConfig} {f : Flow κ} {a : SendAction} {r : SendOutcome κ}
    (h : TracesOwn c f) (harrives : a.Arrives f.toSender)
    (hr : sendStep cc c f.sender a = some r) :
    (c.Own r.sender.buf → ∃ p, (p ∈ f.sent ++ r.dataSent ∨ p ∈ f.control ++ r.probesSent) ∧
        EchoOf p r.sender.buf) ∧
      ∀ x ∈ r.ack, c.Own x.header ∧
        ∃ p, (p ∈ f.sent ∨ p ∈ f.control) ∧ EchoOf p x.header := by
  have hheard : ∀ k, f.sender.heard a = some k → c.Own k →
      ∃ p, (p ∈ f.sent ∨ p ∈ f.control) ∧ EchoOf p k := by
    intro k hk hown
    cases a with
    | receive header now =>
      cases hk
      exact h.inv.headers _ (Flow.mem_headers.mpr (Or.inr (Or.inl harrives))) hown
    | receiveError now =>
      cases hk
      exact h.buf hown
    | enter | transmit | stopTransmitting | timedOut | finish => cases hk
  have hold {k : TCPHeader} (hk : ∃ p, (p ∈ f.sent ∨ p ∈ f.control) ∧ EchoOf p k) :
      ∃ p, (p ∈ f.sent ++ r.dataSent ∨ p ∈ f.control ++ r.probesSent) ∧ EchoOf p k := by
    obtain ⟨p, hp, hecho⟩ := hk
    exact ⟨p, hp.imp (List.mem_append_left _) (List.mem_append_left _), hecho⟩
  constructor
  · intro hown
    cases a with
    | enter now =>
      rw [sendStep] at hr
      split_ifs at hr
      obtain ⟨t, ht, rfl⟩ := Option.map_eq_some_iff.mp hr
      have hsame := (enterLoop_fields ht).2.1
      dsimp only at hown ⊢
      rw [hsame] at hown ⊢
      exact hold (h.buf hown)
    | transmit txTimestamp =>
      rw [sendStep] at hr
      split_ifs at hr
      cases hr
      exact ⟨_, Or.inl (List.mem_append_right _ (List.mem_singleton.mpr rfl)), EchoOf.rfl⟩
    | stopTransmitting txTimestamp now =>
      rw [sendStep] at hr
      split_ifs at hr
      · cases hr
        exact ⟨_, Or.inr (List.mem_append_right _ (List.mem_singleton.mpr rfl)), EchoOf.rfl⟩
      · cases hr
        exact hold (h.buf hown)
    | timedOut now =>
      rw [sendStep] at hr
      split_ifs at hr
      cases hr
      exact hold (h.buf hown)
    | receive header now =>
      rw [sendStep] at hr
      split_ifs at hr
      have hsame := (takeAck_fields hr).2.1
      rw [hsame] at hown ⊢
      exact hold (hheard header rfl hown)
    | receiveError now =>
      rw [sendStep] at hr
      split_ifs at hr
      have hsame := (takeAck_fields hr).2.1
      rw [hsame] at hown ⊢
      exact hold (h.buf hown)
    | finish now =>
      rw [sendStep] at hr
      split_ifs at hr
      cases hr
      exact hold (h.buf hown)
  · intro x hx
    cases hheardEq : f.sender.heard a with
    | none =>
      rw [sendStep_of_heard_none hheardEq hr] at hx
      cases hx
    | some k =>
      have hcases := sendStep_heard hheardEq hr
      split_ifs at hcases with hown
      · rw [hcases] at hx
        cases hx
        exact ⟨hown, hheard k hheardEq hown⟩
      · rw [hcases.1] at hx
        cases hx

theorem tracesOwn_step {c : FlowConfig} {f f' : Flow κ} {a : FlowAction} (h : TracesOwn c f)
    (hstep : flowStep cc c f a = some f') : TracesOwn c f' := by
  have hspec := flowStep_spec hstep
  have hinv := flowInv_step h.inv hspec
  have hkept {k : TCPHeader} (hk : ∃ p, (p ∈ f.sent ∨ p ∈ f.control) ∧ EchoOf p k) :
      ∃ p, (p ∈ f'.sent ∨ p ∈ f'.control) ∧ EchoOf p k := by
    obtain ⟨p, hp, hecho⟩ := hk
    exact ⟨p, hp.imp (fun hmem => hspec.sent_subset hmem) (fun hmem => hspec.control_subset hmem),
      hecho⟩
  cases a with
  | sender b =>
    rw [flowStep] at hstep
    split_ifs at hstep with harrives
    obtain ⟨r, hr, rfl⟩ := Option.map_eq_some_iff.mp hstep
    obtain ⟨hbuf, hack⟩ := tracesOwn_sender h harrives hr
    refine ⟨hinv, hbuf, fun x hx => ?_⟩
    rcases List.mem_append.mp hx with hold | hnew
    · exact ⟨(h.accepted x hold).1, hkept (h.accepted x hold).2⟩
    · have hx' := hack x (Option.mem_toList.mp hnew)
      exact ⟨hx'.1, hkept hx'.2⟩
  | client b =>
    rcases flowStep_cases hstep with
      ⟨_, _, hb, _⟩ | ⟨_, _, _, _, _, _, _, rfl⟩ | ⟨_, _, _, hb, _⟩
    · cases hb
    · exact ⟨hinv, fun hown => hkept (h.buf hown),
        fun x hx => ⟨(h.accepted x hx).1, hkept (h.accepted x hx).2⟩⟩
    · cases hb
  | batch b =>
    rcases flowStep_cases hstep with
      ⟨_, _, hb, _⟩ | ⟨_, _, _, hb, _⟩ | ⟨_, _, _, _, _, _, _, rfl⟩
    · cases hb
    · cases hb
    · exact ⟨hinv, fun hown => hkept (h.buf hown),
        fun x hx => ⟨(h.accepted x hx).1, hkept (h.accepted x hx).2⟩⟩

theorem tracesOwn_start {c : FlowConfig} {f : Flow κ} (h : FlowStart cc c f)
    (hbuf : ¬ c.Own f.sender.buf) (haccepted : f.accepted = []) : TracesOwn c f := by
  refine ⟨flowInv_of_start h, fun hown => absurd hown hbuf, fun x hx => ?_⟩
  rw [haccepted] at hx
  exact absurd hx List.not_mem_nil

/-! ### Sessions -/

/-- The number of flows that have sent something. -/
def Session.used (s : Session κ) : ℕ :=
  match s.stage with
  | .sending => s.flowId+1
  | _ => s.flowId

/-- What every state of a session satisfies. -/
structure SessionInv (g : SessionConfig) (s : Session κ) : Prop where
  headers : ∀ h ∈ s.flow.headers, IdsBelow g s.used h
  sent : ∀ p ∈ s.flow.sent, IdsBelow g s.used p
  control : ∀ p ∈ s.flow.control, IdsBelow g s.used p
  cycles : if s.flowId < max 1 g.numCycles then s.stage ≠ .ended
    else s.stage = .ended ∧ s.flowId = max 1 g.numCycles
  handshake : ∀ h, s.stage = .handshake h → h.header.srcId = -1
  sending : s.stage = .sending → TracesOwn (s.config g) s.flow

theorem SessionInv.flowId {s : Session κ} (h : SessionInv g s) (hstage : s.stage ≠ .ended) :
    s.flowId < max 1 g.numCycles ∧ s.flowId+1 < 2^32 := by
  have hcycles := h.cycles
  have hlt := g.numCycles_lt
  split_ifs at hcycles with hlow
  · exact ⟨hlow, by omega⟩
  · exact absurd hcycles.1 hstage

/-- What the counter says when the stage is not the last one. -/
theorem cycles_of_lt {s : Session κ} (hlow : s.flowId < max 1 g.numCycles)
    (hstage : s.stage ≠ .ended) : if s.flowId < max 1 g.numCycles then s.stage ≠ .ended
    else s.stage = .ended ∧ s.flowId = max 1 g.numCycles := by
  rw [if_pos hlow]
  exact hstage

theorem sessionInv_start {s : Session κ} (h : SessionStart g s) (hsent : s.flow.sent = [])
    (hcontrol : s.flow.control = []) : SessionInv g s := by
  refine ⟨fun x hx hsrc => absurd hsrc (h.headers x hx), ?_, ?_, ?_, ?_, ?_⟩
  · rw [hsent]
    exact fun p hp => absurd hp List.not_mem_nil
  · rw [hcontrol]
    exact fun p hp => absurd hp List.not_mem_nil
  · refine cycles_of_lt ?_ (by rw [h.stage]; exact Stage.noConfusion)
    rw [h.flowId]
    exact lt_max_of_lt_left Nat.zero_lt_one
  · intro k hk
    rw [h.stage] at hk
    cases hk
  · intro hsending
    rw [h.stage] at hsending
    cases hsending

/-- The headers that are left of earlier flows are not those of a new one. -/
theorem SessionInv.not_own {s : Session κ} (h : SessionInv g s)
    (hused : s.used = s.flowId) (hid : s.flowId+1 < 2^32) :
    ∀ x ∈ s.flow.headers, ¬ (s.config g).Own x := by
  intro x hx hown
  have hself : x.flowId = Int.bmod (s.flowId:ℤ) (2^32) := by
    rw [hown.2, s.flowId_config]
  rcases h.headers x hx hown.1 with hprobe | ⟨k, hk, hflow⟩
  · exact bmod_flowId_ne_neg_one hid (hself.symm.trans hprobe)
  · rw [hused] at hk
    have heq := bmod_flowId_inj (by omega) (by omega) (hflow.symm.trans hself)
    omega

/-- A flow starts with nothing of its own on the network. -/
theorem flowStart_startFlow {s t : Session κ} {h : Handshake} {startTime now : ℚ}
    (hinv : SessionInv g s) (hstage : s.stage = .handshake h)
    (ht : s.startFlow cc setMinRtt h startTime now = some t) :
    FlowStart cc (t.config g) t.flow ∧ t.stage = .sending ∧ t.flowId = s.flowId ∧
      t.flow.headers = s.flow.headers ∧ t.flow.accepted = [] ∧
        t.flow.sender.buf = dashHeader ∧ t.flowSize = s.flowSize := by
  unfold Session.startFlow at ht
  extract_lets congctrl at ht
  obtain ⟨sender, hsender, rfl⟩ := Option.map_eq_some_iff.mp ht
  have hused : s.used = s.flowId := by rw [Session.used, hstage]
  have hid := (hinv.flowId (by rw [hstage]; exact Stage.noConfusion)).2
  obtain ⟨k, _, hbuf⟩ := Option.map_eq_some_iff.mp hsender
  refine ⟨⟨⟨_, _, _, _, hsender⟩, rfl, rfl, hinv.not_own hused hid⟩, rfl, rfl, rfl, rfl, ?_, rfl⟩
  rw [← hbuf]

theorem sessionInv_flow {s : Session κ} {a : FlowAction} {f : Flow κ} (hinv : SessionInv g s)
    (hsrc : 0 < g.srcId) (ha : s.stage = .sending ∨ ∀ b, a ≠ .sender b)
    (hf : flowStep cc (s.config g) s.flow a = some f) : SessionInv g { s with flow := f } := by
  have hlt : s.flowId < s.used ∨ ∀ b, a ≠ .sender b := by
    refine ha.imp_left (fun hsending => ?_)
    rw [Session.used, hsending]
    exact Nat.lt_succ_self _
  obtain ⟨hheaders, hsent, hcontrol⟩ :=
    idsBelow_flowStep hlt hsrc s.flowId_config hinv.headers hinv.sent hinv.control hf
  exact ⟨hheaders, hsent, hcontrol, hinv.cycles, hinv.handshake,
    fun hsending => tracesOwn_step (hinv.sending hsending) hf⟩

theorem headers_handshakeStep {h : Handshake} {a : HandshakeAction}
    {r : Handshake × List TCPHeader} (hr : handshakeStep h a = some r) :
    r.1.header = h.header ∧ ∀ p ∈ r.2, p = h.header := by
  have hnone {x : Handshake} {ps : List TCPHeader} (hx : x.header = h.header)
      (hps : ps = []) : x.header = h.header ∧ ∀ p ∈ ps, p = h.header := by
    rw [hps]
    exact ⟨hx, fun p hp => absurd hp List.not_mem_nil⟩
  have hreply (x : Handshake) (now : ℚ) : (x.takeReply now).header = x.header := by
    unfold Handshake.takeReply
    split_ifs
    · rfl
    · rfl
  cases a with
  | punch header =>
    rw [handshakeStep] at hr
    split_ifs at hr
    cases hr
    exact hnone rfl rfl
  | round now =>
    rw [handshakeStep] at hr
    split_ifs at hr
    · cases hr
      exact ⟨rfl, fun p hp => List.mem_singleton.mp hp⟩
    · cases hr
      exact hnone rfl rfl
  | timedOut =>
    rw [handshakeStep] at hr
    split_ifs at hr
    cases hr
    exact hnone rfl rfl
  | receive header now =>
    rw [handshakeStep] at hr
    split_ifs at hr
    cases hr
    exact hnone (hreply _ now) rfl
  | receiveError now =>
    rw [handshakeStep] at hr
    split_ifs at hr
    cases hr
    exact hnone (hreply _ now) rfl

/-- The counter stays below `num_cycles`, or is that of the one flow there is. -/
theorem sessionInv_step {s t : Session κ} {a : SessionAction} (hinv : SessionInv g s)
    (hsrc : 0 < g.srcId) (hdash : g.srcId ≠ dashInt)
    (ht : sessionStep cc setMinRtt g s a = some t) : SessionInv g t := by
  cases a with
  | begin onDuration header buf stale =>
    rw [sessionStep] at ht
    cases hstage : s.stage with
    | off =>
      rw [hstage] at ht
      dsimp only at ht
      split_ifs at ht with hset
      cases ht
      have hused : s.used = s.flowId := by rw [Session.used, hstage]
      have hid := (hinv.flowId (by rw [hstage]; exact Stage.noConfusion)).1
      refine ⟨fun x hx => ?_, fun x hx => ?_, fun x hx => ?_,
        cycles_of_lt hid Stage.noConfusion, fun h hh => ?_,
        fun hsending => nomatch hsending⟩
      · exact (hinv.headers x hx).mono hused.le
      · exact (hinv.sent x hx).mono hused.le
      · exact (hinv.control x hx).mono hused.le
      · cases hh
        exact hset.2.2.1
    | handshake h => rw [hstage] at ht; cases ht
    | sending => rw [hstage] at ht; cases ht
    | ended => rw [hstage] at ht; cases ht
  | handshake b =>
    rw [sessionStep] at ht
    cases hstage : s.stage with
    | off => rw [hstage] at ht; cases ht
    | handshake h =>
      rw [hstage] at ht
      dsimp only at ht
      split_ifs at ht
      obtain ⟨r, hr, rfl⟩ := Option.map_eq_some_iff.mp ht
      obtain ⟨hheader, hsent⟩ := headers_handshakeStep hr
      have hminus := hinv.handshake h hstage
      have hused : s.used = s.flowId := by rw [Session.used, hstage]
      have hid := (hinv.flowId (by rw [hstage]; exact Stage.noConfusion)).1
      refine ⟨fun x hx => ?_, fun x hx => ?_, fun x hx => ?_,
        cycles_of_lt hid Stage.noConfusion, fun k hk => ?_,
        fun hsending => nomatch hsending⟩
      · -- the probe has no source id
        rcases Flow.mem_headers.mp hx with hx | hx | hx
        · rcases List.mem_append.mp hx with hold | hnew
          · exact (hinv.headers x (Flow.mem_headers.mpr (Or.inl hold))).mono hused.le
          · intro hself
            rw [hsent x hnew, hminus] at hself
            omega
        · exact (hinv.headers x (Flow.mem_headers.mpr (Or.inr (Or.inl hx)))).mono hused.le
        · exact (hinv.headers x (Flow.mem_headers.mpr (Or.inr (Or.inr hx)))).mono hused.le
      · exact (hinv.sent x hx).mono hused.le
      · exact (hinv.control x hx).mono hused.le
      · cases hk
        exact hheader ▸ hminus
    | sending => rw [hstage] at ht; cases ht
    | ended => rw [hstage] at ht; cases ht
  | start startTime now =>
    rw [sessionStep] at ht
    cases hstage : s.stage with
    | off => rw [hstage] at ht; cases ht
    | handshake h =>
      rw [hstage] at ht
      dsimp only at ht
      split_ifs at ht
      obtain ⟨hflow, hsending, hid, hheaders, haccepted, hbuf, _⟩ :=
        flowStart_startFlow hinv hstage ht
      have hused : s.used ≤ t.used := by
        rw [Session.used, Session.used, hstage, hsending, hid]
        exact Nat.le_succ _
      have hlow := (hinv.flowId (by rw [hstage]; exact Stage.noConfusion)).1
      rw [← hid] at hlow
      refine ⟨fun x hx => ?_, fun x hx => ?_, fun x hx => ?_,
        cycles_of_lt hlow (by rw [hsending]; exact Stage.noConfusion),
        fun k hk => ?_, fun _ => tracesOwn_start hflow (fun hown => ?_) haccepted⟩
      · rw [hheaders] at hx
        exact (hinv.headers x hx).mono hused
      · rw [hflow.sent] at hx
        exact absurd hx List.not_mem_nil
      · rw [hflow.control] at hx
        exact absurd hx List.not_mem_nil
      · rw [hsending] at hk
        cases hk
      · rw [hbuf] at hown
        exact hdash hown.1.symm
    | sending => rw [hstage] at ht; cases ht
    | ended => rw [hstage] at ht; cases ht
  | flow b =>
    cases b with
    | sender d =>
      rw [sessionStep] at ht
      cases hstage : s.stage with
      | off => rw [hstage] at ht; cases ht
      | handshake h => rw [hstage] at ht; cases ht
      | sending =>
        rw [hstage] at ht
        obtain ⟨f, hf, rfl⟩ := Option.map_eq_some_iff.mp ht
        exact hstage ▸ sessionInv_flow hinv hsrc (Or.inl hstage) hf
      | ended => rw [hstage] at ht; cases ht
    | client d =>
      obtain ⟨f, hf, rfl⟩ := Option.map_eq_some_iff.mp ht
      exact sessionInv_flow hinv hsrc (Or.inr fun _ => FlowAction.noConfusion) hf
    | batch d =>
      obtain ⟨f, hf, rfl⟩ := Option.map_eq_some_iff.mp ht
      exact sessionInv_flow hinv hsrc (Or.inr fun _ => FlowAction.noConfusion) hf
  | next =>
    rw [sessionStep] at ht
    cases hstage : s.stage with
    | off => rw [hstage] at ht; cases ht
    | handshake h => rw [hstage] at ht; cases ht
    | sending =>
      rw [hstage] at ht
      dsimp only at ht
      have hlow := (hinv.flowId (by rw [hstage]; exact Stage.noConfusion)).1
      have hused : s.used = s.flowId+1 := by rw [Session.used, hstage]
      split_ifs at ht with _ hlast
      · cases ht
        have hall : s.flowId+1 = max 1 g.numCycles := by omega
        exact ⟨fun x hx => (hinv.headers x hx).mono hused.le,
          fun x hx => (hinv.sent x hx).mono hused.le,
          fun x hx => (hinv.control x hx).mono hused.le,
          (by rw [if_neg hall.not_lt]; exact ⟨rfl, hall⟩), (fun k hk => nomatch hk),
          (fun hs => nomatch hs)⟩
      · cases ht
        exact ⟨fun x hx => (hinv.headers x hx).mono hused.le,
          fun x hx => (hinv.sent x hx).mono hused.le,
          fun x hx => (hinv.control x hx).mono hused.le,
          cycles_of_lt (show s.flowId+1 < max 1 g.numCycles by omega) Stage.noConfusion,
          (fun k hk => nomatch hk), (fun hs => nomatch hs)⟩
    | ended => rw [hstage] at ht; cases ht

/-- In a whole session, whatever the network keeps of earlier flows and however many there are,
each flow starts with nothing of its own on the network, and every header that it accepts has its
ids and goes back to a packet, probe or keep-alive that was sent during this flow. The session is
over when there were `num_cycles` flows, of which there is at least one. -/
theorem session_flows_isolated {s t : Session κ} {actions : List SessionAction}
    (hstart : SessionStart g s) (hsent : s.flow.sent = []) (hcontrol : s.flow.control = [])
    (hrun : run (sessionStep cc setMinRtt g) s actions = some t) :
    (∀ startTime now u, sessionStep cc setMinRtt g t (.start startTime now) = some u →
      FlowStart cc (u.config g) u.flow) ∧
    (t.stage = .sending → ∀ x ∈ t.flow.accepted, (t.config g).Own x.header ∧
      ∃ p, (p ∈ t.flow.sent ∨ p ∈ t.flow.control) ∧ EchoOf p x.header) ∧
    t.flowId ≤ max 1 g.numCycles ∧ (t.stage = .ended ↔ t.flowId = max 1 g.numCycles) := by
  have hinv := run_invariant (sessionStep cc setMinRtt g) (SessionInv g)
    (fun _ _ _ h hstep => sessionInv_step h hstart.srcId hstart.notDashes hstep)
    (sessionInv_start hstart hsent hcontrol) hrun
  have hcount : t.flowId ≤ max 1 g.numCycles ∧
      (t.stage = .ended ↔ t.flowId = max 1 g.numCycles) := by
    have hcycles := hinv.cycles
    split_ifs at hcycles with hlow
    · exact ⟨hlow.le, iff_of_false hcycles hlow.ne⟩
    · exact ⟨hcycles.2.le, iff_of_true hcycles.1 hcycles.2⟩
  refine ⟨fun startTime now u hu => ?_, fun hsending => (hinv.sending hsending).accepted, hcount⟩
  rw [sessionStep] at hu
  cases hstage : t.stage with
  | off => rw [hstage] at hu; cases hu
  | handshake h =>
    rw [hstage] at hu
    dsimp only at hu
    split_ifs at hu
    exact (flowStart_startFlow hinv hstage hu).1
  | sending => rw [hstage] at hu; cases hu
  | ended => rw [hstage] at hu; cases hu

end

/-- Two flows of one second each. -/
def twoFlows : SessionConfig := ⟨7, 1, false, 2, true, by decide⟩

def twoFlowsStart : Session Unit := ⟨batchFlow, .off, 0, 0⟩

/-- The handshake, with its reply. -/
def firstHandshake : List SessionAction :=
  [.begin 1000 (handshakeProbe 0 0) (handshakeProbe 0 0) 0, .handshake (.round 0),
    .flow (.batch (.receive (handshakeProbe 0 0))), .flow (.batch (.endBatch (fun _ => 3) 200)),
    .handshake (.receive (batchEcho (handshakeProbe 0 0) 3 200) 5), .start 6 6]

theorem session_flows_isolated_first : ∃ t,
    run (sessionStep onePacket (fun _ _ => ()) twoFlows) twoFlowsStart firstHandshake = some t ∧
    (∀ startTime now u,
      sessionStep onePacket (fun _ _ => ()) twoFlows t (.start startTime now) = some u →
      FlowStart onePacket (u.config twoFlows) u.flow) ∧
    (t.stage = .sending → ∀ x ∈ t.flow.accepted, (t.config twoFlows).Own x.header ∧
      ∃ p, (p ∈ t.flow.sent ∨ p ∈ t.flow.control) ∧ EchoOf p x.header) ∧
    t.flowId ≤ max 1 twoFlows.numCycles ∧
      (t.stage = .ended ↔ t.flowId = max 1 twoFlows.numCycles) := by
  have hrun := (Option.some_get (x := run (sessionStep onePacket (fun _ _ => ()) twoFlows)
    twoFlowsStart firstHandshake) (by decide +kernel)).symm
  have hstart : SessionStart twoFlows twoFlowsStart :=
    ⟨rfl, rfl, by decide, by decide, by decide⟩
  exact ⟨_, hrun, session_flows_isolated hstart rfl rfl hrun⟩

end CopaNgscope
