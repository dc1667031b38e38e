import CopaNgscope.Session

/-! The receivers `copa_rx` and `receiver`, which echo every packet as it comes. A flow with one of
them is a flow with `copa_rx_fix` whose milliseconds are never idle, so that there is no keep-alive
that could be taken for an ACK. -/
namespace CopaNgscope
open RunInvariant

/-- The two programs, of `copa_recv.cc` and `receiver.cc`. -/
inductive PlainProgram
  | copaRx
  | receiver
deriving DecidableEq

/-- The buffer after a pass of the loop of `copa_recv.cc`, and what it sends. -/
def copaRxEcho (buff : TCPHeader) (receiverTimestamp : ℚ) (ackT : UInt64) :
    TCPHeader × List TCPHeader :=
  let buff := { buff with receiverTimestamp := receiverTimestamp, txTimestamp := ackT }
  -- a dummy packet is only printed
  (buff, if buff.seqNum = -1111 then [] else [buff])

/-- The same for `receiver.cc`, which does not look for dummies. -/
def receiverEcho (buff : TCPHeader) (receiverTimestamp : ℚ) : TCPHeader × List TCPHeader :=
  let buff := { buff with receiverTimestamp := receiverTimestamp }
  (buff, [buff])

def PlainProgram.echo : PlainProgram → TCPHeader → ℚ → UInt64 → TCPHeader × List TCPHeader
  | .copaRx, buff, receiverTimestamp, ackT => copaRxEcho buff receiverTimestamp ackT
  | .receiver, buff, receiverTimestamp, _ => receiverEcho buff receiverTimestamp

/-- `buff`, and whether the loop is over. -/
structure PlainReceiver where
  buff : TCPHeader
  goExit : Bool
deriving DecidableEq

/-- A pass of the loop of `echo_packets`: with a packet, or because `go_exit` ends the wait for
one. Then the rest of the loop is run on what is in the buffer. -/
inductive PlainAction
  | receive (header : TCPHeader) (receiverTimestamp : ℚ) (ackT : UInt64)
  | exit (receiverTimestamp : ℚ) (ackT : UInt64)

/-- The receiver and the headers it sends. -/
def plainStep (program : PlainProgram) (s : PlainReceiver) :
    PlainAction → Option (PlainReceiver × List TCPHeader)
  | .receive header receiverTimestamp ackT =>
    if s.goExit then none
    else
      let r := program.echo header receiverTimestamp ackT
      some (⟨r.1, false⟩, r.2)
  | .exit receiverTimestamp ackT =>
    if s.goExit then none
    else
      let r := program.echo s.buff receiverTimestamp ackT
      some (⟨r.1, true⟩, r.2)

/-- A flow as before, with one of these receivers. -/
structure PlainFlow (κ : Type*) where
  sender : Sender κ
  receiver : PlainReceiver
  toReceiver : List TCPHeader
  toSender : List TCPHeader
  sent : List TCPHeader
  control : List TCPHeader
  accepted : List AcceptedAck

inductive PlainFlowAction
  | sender (a : SendAction)
  | receiver (a : PlainAction)

def PlainAction.Arrives (toReceiver : List TCPHeader) : PlainAction → Prop
  | .receive header _ _ => header ∈ toReceiver
  | .exit _ _ => True

instance (toReceiver : List TCPHeader) : ∀ a : PlainAction, Decidable (a.Arrives toReceiver)
  | .receive header _ _ => inferInstanceAs (Decidable (header ∈ toReceiver))
  | .exit _ _ => isTrue trivial

section
variable {κ : Type*} (program : PlainProgram) (cc : CongCtrl κ) (c : FlowConfig)

def PlainFlow.afterSender (f : PlainFlow κ) (r : SendOutcome κ) : PlainFlow κ :=
  { f with
    sender := r.sender
    toReceiver := f.toReceiver ++ (r.dataSent ++ r.probesSent)
    sent := f.sent ++ r.dataSent
    control := f.control ++ r.probesSent
    accepted := f.accepted ++ r.ack.toList }

def PlainFlow.afterReceiver (f : PlainFlow κ) (r : PlainReceiver × List TCPHeader) :
    PlainFlow κ :=
  { f with receiver := r.1, toSender := f.toSender ++ r.2 }

def plainFlowStep (f : PlainFlow κ) : PlainFlowAction → Option (PlainFlow κ)
  | .sender a =>
    if a.Arrives f.toSender then (sendStep cc c f.sender a).map f.afterSender else none
  | .receiver a =>
    if a.Arrives f.toReceiver then (plainStep program f.receiver a).map f.afterReceiver else none

/-! ### As a flow with batches -/

/-- The flow with `copa_rx_fix` that has the same buffer and no packet listed. -/
def PlainFlow.toFlow (f : PlainFlow κ) : Flow κ where
  sender := f.sender
  receiver := .batch ⟨f.receiver.buff, []⟩
  toReceiver := f.toReceiver
  toSender := f.toSender
  sent := f.sent
  control := f.control
  accepted := f.accepted

/-- What `copa_rx_fix` writes to `tx_timestamp` to echo as the program does. -/
def PlainProgram.echoTime : PlainProgram → TCPHeader → UInt64 → UInt64
  | .copaRx, _, ackT => ackT
  | .receiver, buff, _ => buff.txTimestamp

/-- A pass of the loop is a batch of one packet; without a packet, of the old one. -/
def PlainProgram.batchActions (s : PlainReceiver) : PlainAction → List FlowAction
  | .receive header receiverTimestamp ackT =>
    [.batch (.receive header),
      .batch (.endBatch (fun _ => receiverTimestamp) (program.echoTime header ackT))]
  | .exit receiverTimestamp ackT =>
    [.batch .receiveError,
      .batch (.endBatch (fun _ => receiverTimestamp) (program.echoTime s.buff ackT))]

/-- The step of the sender, if it is one. -/
def FlowAction.ofSender : FlowAction → Option SendAction
  | .sender a => some a
  | _ => none

def PlainFlowAction.ofSender : PlainFlowAction → Option SendAction
  | .sender a => some a
  | .receiver _ => none

/-- A condition on the steps of the sender. -/
def OnPlainSender (ok : Sender κ → SendAction → Prop) (f : PlainFlow κ) : PlainFlowAction → Prop
  | .sender a => ok f.sender a
  | .receiver _ => True

/-- The flow starts, as one with batches does, and nothing on the way to `receiver` has the number
of a dummy. -/
structure PlainStart (f : PlainFlow κ) : Prop where
  flow : FlowStart cc c f.toFlow
  accepted : f.accepted = []
  buf : ¬ c.Own f.sender.buf
  dummies : program = .receiver → ∀ h ∈ f.receiver.buff :: f.toReceiver, h.seqNum ≠ -1111

/-- What every state of a flow satisfies. -/
structure PlainInv (f : PlainFlow κ) : Prop where
  traces : TracesOwn c f.toFlow
  control : ∀ p ∈ f.control, ¬ c.Own p
  dummies : program = .receiver → ∀ h ∈ f.receiver.buff :: f.toReceiver, h.seqNum ≠ -1111

variable {program cc c}

theorem batch_of_echo {buff : TCPHeader} (receiverTimestamp : ℚ) (ackT : UInt64)
    (hdummy : program = .receiver → buff.seqNum ≠ -1111) (old : TCPHeader) :
    echoBatch (fun _ => receiverTimestamp) (program.echoTime buff ackT) 0 old [buff] =
      program.echo buff receiverTimestamp ackT := by
  cases program with
  | copaRx =>
    rw [PlainProgram.echo, copaRxEcho, echoBatch, echoBatch]
    by_cases hseq : buff.seqNum = -1111
    · exact (if_pos hseq).trans (congrArg (Prod.mk _) (if_pos hseq).symm)
    · exact (if_neg hseq).trans (congrArg (Prod.mk _) (if_neg hseq).symm)
  | receiver =>
    rw [PlainProgram.echo, receiverEcho, echoBatch, echoBatch]
    exact if_neg (hdummy rfl)

theorem flowStep_batch {f : Flow κ} {s : BatchReceiver} {a : BatchAction}
    {r : BatchReceiver × List TCPHeader} (hs : f.receiver = .batch s)
    (harrives : a.Arrives f.toReceiver) (hr : batchStep s a = some r) :
    flowStep cc c f (.batch a) = some (f.afterBatch s a r) := by
  rw [flowStep, hs]
  dsimp only
  rw [if_pos harrives, hr, Option.map_some]

/-- A batch of one packet over `copa_rx_fix`. -/
theorem run_batch_of_one {f : PlainFlow κ} {first : BatchAction} {header : TCPHeader}
    (harrives : first.Arrives f.toReceiver)
    (hfirst : batchStep ⟨f.receiver.buff, []⟩ first = some (⟨header, [header]⟩, []))
    (hkeep : BatchReceiver.keepAlives ⟨f.receiver.buff, []⟩ first = [])
    (receiverTimestamp : ℕ → ℚ) (currT : UInt64) :
    run (flowStep cc c) f.toFlow [.batch first, .batch (.endBatch receiverTimestamp currT)] =
      some { f.toFlow with
        receiver := .batch ⟨(echoBatch receiverTimestamp currT 0 header [header]).1, []⟩
        toSender := f.toSender ++ (echoBatch receiverTimestamp currT 0 header [header]).2 } := by
  have hlisted : flowStep cc c f.toFlow (.batch first) =
      some { f.toFlow with receiver := .batch ⟨header, [header]⟩ } := by
    rw [flowStep_batch rfl harrives hfirst, Flow.afterBatch, hkeep, List.append_nil,
      List.append_nil]
  have hended : batchStep ⟨header, [header]⟩ (.endBatch receiverTimestamp currT) =
      some (⟨(echoBatch receiverTimestamp currT 0 header [header]).1, []⟩,
        (echoBatch receiverTimestamp currT 0 header [header]).2) := by
    rw [batchStep, if_neg (List.cons_ne_nil header [])]
  rw [run_cons, hlisted, Option.bind_some, run_singleton]
  refine (flowStep_batch rfl ?_ hended).trans ?_
  · trivial
  · rw [Flow.afterBatch, BatchReceiver.keepAlives, if_neg (List.cons_ne_nil header []),
      List.append_nil]
    rfl

/-- A pass of the loop and its batch. -/
theorem run_batchActions {f : PlainFlow κ} {a : PlainAction} {r : PlainReceiver × List TCPHeader}
    (harrives : a.Arrives f.toReceiver)
    (hdummies : program = .receiver → ∀ h ∈ f.receiver.buff :: f.toReceiver, h.seqNum ≠ -1111)
    (hr : plainStep program f.receiver a = some r) :
    run (flowStep cc c) f.toFlow (program.batchActions f.receiver a) =
      some (f.afterReceiver r).toFlow := by
  cases a with
  | receive header receiverTimestamp ackT =>
    rw [plainStep] at hr
    split_ifs at hr
    cases hr
    have hlisted : (BatchAction.receive header).Arrives f.toReceiver := harrives
    rw [PlainProgram.batchActions, run_batch_of_one hlisted rfl rfl,
      batch_of_echo receiverTimestamp ackT
        (fun hp => hdummies hp header (List.mem_cons_of_mem _ harrives))]
    rfl
  | exit receiverTimestamp ackT =>
    rw [plainStep] at hr
    split_ifs at hr
    cases hr
    have hlisted : BatchAction.receiveError.Arrives f.toReceiver := trivial
    rw [PlainProgram.batchActions, run_batch_of_one hlisted rfl rfl,
      batch_of_echo receiverTimestamp ackT (fun hp => hdummies hp _ List.mem_cons_self)]
    rfl

/-! ### Runs -/

theorem seqNum_echo (buff : TCPHeader) (receiverTimestamp : ℚ) (ackT : UInt64) :
    (program.echo buff receiverTimestamp ackT).1.seqNum = buff.seqNum := by
  cases program <;> rfl

/-- A pass of the loop leaves the number of the packet in the buffer. -/
theorem seqNum_plainStep {s : PlainReceiver} {a : PlainAction}
    {r : PlainReceiver × List TCPHeader} (hr : plainStep program s a = some r) :
    r.1.buff.seqNum = s.buff.seqNum ∨
      ∃ header receiverTimestamp ackT, a = .receive header receiverTimestamp ackT ∧
        r.1.buff.seqNum = header.seqNum := by
  cases a with
  | receive header receiverTimestamp ackT =>
    rw [plainStep] at hr
    split_ifs at hr
    cases hr
    exact Or.inr ⟨header, receiverTimestamp, ackT, rfl, seqNum_echo header receiverTimestamp ackT⟩
  | exit receiverTimestamp ackT =>
    rw [plainStep] at hr
    split_ifs at hr
    cases hr
    exact Or.inl (seqNum_echo s.buff receiverTimestamp ackT)

theorem plainInv_start {f : PlainFlow κ} (h : PlainStart program cc c f) :
    PlainInv program c f := by
  refine ⟨tracesOwn_start h.flow h.buf h.accepted, ?_, h.dummies⟩
  have hnone : f.control = [] := h.flow.control
  rw [hnone]
  exact fun p hp => absurd hp List.not_mem_nil

/-- What the sender puts on the network keeps apart from dummies, and probes from the flow. -/
theorem PlainInv.afterSender {f : PlainFlow κ} (h : PlainInv program c f) (hflow : c.flowId ≠ -1)
    {a : SendAction} {r : SendOutcome κ} (hr : sendStep cc c f.sender a = some r)
    (htraces : TracesOwn c (f.afterSender r).toFlow) : PlainInv program c (f.afterSender r) := by
  obtain ⟨hdata, hprobes⟩ := sendStep_packets hr
  refine ⟨htraces, fun p hp hown => ?_, fun hprogram x hx => ?_⟩
  · rcases List.mem_append.mp hp with hold | hnew
    · exact h.control p hold hown
    · exact hflow (hown.2.symm.trans (hprobes p hnew).2)
  · have hold := h.dummies hprogram
    rcases List.mem_cons.mp hx with rfl | hx
    · exact hold _ List.mem_cons_self
    rcases List.mem_append.mp hx with hx | hx
    · exact hold x (List.mem_cons_of_mem _ hx)
    rcases List.mem_append.mp hx with hx | hx
    · -- a data packet has the next number
      have hnonneg : 0 ≤ f.sender.seqNum := h.traces.inv.seqNum_nonneg
      rcases hdata with ⟨hnil, _⟩ | ⟨txTimestamp, hone, _⟩
      · rw [hnil] at hx
        cases hx
      · rw [hone] at hx
        rw [List.mem_singleton.mp hx]
        change f.sender.seqNum ≠ -1111
        omega
    · rw [(hprobes x hx).1]
      decide

theorem PlainInv.afterReceiver {f : PlainFlow κ} (h : PlainInv program c f) {a : PlainAction}
    {r : PlainReceiver × List TCPHeader} (harrives : a.Arrives f.toReceiver)
    (hr : plainStep program f.receiver a = some r)
    (htraces : TracesOwn c (f.afterReceiver r).toFlow) :
    PlainInv program c (f.afterReceiver r) := by
  refine ⟨htraces, h.control, fun hprogram x hx => ?_⟩
  have hold := h.dummies hprogram
  rcases List.mem_cons.mp hx with rfl | hx
  · change r.1.buff.seqNum ≠ -1111
    rcases seqNum_plainStep hr with hsame | ⟨header, receiverTimestamp, ackT, rfl, hnew⟩
    · rw [hsame]
      exact hold _ List.mem_cons_self
    · rw [hnew]
      exact hold header (List.mem_cons_of_mem _ harrives)
  · exact hold x (List.mem_cons_of_mem _ hx)

/-- A step is a run over `copa_rx_fix` with the same step of the sender, or none. -/
theorem PlainInv.step {f g : PlainFlow κ} (h : PlainInv program c f) (hflow : c.flowId ≠ -1)
    {ok : Sender κ → SendAction → Prop} {a : PlainFlowAction} (hok : OnPlainSender ok f a)
    (hstep : plainFlowStep program cc c f a = some g) : PlainInv program c g ∧
      ∃ bs, RunsTo (flowStep cc c) (OnSender ok) f.toFlow bs g.toFlow ∧
        bs.filterMap FlowAction.ofSender = a.ofSender.toList := by
  cases a with
  | sender b =>
    rw [plainFlowStep] at hstep
    split_ifs at hstep with harrives
    obtain ⟨r, hr, rfl⟩ := Option.map_eq_some_iff.mp hstep
    have hbatch : flowStep cc c f.toFlow (.sender b) = some (f.afterSender r).toFlow := by
      rw [flowStep, if_pos (show b.Arrives f.toFlow.toSender from harrives)]
      exact congrArg (Option.map f.toFlow.afterSender) hr
    refine ⟨h.afterSender hflow hr (tracesOwn_step h.traces hbatch), [.sender b], ?_, rfl⟩
    exact RunsTo.cons hok hbatch (runsTo_nil (flowStep cc c) _ _)
  | receiver b =>
    rw [plainFlowStep] at hstep
    split_ifs at hstep with harrives
    obtain ⟨r, hr, rfl⟩ := Option.map_eq_some_iff.mp hstep
    have hbatch : run (flowStep cc c) f.toFlow (program.batchActions f.receiver b) =
        some (f.afterReceiver r).toFlow := run_batchActions harrives h.dummies hr
    have htraces : TracesOwn c (f.afterReceiver r).toFlow :=
      run_invariant (flowStep cc c) (TracesOwn c) (fun _ _ _ ht hs => tracesOwn_step ht hs)
        h.traces hbatch
    refine ⟨h.afterReceiver harrives hr htraces, _, ⟨hbatch, ?_⟩, ?_⟩
    -- neither of the two actions is one of the sender
    · cases b with
      | receive => exact ⟨trivial, fun _ _ => ⟨trivial, fun _ _ => trivial⟩⟩
      | exit => exact ⟨trivial, fun _ _ => ⟨trivial, fun _ _ => trivial⟩⟩
    · cases b with
      | receive => rfl
      | exit => rfl

/-- In every run of a flow over `copa_rx` or `receiver` the sender goes through the same steps as
in a run over `copa_rx_fix`, so that all that holds of those holds here. What it accepts are
echoes of data packets of the flow only: without keep-alives nothing else has its ids. -/
theorem plain_flow_refines_batches {f g : PlainFlow κ} {actions : List PlainFlowAction}
    {ok : Sender κ → SendAction → Prop} (hflow : c.flowId ≠ -1)
    (hstart : PlainStart program cc c f)
    (hrun : RunsTo (plainFlowStep program cc c) (OnPlainSender ok) f actions g) :
    (∃ bs, RunsTo (flowStep cc c) (OnSender ok) f.toFlow bs g.toFlow ∧
      bs.filterMap FlowAction.ofSender = actions.filterMap PlainFlowAction.ofSender) ∧
    ∀ x ∈ g.accepted, 0 ≤ x.header.seqNum ∧ x.header.seqNum < g.sender.seqNum ∧
      ∃ p ∈ g.sent, EchoOf p x.header := by
  obtain ⟨hinv, hbatches⟩ := RunsTo.refines PlainFlow.toFlow (PlainInv program c)
    PlainFlowAction.ofSender FlowAction.ofSender (fun _ _ _ h hok hstep => h.step hflow hok hstep)
    (plainInv_start hstart) hrun
  refine ⟨hbatches, fun x hx => ?_⟩
  obtain ⟨hown, p, hp | hp, hecho⟩ := hinv.traces.accepted x hx
  · obtain ⟨hnonneg, hlt⟩ := hinv.traces.inv.sent p hp
    rw [← hecho.seqNum] at hnonneg hlt
    exact ⟨hnonneg, hlt, p, hp, hecho⟩
  · exact absurd (hecho.own hown) (hinv.control p hp)

end

/-- A flow over `receiver` that starts with an empty network. -/
def plainFlow : PlainFlow Unit where
  sender := ⟨(), 0, -1, 0, 0, 0, 0, 0, 0, handshakeHeader, .head⟩
  receiver := ⟨handshakeHeader, false⟩
  toReceiver := []
  toSender := []
  sent := []
  control := []
  accepted := []

/-- The first packet is sent, echoed and acknowledged, and the receiver is stopped. -/
def plainActions : List PlainFlowAction :=
  [.sender (.enter 1), .sender (.transmit 100), .sender (.stopTransmitting 110 2),
    .receiver (.receive firstPacket 3 200),
    .sender (.receive { firstPacket with receiverTimestamp := 3 } 4), .receiver (.exit 5 300)]

theorem plain_flow_refines_batches_echo : ∃ g,
    run (plainFlowStep .receiver onePacket secondFlow) plainFlow plainActions = some g ∧
    ((∃ bs, RunsTo (flowStep onePacket secondFlow) (OnSender fun _ _ => True) plainFlow.toFlow bs
        g.toFlow ∧
      bs.filterMap FlowAction.ofSender = plainActions.filterMap PlainFlowAction.ofSender) ∧
    ∀ x ∈ g.accepted, 0 ≤ x.header.seqNum ∧ x.header.seqNum < g.sender.seqNum ∧
      ∃ p ∈ g.sent, EchoOf p x.header) := by
  have hrun := (Option.some_get (x := run (plainFlowStep .receiver onePacket secondFlow) plainFlow
    plainActions) (by decide +kernel)).symm
  have hstart : PlainStart .receiver onePacket secondFlow plainFlow :=
    ⟨⟨⟨(), handshakeHeader, 0, 0, rfl⟩, rfl, rfl, by decide⟩, rfl, by decide, fun _ => by decide⟩
  refine ⟨_, hrun, plain_flow_refines_batches (by decide) hstart ⟨hrun, ?_⟩⟩
  refine runMeets_of_forall _ (fun g a => ?_) plainFlow plainActions
  cases a with
  | sender b => trivial
  | receiver b => trivial

end CopaNgscope
