import CopaNgscope.BatchReceiver
import CopaNgscope.NgscopeClientEcho
import CopaNgscope.SendData

/-! One flow of the sender with the receiver it talks to and the network between them, which
loses, delays, reorders and repeats packets. -/
namespace CopaNgscope
open RunInvariant

/-! ### Echoes -/

/-- The fields that the receivers leave as they are. -/
structure EchoOf (p h : TCPHeader) : Prop where
  seqNum : h.seqNum = p.seqNum
  flowId : h.flowId = p.flowId
  srcId : h.srcId = p.srcId
  senderTimestamp : h.senderTimestamp = p.senderTimestamp

instance (p h : TCPHeader) : Decidable (EchoOf p h) :=
  decidable_of_iff (h.seqNum = p.seqNum ∧ h.flowId = p.flowId ∧ h.srcId = p.srcId ∧
    h.senderTimestamp = p.senderTimestamp)
    ⟨fun ⟨h1, h2, h3, h4⟩ => ⟨h1, h2, h3, h4⟩, fun ⟨h1, h2, h3, h4⟩ => ⟨h1, h2, h3, h4⟩⟩

theorem EchoOf.rfl {p : TCPHeader} : EchoOf p p := ⟨Eq.refl _, Eq.refl _, Eq.refl _, Eq.refl _⟩

theorem EchoOf.trans {p h k : TCPHeader} (hp : EchoOf p h) (hh : EchoOf h k) : EchoOf p k :=
  ⟨hh.seqNum.trans hp.seqNum, hh.flowId.trans hp.flowId, hh.srcId.trans hp.srcId,
    hh.senderTimestamp.trans hp.senderTimestamp⟩

theorem EchoOf.own {c : FlowConfig} {p h : TCPHeader} (he : EchoOf p h) (hown : c.Own h) :
    c.Own p :=
  ⟨he.srcId ▸ hown.1, he.flowId ▸ hown.2⟩

theorem echoOf_batchEcho (h : TCPHeader) (t : ℚ) (ackT : UInt64) : EchoOf h (batchEcho h t ackT) :=
  ⟨rfl, rfl, rfl, rfl⟩

theorem echoOf_echoHeader (p : PacketNode) (currTUs : UInt64) :
    EchoOf p.tcpHeader (echoHeader p currTUs) :=
  ⟨rfl, rfl, rfl, rfl⟩

theorem echoOf_receiverTimestamp (h : TCPHeader) (t : ℚ) :
    EchoOf h { h with receiverTimestamp := t } :=
  ⟨rfl, rfl, rfl, rfl⟩

/-! ### The headers of the client -/

/-- The header of an event that sends one. -/
def ClientEvent.sentHeader : ClientEvent → Option TCPHeader
  | .echo _ header => some header
  | .filler header => some header
  | _ => none

def ClientEvent.filledHeader : ClientEvent → Option TCPHeader
  | .filler header => some header
  | _ => none

def ClientState.headers (s : ClientState) : List TCPHeader := s.pktList.map PacketNode.tcpHeader

/-- An inserted node is the only new one. -/
theorem mem_insertNode {ps stay freed : List PacketNode} {x p : PacketNode}
    (h : ngscopeListInsertNodeCheckTime ps x = .inserted stay freed) (hp : p ∈ stay) :
    p ∈ ps ∨ p = x := by
  unfold ngscopeListInsertNodeCheckTime at h
  cases hlast : ps.getLast? with
  | none =>
    rw [hlast] at h
    cases h
    exact Or.inr (List.mem_singleton.mp hp)
  | some last =>
    rw [hlast] at h
    dsimp only at h
    split_ifs at h
    cases h
    have hmem : p ∈ ps ++ [x] := by
      rw [← checkTimeDelay_append x.recvTUs (ps ++ [x])]
      exact List.mem_append_right _ hp
    exact (List.mem_append.mp hmem).imp_right List.mem_singleton.mp

theorem mem_headers_enqueuePkt {s : ClientState} {header h : TCPHeader} {received : UInt32}
    {recvTimeNs : UInt64} (hmem : h ∈ (enqueuePkt s header received recvTimeNs).headers) :
    h ∈ s.headers ∨ h = header := by
  unfold enqueuePkt at hmem
  extract_lets x at hmem
  cases hins : ngscopeListInsertNodeCheckTime s.pktList x with
  | dropped last =>
    rw [hins] at hmem
    exact Or.inl hmem
  | inserted stay freed =>
    rw [hins] at hmem
    obtain ⟨p, hp, rfl⟩ := List.mem_map.mp hmem
    rcases mem_insertNode hins hp with hold | rfl
    · exact Or.inl (List.mem_map_of_mem hold)
    · exact Or.inr rfl

/-- The loop changes the headers of the nodes that it echoes only. -/
theorem mem_headers_sendPktLoop {reTxBuffer : NgscopeReorderingBuf} {currTUs : UInt64}
    {goExit : ℕ → Bool} {k : ℕ} {ps : List PacketNode} {h : TCPHeader}
    (hmem : h ∈ (sendPktLoop reTxBuffer currTUs goExit k ps).1.map PacketNode.tcpHeader) :
    ∃ p ∈ ps, EchoOf p.tcpHeader h := by
  fun_induction sendPktLoop reTxBuffer currTUs goExit k ps with
  | case1 k => cases hmem
  | case2 k p ps hexit =>
    obtain ⟨x, hx, rfl⟩ := List.mem_map.mp hmem
    exact ⟨x, hx, EchoOf.rfl⟩
  | case3 k p ps hexit rest hacked ih =>
    rcases List.mem_cons.mp hmem with rfl | hmem
    · exact ⟨p, List.mem_cons_self, EchoOf.rfl⟩
    · obtain ⟨x, hx, hecho⟩ := ih hmem
      exact ⟨x, List.mem_cons_of_mem _ hx, hecho⟩
  | case4 k p ps hexit rest hacked hsend ih =>
    rcases List.mem_cons.mp hmem with rfl | hmem
    · exact ⟨p, List.mem_cons_self, echoOf_echoHeader p currTUs⟩
    · obtain ⟨x, hx, hecho⟩ := ih hmem
      exact ⟨x, List.mem_cons_of_mem _ hx, hecho⟩
  | case5 k p ps hexit rest hacked hhold ih =>
    rcases List.mem_cons.mp hmem with rfl | hmem
    · exact ⟨p, List.mem_cons_self, EchoOf.rfl⟩
    · obtain ⟨x, hx, hecho⟩ := ih hmem
      exact ⟨x, List.mem_cons_of_mem _ hx, hecho⟩

theorem headers_pktHandling {s t : ClientState} {dciAll : ℕ → NgscopeDci} {newDlReTx : Bool}
    {nofCell : ℕ} (h : pktHandling s dciAll newDlReTx nofCell = some t) :
    t.headers = s.headers := by
  rcases (pktHandling_frame h).2.2 with hlist | ⟨q, hlist⟩
  · rw [ClientState.headers, hlist, ClientState.headers]
  · rw [ClientState.headers, hlist, revertDelay_map _ (fun _ _ _ => rfl), ClientState.headers]

/-- What a step of the client lists is an echo of what was listed, or the packet it receives. -/
theorem mem_headers_clientStep {s t : ClientState} {a : ClientAction} {h : TCPHeader}
    (ht : clientStep s a = some t) (hmem : h ∈ t.headers) :
    (∃ k ∈ s.headers, EchoOf k h) ∨ ∃ received recvTimeNs, a = .enqueue h received recvTimeNs := by
  cases a with
  | enqueue header received recvTimeNs =>
    cases ht
    rcases mem_headers_enqueuePkt hmem with hold | rfl
    · exact Or.inl ⟨h, hold, EchoOf.rfl⟩
    · exact Or.inr ⟨received, recvTimeNs, rfl⟩
  | handle dciAll newDlReTx nofCell =>
    rw [headers_pktHandling ht] at hmem
    exact Or.inl ⟨h, hmem, EchoOf.rfl⟩
  | send currTUs goExit stale =>
    cases ht
    rw [ClientState.headers, (sendPktList_pktList s currTUs goExit stale).2] at hmem
    obtain ⟨p, hp, hecho⟩ := mem_headers_sendPktLoop hmem
    exact Or.inl ⟨p.tcpHeader, List.mem_map_of_mem hp, hecho⟩

/-- The events of one step. -/
def newEvents (s t : ClientState) : List ClientEvent := t.events.drop s.events.length

theorem newEvents_eq {s t : ClientState} {es : List ClientEvent}
    (h : t.events = s.events ++ es) : newEvents s t = es := by
  rw [newEvents, h, List.drop_left]

theorem sendPktList_newEvents {s : ClientState} {currTUs : UInt64} {goExit : ℕ → Bool}
    {stale : TCPHeader} {e : ClientEvent}
    (he : e ∈ newEvents s (sendPktList s currTUs goExit stale)) :
    e ∈ (sendPktLoop s.reTxBuffer currTUs goExit 0 s.pktList).2 ∨
      e = .filler (fillerHeader stale currTUs) := by
  unfold sendPktList at he
  split at he
  · rw [newEvents, List.drop_length] at he
    cases he
  · extract_lets r lastTx at he
    split at he
    · rw [newEvents_eq rfl] at he
      exact (List.mem_append.mp he).imp_right List.mem_singleton.mp
    · rw [newEvents_eq rfl] at he
      exact Or.inl he

/-- What a step of the client sends is the echo of a listed packet, or a filler. -/
theorem newEvents_cases {s t : ClientState} {a : ClientAction} {e : ClientEvent} {h : TCPHeader}
    (ht : clientStep s a = some t) (he : e ∈ newEvents s t) (hh : e.sentHeader = some h) :
    (∃ p ∈ s.pktList, ∃ currTUs, e = .echo p.node (echoHeader p currTUs)) ∨
      ∃ stale currTUs, e = .filler (fillerHeader stale currTUs) := by
  cases a with
  | enqueue header received recvTimeNs =>
    cases ht
    unfold enqueuePkt at he
    extract_lets x at he
    split at he
    · rw [newEvents_eq rfl] at he
      rw [List.mem_singleton.mp he] at hh
      cases hh
    · rw [newEvents_eq rfl] at he
      obtain ⟨p, _, rfl⟩ := List.mem_map.mp he
      cases hh
  | handle dciAll newDlReTx nofCell =>
    rw [newEvents, (pktHandling_frame ht).1, List.drop_length] at he
    cases he
  | send currTUs goExit stale =>
    cases ht
    rcases sendPktList_newEvents he with hloop | rfl
    · obtain ⟨p, hp, rfl | ⟨rfl, _⟩⟩ := sendPktLoop_events _ _ _ _ _ hloop
      · exact Or.inl ⟨p, hp, currTUs, rfl⟩
      · cases hh
    · exact Or.inr ⟨stale, currTUs, rfl⟩

/-! ### The flow -/

/-- The receiver that the flow talks to: the packet client, or the one that echoes batches. -/
inductive EchoReceiver
  | client (s : ClientState)
  | batch (s : BatchReceiver)

/-- The headers that the receiver holds. -/
def EchoReceiver.headers : EchoReceiver → List TCPHeader
  | .client s => s.headers
  | .batch s => s.buff :: s.headerList

/-- The network keeps what was ever put on it; a packet that is lost is never received. `sent` and
`control` are the data packets and the probes, fillers and keep-alives so far. -/
structure Flow (κ : Type*) where
  sender : Sender κ
  receiver : EchoReceiver
  toReceiver : List TCPHeader
  toSender : List TCPHeader
  sent : List TCPHeader
  control : List TCPHeader
  accepted : List AcceptedAck

inductive FlowAction
  | sender (a : SendAction)
  | client (a : ClientAction)
  | batch (a : BatchAction)

/-- What the sender receives is on the network. -/
def SendAction.Arrives (toSender : List TCPHeader) : SendAction → Prop
  | .receive header _ => header ∈ toSender
  | _ => True

instance (toSender : List TCPHeader) :
    ∀ a : SendAction, Decidable (a.Arrives toSender)
  | .receive header _ => inferInstanceAs (Decidable (header ∈ toSender))
  | .enter _ => isTrue trivial
  | .transmit _ => isTrue trivial
  | .stopTransmitting _ _ => isTrue trivial
  | .timedOut _ => isTrue trivial
  | .receiveError _ => isTrue trivial
  | .finish _ => isTrue trivial

/-- The client sets one field of a packet before it is listed. -/
def ClientAction.Arrives (toReceiver : List TCPHeader) : ClientAction → Prop
  | .enqueue header _ _ =>
    ∃ h ∈ toReceiver, header = { h with receiverTimestamp := header.receiverTimestamp }
  | _ => True

instance (toReceiver : List TCPHeader) :
    ∀ a : ClientAction, Decidable (a.Arrives toReceiver)
  | .enqueue header _ _ => inferInstanceAs (Decidable
      (∃ h ∈ toReceiver, header = { h with receiverTimestamp := header.receiverTimestamp }))
  | .handle _ _ _ => isTrue trivial
  | .send _ _ _ => isTrue trivial

def BatchAction.Arrives (toReceiver : List TCPHeader) : BatchAction → Prop
  | .receive header => header ∈ toReceiver
  | _ => True

instance (toReceiver : List TCPHeader) :
    ∀ a : BatchAction, Decidable (a.Arrives toReceiver)
  | .receive header => inferInstanceAs (Decidable (header ∈ toReceiver))
  | .receiveError => isTrue trivial
  | .endBatch _ _ => isTrue trivial

/-- The keep-alive that a step of the batch receiver sends. -/
def BatchReceiver.keepAlives (s : BatchReceiver) : BatchAction → List TCPHeader
  | .endBatch _ currT => if s.headerList = [] then [keepAlive s.buff currT] else []
  | _ => []

section
variable {κ : Type*} (cc : CongCtrl κ) (c : FlowConfig)

def Flow.afterSender (f : Flow κ) (r : SendOutcome κ) : Flow κ :=
  { f with
    sender := r.sender
    toReceiver := f.toReceiver ++ (r.dataSent ++ r.probesSent)
    sent := f.sent ++ r.dataSent
    control := f.control ++ r.probesSent
    accepted := f.accepted ++ r.ack.toList }

def Flow.afterClient (f : Flow κ) (s t : ClientState) : Flow κ :=
  { f with
    receiver := .client t
    toSender := f.toSender ++ (newEvents s t).filterMap ClientEvent.sentHeader
    control := f.control ++ (newEvents s t).filterMap ClientEvent.filledHeader }

def Flow.afterBatch (f : Flow κ) (s : BatchReceiver) (a : BatchAction)
    (r : BatchReceiver × List TCPHeader) : Flow κ :=
  { f with
    receiver := .batch r.1
    toSender := f.toSender ++ r.2
    control := f.control ++ s.keepAlives a }

/-- One party takes a step; what it receives was put on the network before. -/
def flowStep (f : Flow κ) : FlowAction → Option (Flow κ)
  | .sender a =>
    if a.Arrives f.toSender then (sendStep cc c f.sender a).map f.afterSender else none
  | .client a =>
    match f.receiver with
    | .client s =>
      if a.Arrives f.toReceiver then (clientStep s a).map (f.afterClient s) else none
    | .batch _ => none
  | .batch a =>
    match f.receiver with
    | .client _ => none
    | .batch s =>
      if a.Arrives f.toReceiver then (batchStep s a).map (f.afterBatch s a) else none

/-- All headers there are. -/
def Flow.headers (f : Flow κ) : List TCPHeader := f.toReceiver ++ f.toSender ++ f.receiver.headers

variable {cc c}

/-- A step is one of the sender, or one of the receiver that the flow has. -/
theorem flowStep_cases {f f' : Flow κ} {a : FlowAction} (h : flowStep cc c f a = some f') :
    (∃ b r, a = .sender b ∧ sendStep cc c f.sender b = some r ∧ f' = f.afterSender r) ∨
    (∃ b s t, a = .client b ∧ f.receiver = .client s ∧ b.Arrives f.toReceiver ∧
      clientStep s b = some t ∧ f' = f.afterClient s t) ∨
    ∃ b s r, a = .batch b ∧ f.receiver = .batch s ∧ b.Arrives f.toReceiver ∧
      batchStep s b = some r ∧ f' = f.afterBatch s b r := by
  cases a with
  | sender b =>
    rw [flowStep] at h
    split_ifs at h
    obtain ⟨r, hr, rfl⟩ := Option.map_eq_some_iff.mp h
    exact Or.inl ⟨b, r, rfl, hr, rfl⟩
  | client b =>
    cases hs : f.receiver with
    | client s =>
      rw [flowStep, hs] at h
      dsimp only at h
      split_ifs at h with harrives
      obtain ⟨t, ht, rfl⟩ := Option.map_eq_some_iff.mp h
      exact Or.inr (Or.inl ⟨b, s, t, rfl, rfl, harrives, ht, rfl⟩)
    | batch s =>
      rw [flowStep, hs] at h
      cases h
  | batch b =>
    cases hs : f.receiver with
    | client s =>
      rw [flowStep, hs] at h
      cases h
    | batch s =>
      rw [flowStep, hs] at h
      dsimp only at h
      split_ifs at h with harrives
      obtain ⟨r, hr, rfl⟩ := Option.map_eq_some_iff.mp h
      exact Or.inr (Or.inr ⟨b, s, r, rfl, rfl, harrives, hr, rfl⟩)

/-! ### Where headers come from -/

/-- What a step of the batch receiver leaves in its buffer and its list. -/
theorem mem_headers_batchStep {s : BatchReceiver} {a : BatchAction}
    {r : BatchReceiver × List TCPHeader} {k : TCPHeader} (hr : batchStep s a = some r)
    (hmem : k ∈ r.1.buff :: r.1.headerList) :
    (∃ h ∈ s.buff :: s.headerList, EchoOf h k) ∨ a = .receive k ∨ k ∈ s.keepAlives a := by
  cases a with
  | receive header =>
    obtain ⟨t, ht, rfl⟩ := Option.map_eq_some_iff.mp hr
    obtain ⟨hbuff, hlist⟩ := BatchReceiver.list_eq_some ht
    rw [hbuff, hlist] at hmem
    -- the packet is in the buffer and in the list
    have hcases : k = header ∨ k ∈ s.headerList := by
      rcases List.mem_cons.mp hmem with rfl | hmem
      · exact Or.inl rfl
      · rcases List.mem_append.mp hmem with hold | hnew
        · exact Or.inr hold
        · exact Or.inl (List.mem_singleton.mp hnew)
    rcases hcases with rfl | hold
    · exact Or.inr (Or.inl rfl)
    · exact Or.inl ⟨k, List.mem_cons_of_mem _ hold, EchoOf.rfl⟩
  | receiveError =>
    -- the buffer is listed once more
    obtain ⟨t, ht, rfl⟩ := Option.map_eq_some_iff.mp hr
    obtain ⟨hbuff, hlist⟩ := BatchReceiver.list_eq_some ht
    rw [hbuff, hlist, ← List.cons_append] at hmem
    left
    refine ⟨k, ?_, EchoOf.rfl⟩
    rcases List.mem_append.mp hmem with hold | hnew
    · exact hold
    · rw [List.mem_singleton.mp hnew]
      exact List.mem_cons_self
  | endBatch receiverTimestamp currT =>
    rw [batchStep] at hr
    split_ifs at hr with hidle
    · cases hr
      rw [hidle] at hmem
      right
      right
      rw [BatchReceiver.keepAlives, if_pos hidle]
      exact hmem
    · cases hr
      left
      rw [List.mem_singleton.mp hmem]
      rcases buff_echoBatch receiverTimestamp currT s.headerList 0 s.buff with
        heq | ⟨x, hx, t, heq⟩
      · rw [heq]
        exact ⟨s.buff, List.mem_cons_self, EchoOf.rfl⟩
      · rw [heq]
        exact ⟨x, List.mem_cons_of_mem _ hx, echoOf_batchEcho x t currT⟩

/-- What a step of the batch receiver sends. -/
theorem mem_sent_batchStep {s : BatchReceiver} {a : BatchAction}
    {r : BatchReceiver × List TCPHeader} {k : TCPHeader} (hr : batchStep s a = some r)
    (hmem : k ∈ r.2) : (∃ h ∈ s.headerList, EchoOf h k) ∨ k ∈ s.keepAlives a := by
  cases a with
  | receive header =>
    obtain ⟨t, _, rfl⟩ := Option.map_eq_some_iff.mp hr
    cases hmem
  | receiveError =>
    obtain ⟨t, _, rfl⟩ := Option.map_eq_some_iff.mp hr
    cases hmem
  | endBatch receiverTimestamp currT =>
    rw [batchStep] at hr
    split_ifs at hr with hidle
    · cases hr
      right
      rw [BatchReceiver.keepAlives, if_pos hidle]
      exact hmem
    · cases hr
      obtain ⟨x, hx, t, rfl⟩ := mem_echoBatch receiverTimestamp currT hmem
      exact Or.inl ⟨x, hx, echoOf_batchEcho x t currT⟩

/-- The ids of a probe, a filler and a keep-alive, which has those of what was in the buffer. -/
def ControlIds (f : Flow κ) (p : TCPHeader) : Prop :=
  p.flowId = -1 ∨ (p.srcId = 0 ∧ p.flowId = 0) ∨
    ∃ s, f.receiver = .batch s ∧ p.srcId = s.buff.srcId ∧ p.flowId = s.buff.flowId

/-- One step of the flow: the next sequence number goes up with the data packet that is sent,
probes, fillers and keep-alives have negative numbers, and all other headers are echoes of ones
that were there. -/
structure FlowStepSpec (f : Flow κ) (f' : Flow κ) : Prop where
  sent : f'.sent = f.sent ∧ f'.sender.seqNum = f.sender.seqNum ∨
    ∃ p, f'.sent = f.sent ++ [p] ∧ p.seqNum = f.sender.seqNum ∧
      f'.sender.seqNum = f.sender.seqNum+1
  control : ∃ ps, f'.control = f.control ++ ps ∧ ∀ p ∈ ps, p.seqNum < 0 ∧ ControlIds f p
  headers : ∀ k ∈ f'.headers,
    (∃ h ∈ f.headers, EchoOf h k) ∨ k ∈ f'.sent ∨ k ∈ f'.control

theorem Flow.mem_headers {f : Flow κ} {k : TCPHeader} :
    k ∈ f.headers ↔ k ∈ f.toReceiver ∨ k ∈ f.toSender ∨ k ∈ f.receiver.headers := by
  rw [Flow.headers, List.mem_append, List.mem_append, or_assoc]

theorem Flow.afterSender_spec {f : Flow κ} {a : SendAction} {r : SendOutcome κ}
    (hr : sendStep cc c f.sender a = some r) : FlowStepSpec f (f.afterSender r) := by
  obtain ⟨hdata, hprobes⟩ := sendStep_packets hr
  refine ⟨?_, ⟨r.probesSent, rfl, fun p hp => ?_⟩, fun k hk => ?_⟩
  · rcases hdata with ⟨hnil, hseq⟩ | ⟨txTimestamp, hone, hseq⟩
    · left
      refine ⟨?_, hseq⟩
      rw [Flow.afterSender, hnil]
      exact List.append_nil _
    · right
      refine ⟨dataHeader c f.sender txTimestamp, ?_, rfl, hseq⟩
      rw [Flow.afterSender, hone]
  · obtain ⟨hseq, hflow⟩ := hprobes p hp
    rw [hseq]
    exact ⟨Int.negSucc_lt_zero 0, Or.inl hflow⟩
  · rcases Flow.mem_headers.mp hk with hk | hk | hk
    · rcases List.mem_append.mp hk with hold | hnew
      · exact Or.inl ⟨k, Flow.mem_headers.mpr (Or.inl hold), EchoOf.rfl⟩
      · right
        exact (List.mem_append.mp hnew).imp (List.mem_append_right _) (List.mem_append_right _)
    · exact Or.inl ⟨k, Flow.mem_headers.mpr (Or.inr (Or.inl hk)), EchoOf.rfl⟩
    · exact Or.inl ⟨k, Flow.mem_headers.mpr (Or.inr (Or.inr hk)), EchoOf.rfl⟩

theorem Flow.afterClient_spec {f : Flow κ} {s t : ClientState} {a : ClientAction}
    (hs : f.receiver = .client s) (harrives : a.Arrives f.toReceiver)
    (ht : clientStep s a = some t) : FlowStepSpec f (f.afterClient s t) := by
  have hlisted {p : PacketNode} (hp : p ∈ s.pktList) : p.tcpHeader ∈ f.headers := by
    refine Flow.mem_headers.mpr (Or.inr (Or.inr ?_))
    rw [hs]
    exact List.mem_map_of_mem hp
  refine ⟨Or.inl ⟨rfl, rfl⟩, ⟨_, rfl, fun p hp => ?_⟩, fun k hk => ?_⟩
  · obtain ⟨e, he, hfilled⟩ := List.mem_filterMap.mp hp
    have hsent : e.sentHeader = some p := by
      cases e <;> first | exact hfilled | cases hfilled
    rcases newEvents_cases ht he hsent with ⟨x, _, currTUs, rfl⟩ | ⟨stale, currTUs, rfl⟩
    -- an echo is no filler
    · cases hfilled
    · cases hfilled
      exact ⟨Int.negSucc_lt_zero 1110, Or.inr (Or.inl ⟨rfl, rfl⟩)⟩
  · rcases Flow.mem_headers.mp hk with hk | hk | hk
    · exact Or.inl ⟨k, Flow.mem_headers.mpr (Or.inl hk), EchoOf.rfl⟩
    · rcases List.mem_append.mp hk with hold | hnew
      · exact Or.inl ⟨k, Flow.mem_headers.mpr (Or.inr (Or.inl hold)), EchoOf.rfl⟩
      · obtain ⟨e, he, hsent⟩ := List.mem_filterMap.mp hnew
        rcases newEvents_cases ht he hsent with ⟨p, hp, currTUs, rfl⟩ | ⟨stale, currTUs, rfl⟩
        · cases hsent
          exact Or.inl ⟨p.tcpHeader, hlisted hp, echoOf_echoHeader p currTUs⟩
        · right
          right
          exact List.mem_append_right _ (List.mem_filterMap.mpr ⟨_, he, hsent⟩)
    · rcases mem_headers_clientStep ht hk with ⟨h, hh, hecho⟩ | ⟨received, recvTimeNs, rfl⟩
      · obtain ⟨p, hp, rfl⟩ := List.mem_map.mp hh
        exact Or.inl ⟨p.tcpHeader, hlisted hp, hecho⟩
      · -- the packet comes from the network, but for the time that the client writes to it
        obtain ⟨h, hh, heq⟩ := harrives
        left
        refine ⟨h, Flow.mem_headers.mpr (Or.inl hh), ?_⟩
        rw [heq]
        exact echoOf_receiverTimestamp h _

theorem Flow.afterBatch_spec {f : Flow κ} {s : BatchReceiver} {a : BatchAction}
    {r : BatchReceiver × List TCPHeader} (hs : f.receiver = .batch s)
    (harrives : a.Arrives f.toReceiver) (hr : batchStep s a = some r) :
    FlowStepSpec f (f.afterBatch s a r) := by
  have hheld {h : TCPHeader} (hh : h ∈ s.buff :: s.headerList) : h ∈ f.headers := by
    refine Flow.mem_headers.mpr (Or.inr (Or.inr ?_))
    rw [hs]
    exact hh
  refine ⟨Or.inl ⟨rfl, rfl⟩, ⟨s.keepAlives a, rfl, fun p hp => ?_⟩, fun k hk => ?_⟩
  · cases a with
    | receive header => cases hp
    | receiveError => cases hp
    | endBatch receiverTimestamp currT =>
      rw [BatchReceiver.keepAlives] at hp
      split_ifs at hp
      · rw [List.mem_singleton.mp hp]
        exact ⟨Int.negSucc_lt_zero 1110, Or.inr (Or.inr ⟨s, hs, rfl, rfl⟩)⟩
      · cases hp
  · rcases Flow.mem_headers.mp hk with hk | hk | hk
    · exact Or.inl ⟨k, Flow.mem_headers.mpr (Or.inl hk), EchoOf.rfl⟩
    · rcases List.mem_append.mp hk with hold | hnew
      · exact Or.inl ⟨k, Flow.mem_headers.mpr (Or.inr (Or.inl hold)), EchoOf.rfl⟩
      · rcases mem_sent_batchStep hr hnew with ⟨h, hh, hecho⟩ | hkeep
        · exact Or.inl ⟨h, hheld (List.mem_cons_of_mem _ hh), hecho⟩
        · exact Or.inr (Or.inr (List.mem_append_right _ hkeep))
    · rcases mem_headers_batchStep hr hk with ⟨h, hh, hecho⟩ | rfl | hkeep
      · exact Or.inl ⟨h, hheld hh, hecho⟩
      · exact Or.inl ⟨k, Flow.mem_headers.mpr (Or.inl harrives), EchoOf.rfl⟩
      · exact Or.inr (Or.inr (List.mem_append_right _ hkeep))

theorem flowStep_spec {f f' : Flow κ} {a : FlowAction} (h : flowStep cc c f a = some f') :
    FlowStepSpec f f' := by
  rcases flowStep_cases h with
    ⟨b, r, _, hr, rfl⟩ | ⟨b, s, t, _, hs, harrives, ht, rfl⟩ | ⟨b, s, r, _, hs, harrives, hr, rfl⟩
  · exact Flow.afterSender_spec hr
  · exact Flow.afterClient_spec hs harrives ht
  · exact Flow.afterBatch_spec hs harrives hr

end

end CopaNgscope
