import Mathlib.Data.List.Range
import CopaNgscope.SenderPacing

/-! How many packets of a flow are not covered by an ACK. The sending loop lets out five windows,
and the train that it is in. -/
namespace CopaNgscope
open RunInvariant

section
variable {κ : Type*} {cc : CongCtrl κ} {c : FlowConfig}

/-! ### The window -/

/-- The window when a packet is sent. -/
def WindowAtMost (cc : CongCtrl κ) (w : ℚ) (s : Sender κ) : SendAction → Prop
  | .transmit _ => cc.getTheWindow s.congctrl ≤ w
  | _ => True

instance (w : ℚ) (s : Sender κ) : DecidablePred (WindowAtMost cc w s)
  | .transmit _ => inferInstanceAs (Decidable (cc.getTheWindow s.congctrl ≤ w))
  | .enter _ | .stopTransmitting _ _ | .timedOut _ | .receive _ _ | .receiveError _ | .finish _ =>
    isTrue trivial

/-- The train that is being sent ends at most five windows, and its own length, after the largest
ACK. -/
def TrainInWindow (c : FlowConfig) (w : ℚ) (s : Sender κ) : Prop :=
  (trainEnd c.trainLength s.seqNum:ℚ) < s.largestAck+1+5*w+c.trainLength

theorem trainInWindow_transmit {w : ℚ} {s : Sender κ} (hpos : 1 ≤ c.trainLength)
    (h : TrainInWindow c w s) (hmay : MayTransmit cc c s)
    (hw : cc.getTheWindow s.congctrl ≤ w) :
    (trainEnd c.trainLength (s.seqNum+1):ℚ) < s.largestAck+1+5*w+c.trainLength := by
  by_cases hdvd : c.trainLength ∣ s.seqNum
  · have hfree := hmay.resolve_right (fun hne => not_dvd_of_tmod_ne hne hdvd)
    rw [trainEnd_succ_of_dvd hpos hdvd]
    push_cast
    linarith [hfree.1]
  · -- the loop does not look at the window inside a train
    rw [trainEnd_succ_of_not_dvd hpos hdvd]
    exact h

theorem trainInWindow_step {w : ℚ} {s : Sender κ} {a : SendAction} {r : SendOutcome κ}
    (hpos : 1 ≤ c.trainLength) (hw : 0 ≤ w) (hwhole : WholeTrains c s)
    (h : TrainInWindow c w s) (hwindow : WindowAtMost cc w s a)
    (hr : sendStep cc c s a = some r) : TrainInWindow c w r.sender := by
  -- a step that sends nothing, and does not lower the largest ACK
  have hquiet (hseq : r.sender.seqNum = s.seqNum) (hack : s.largestAck ≤ r.sender.largestAck) :
      TrainInWindow c w r.sender := by
    have hcast : (s.largestAck:ℚ) ≤ r.sender.largestAck := Int.cast_le.mpr hack
    unfold TrainInWindow at h ⊢
    rw [hseq]
    linarith
  have hack {now : ℚ} {u : Sender κ} (hu : takeAck cc c u now = some r)
      (hseq : u.seqNum = s.seqNum) (hlargest : u.largestAck = s.largestAck) :
      TrainInWindow c w r.sender := by
    obtain ⟨hseq', -, -, hlargest'⟩ := takeAck_fields hu
    refine hquiet (hseq'.trans hseq) ?_
    rw [hlargest', hlargest]
    split_ifs
    · exact le_max_left _ _
    · exact le_refl _
  cases a with
  | enter now =>
    rw [sendStep] at hr
    split_ifs at hr with hcond
    obtain ⟨t, ht, rfl⟩ := Option.map_eq_some_iff.mp hr
    obtain ⟨hseq, -, hsame | hwritten⟩ := enterLoop_fields ht
    · exact hquiet hseq hsame.ge
    · -- what is in flight is written off
      have hlength : (1:ℚ) ≤ c.trainLength := by exact_mod_cast hpos
      have hphase : s.phase ≠ .sending := by
        rw [hcond.1]
        exact SendPhase.noConfusion
      unfold TrainInWindow
      rw [hseq, hwritten, trainEnd_of_dvd (hwhole hphase)]
      push_cast
      linarith
  | transmit txTimestamp =>
    rw [sendStep] at hr
    split_ifs at hr with hcond
    cases hr
    exact trainInWindow_transmit hpos h hcond.2 hwindow
  | stopTransmitting txTimestamp now =>
    rw [sendStep] at hr
    split_ifs at hr
    · cases hr
      exact h
    · cases hr
      exact h
  | timedOut now =>
    rw [sendStep] at hr
    split_ifs at hr
    cases hr
    exact h
  | receive header now =>
    rw [sendStep] at hr
    split_ifs at hr
    exact hack hr rfl rfl
  | receiveError now =>
    rw [sendStep] at hr
    split_ifs at hr
    exact hack hr rfl rfl
  | finish now =>
    rw [sendStep] at hr
    split_ifs at hr
    cases hr
    exact h

/-! ### The largest ACK -/

/-- Nothing that the sender may take for an ACK has a number that was not sent. -/
structure AcksBehind (c : FlowConfig) (f : Flow κ) : Prop where
  inv : FlowInv c f
  buf : c.Own f.sender.buf → f.sender.buf.seqNum < f.sender.seqNum
  largestAck : f.sender.largestAck ≤ f.sender.seqNum

theorem acksBehind_heard {s : Sender κ} {r : SendOutcome κ} {now : ℚ}
    (hr : takeAck cc c s now = some r) (hbuf : c.Own s.buf → s.buf.seqNum < s.seqNum)
    (hack : s.largestAck ≤ s.seqNum) :
    (c.Own r.sender.buf → r.sender.buf.seqNum < r.sender.seqNum) ∧
      r.sender.largestAck ≤ r.sender.seqNum := by
  obtain ⟨hseq, hsame, -, hlargest⟩ := takeAck_fields hr
  rw [hseq, hsame, hlargest]
  refine ⟨hbuf, ?_⟩
  split_ifs with hown
  · exact max_le hack (hbuf hown)
  · exact hack

theorem acksBehind_sender {f : Flow κ} {a : SendAction} {r : SendOutcome κ}
    (h : AcksBehind c f) (harrives : a.Arrives f.toSender)
    (hr : sendStep cc c f.sender a = some r) :
    (c.Own r.sender.buf → r.sender.buf.seqNum < r.sender.seqNum) ∧
      r.sender.largestAck ≤ r.sender.seqNum := by
  have hack := h.largestAck
  cases a with
  | enter now =>
    rw [sendStep] at hr
    split_ifs at hr
    obtain ⟨t, ht, rfl⟩ := Option.map_eq_some_iff.mp hr
    obtain ⟨hseq, hbuf, hlargest⟩ := enterLoop_fields ht
    have hle : t.largestAck ≤ f.sender.seqNum := by omega
    rw [hseq, hbuf]
    exact ⟨h.buf, hle⟩
  | transmit txTimestamp =>
    rw [sendStep] at hr
    split_ifs at hr
    cases hr
    exact ⟨fun _ => Int.lt_succ _, hack.trans (Int.le_add_one le_rfl)⟩
  | stopTransmitting txTimestamp now =>
    rw [sendStep] at hr
    split_ifs at hr
    · cases hr
      have hnonneg := h.inv.seqNum_nonneg
      exact ⟨fun _ => (show (-1:ℤ) < f.sender.seqNum by omega), hack⟩
    · cases hr
      exact ⟨h.buf, hack⟩
  | timedOut now =>
    rw [sendStep] at hr
    split_ifs at hr
    cases hr
    exact ⟨h.buf, hack⟩
  | receive header now =>
    rw [sendStep] at hr
    split_ifs at hr
    refine acksBehind_heard hr (fun hown => ?_) hack
    -- it was on the network, and goes back to a data packet or to a negative number
    have hmem : header ∈ f.headers := Flow.mem_headers.mpr (Or.inr (Or.inl harrives))
    obtain ⟨p, hp | hp, hecho⟩ := h.inv.headers header hmem hown
    · have hlt := (h.inv.sent p hp).2
      rwa [← hecho.seqNum] at hlt
    · have hneg := h.inv.control p hp
      rw [← hecho.seqNum] at hneg
      exact hneg.trans_le h.inv.seqNum_nonneg
  | receiveError now =>
    rw [sendStep] at hr
    split_ifs at hr
    exact acksBehind_heard hr h.buf hack
  | finish now =>
    rw [sendStep] at hr
    split_ifs at hr
    cases hr
    exact ⟨h.buf, hack⟩

theorem acksBehind_step {f f' : Flow κ} {a : FlowAction} (h : AcksBehind c f)
    (hstep : flowStep cc c f a = some f') : AcksBehind c f' := by
  have hinv := flowInv_step h.inv (flowStep_spec hstep)
  cases a with
  | sender b =>
    rw [flowStep] at hstep
    split_ifs at hstep with harrives
    obtain ⟨r, hr, rfl⟩ := Option.map_eq_some_iff.mp hstep
    obtain ⟨hbuf, hack⟩ := acksBehind_sender h harrives hr
    exact ⟨hinv, hbuf, hack⟩
  | client b =>
    rcases flowStep_cases hstep with
      ⟨_, _, hb, _⟩ | ⟨_, _, _, _, _, _, _, rfl⟩ | ⟨_, _, _, hb, _⟩
    · cases hb
    · exact ⟨hinv, h.buf, h.largestAck⟩
    · cases hb
  | batch b =>
    rcases flowStep_cases hstep with
      ⟨_, _, hb, _⟩ | ⟨_, _, _, hb, _⟩ | ⟨_, _, _, _, _, _, _, rfl⟩
    · cases hb
    · cases hb
    · exact ⟨hinv, h.buf, h.largestAck⟩

/-! ### What is in flight -/

/-- The packets are numbered from 0, and no number is sent twice. -/
theorem flow_sent_numbers {f f' : Flow κ} {actions : List FlowAction} (hstart : FlowStart cc c f)
    (hrun : run (flowStep cc c) f actions = some f') :
    f'.sent.map TCPHeader.seqNum = (List.range f'.sent.length).map Int.ofNat ∧
      (f'.sent.length:ℤ) = f'.sender.seqNum := by
  refine run_invariant (flowStep cc c) (fun g => g.sent.map TCPHeader.seqNum =
    (List.range g.sent.length).map Int.ofNat ∧ (g.sent.length:ℤ) = g.sender.seqNum) ?_ ?_ hrun
  · intro g a g' hg hstep
    obtain ⟨hnumbers, hlength⟩ := hg
    rcases (flowStep_spec hstep).sent with ⟨hsent, hseq⟩ | ⟨p, hsent, hp, hseq⟩
    · rw [hsent, hseq]
      exact ⟨hnumbers, hlength⟩
    · rw [hsent, hseq, List.map_append, hnumbers, List.length_append, List.length_singleton,
        List.range_succ, List.map_append, List.map_singleton, List.map_singleton, hp, ← hlength]
      exact ⟨rfl, Nat.cast_succ _⟩
  · rw [hstart.sent, (flowStart_sender hstart).1]
    exact ⟨rfl, rfl⟩

/-- The packets that the largest ACK does not cover. -/
def Flow.uncovered (f : Flow κ) : List TCPHeader :=
  f.sent.filter fun p => f.sender.largestAck ≤ p.seqNum

theorem length_filter_range_le (n : ℕ) (k : ℤ) :
    (((List.range n).filter fun i : ℕ => k ≤ (i:ℤ)).length:ℤ) ≤ max 0 (n-k) := by
  induction n with
  | zero => exact le_max_left _ _
  | succ n ih =>
    rw [List.range_succ, List.filter_append, List.length_append]
    push_cast
    by_cases hk : k ≤ (n:ℤ)
    · rw [List.filter_cons_of_pos (by simpa using hk), List.filter_nil, List.length_singleton]
      have hnew : max 0 ((n:ℤ)-k) = n-k := max_eq_right (by omega)
      rw [hnew] at ih
      exact le_max_of_le_right (by push_cast; omega)
    · rw [List.filter_cons_of_neg (by simpa using hk), List.filter_nil, List.length_nil]
      have hnone : max 0 ((n:ℤ)-k) = 0 := max_eq_left (by omega)
      rw [hnone] at ih
      exact le_max_of_le_left (by push_cast; omega)

theorem length_uncovered_le {f : Flow κ}
    (hnumbers : f.sent.map TCPHeader.seqNum = (List.range f.sent.length).map Int.ofNat)
    (hlength : (f.sent.length:ℤ) = f.sender.seqNum)
    (hack : f.sender.largestAck ≤ f.sender.seqNum) :
    (f.uncovered.length:ℤ) ≤ f.sender.seqNum-f.sender.largestAck := by
  have hcount : f.uncovered.length =
      ((List.range f.sent.length).filter fun i : ℕ => f.sender.largestAck ≤ (i:ℤ)).length := by
    have hmap : ((f.sent.map TCPHeader.seqNum).filter fun k => f.sender.largestAck ≤ k).length =
        f.uncovered.length := by
      rw [List.filter_map, List.length_map]
      rfl
    rw [← hmap, hnumbers, List.filter_map, List.length_map]
    rfl
  have hle := length_filter_range_le f.sent.length f.sender.largestAck
  rw [hlength, max_eq_right (sub_nonneg.mpr hack)] at hle
  rw [hcount]
  exact hle

/-- As long as the window is at most `w`, fewer than five of it, a train and one packet are out
without being covered by an ACK, and no ACK is for a packet that was not sent. This holds whatever
the network loses, repeats or reorders, for both receivers and every controller. -/
theorem flow_in_flight_bounded {f f' : Flow κ} {actions : List FlowAction} {w : ℚ}
    (hpos : 1 ≤ c.trainLength) (hw : 0 ≤ w) (hstart : FlowStart cc c f)
    (hbuf : ¬ c.Own f.sender.buf) (hrun : run (flowStep cc c) f actions = some f')
    (hwindow : RunMeets (flowStep cc c) (OnSender (WindowAtMost cc w)) f actions) :
    f'.sender.largestAck ≤ f'.sender.seqNum ∧
      (f'.uncovered.length:ℚ) < 5*w+c.trainLength+1 := by
  obtain ⟨hseq, hlargest, hphase⟩ := flowStart_sender hstart
  have hstart' : TrainInWindow c w f.sender := by
    have hlength : (1:ℚ) ≤ c.trainLength := by exact_mod_cast hpos
    unfold TrainInWindow
    rw [hseq, hlargest, trainEnd_of_dvd (dvd_zero _)]
    push_cast
    linarith
  have htrain := flow_sender_invariant (WindowAtMost cc w)
    (fun s => WholeTrains c s ∧ TrainInWindow c w s)
    (fun s a r h hok hr =>
      ⟨wholeTrains_step h.1 hr, trainInWindow_step hpos hw h.1 h.2 hok hr⟩)
    ⟨flowStart_wholeTrains hstart, hstart'⟩ hwindow hrun
  have hbehind : AcksBehind c f' := by
    refine run_invariant (flowStep cc c) (AcksBehind c) (fun _ _ _ => acksBehind_step) ?_ hrun
    refine ⟨flowInv_of_start hstart, fun hown => absurd hown hbuf, ?_⟩
    rw [hseq, hlargest]
    exact Int.negSucc_lt_zero 0 |>.le
  obtain ⟨hnumbers, hlength⟩ := flow_sent_numbers hstart hrun
  refine ⟨hbehind.largestAck, ?_⟩
  have hcount := length_uncovered_le hnumbers hlength hbehind.largestAck
  have hend : (f'.sender.seqNum:ℚ) ≤ trainEnd c.trainLength f'.sender.seqNum := by
    exact_mod_cast le_trainEnd hpos f'.sender.seqNum
  have hin : (trainEnd c.trainLength f'.sender.seqNum:ℚ) <
      f'.sender.largestAck+1+5*w+c.trainLength := htrain.2
  calc
    (f'.uncovered.length:ℚ) ≤ f'.sender.seqNum-f'.sender.largestAck := by exact_mod_cast hcount
    _ < 5*w+c.trainLength+1 := by linarith

end

/-- One packet is sent and its echo heard. -/
theorem flow_in_flight_bounded_echo : ∃ f',
    run (flowStep onePacket secondFlow) batchFlow
      (echoActions ++ [.sender (.receive firstEcho 4)]) = some f' ∧
    f'.sender.largestAck ≤ f'.sender.seqNum ∧ (f'.uncovered.length:ℚ) < 5*(1/5)+1+1 := by
  have hrun := (Option.some_get (x := run (flowStep onePacket secondFlow) batchFlow
    (echoActions ++ [.sender (.receive firstEcho 4)])) (by decide +kernel)).symm
  have hbound := flow_in_flight_bounded (by decide) (by norm_num) flowStart_batchFlow (by decide)
    hrun (by decide +kernel : RunMeets (flowStep onePacket secondFlow)
      (OnSender (WindowAtMost onePacket (1/5))) batchFlow _)
  exact ⟨_, hrun, hbound.1, by simpa [secondFlow] using hbound.2⟩

end CopaNgscope
