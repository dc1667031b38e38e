import CopaNgscope.MarkovianCCCases

/-! Isolation of flows in Copa: what an earlier flow leaves behind after `init` is never read,
except for the clock. The fields that the outcome of a callback depends on are the core of a
state. -/
namespace CopaNgscope
open RunInvariant

namespace MarkovianCC

/-! ### What a flow shows -/

/-- The window and the intersend time after every callback, up to a failed assertion. -/
def outcomes (q : MarkovianCC) : List Callback → List (Except Assertion (ℚ × ℚ))
  | [] => []
  | c :: cs =>
    match q.callback c with
    | .ok t => .ok (t.theWindow, t.intersendTime) :: t.outcomes cs
    | .error x => [.error x]

/-- The callbacks of a flow under way. -/
def Callback.InFlow : Callback → Prop
  | .setTimestamp _ | .onPktSent _ | .onACK _ _ _ => True
  | .init | .setMinRtt _ | .onTimeout => False

/-- The clock is set before the first ACK. -/
def Timestamped : List Callback → Prop
  | .setTimestamp _ :: _ => True
  | .onACK _ _ _ :: _ => False
  | _ :: cs => Timestamped cs
  | [] => True

/-! ### The core of a state -/

/-- In place of the data of a packet in flight, which are only copied. -/
def corePacket : PacketData := ⟨0, 0, 0, 0, 0⟩

/-- A state without the fields that are written but decide nothing. -/
def core (q : MarkovianCC) : MarkovianCC :=
  { q with
    unacknowledgedPackets := q.unacknowledgedPackets.mapValues (fun _ => corePacket)
    rttUnacked := plainEwma 1
    prevIntersendTime := 0
    interarrival := ⟨1/20, []⟩
    isUniform := isUniformDistr 32
    intersendTimeVel := 0
    prevIntersendTimeVel := 0
    prevRtt := 0
    prevRttUpdateTime := 0
    prevAvgSendingRate := 0
    delayBound := 0
    behavior := 0
    interarrivalEwma := plainEwma (1/32)
    prevAckTime := 0
    flowId := 0 }

@[simp] theorem core_core (q : MarkovianCC) : q.core.core = q.core := by
  have hmap : (q.unacknowledgedPackets.mapValues (fun _ => corePacket)).mapValues
      (fun _ => corePacket) = q.unacknowledgedPackets.mapValues (fun _ => corePacket) :=
    OrderedMap.mapValues_mapValues _ _ _
  unfold core
  simp only [hmap]

def coreLoop (r : MarkovianCC × Bool × Bool) : MarkovianCC × Bool × Bool := (r.1.core, r.2)

theorem core_updateInterarrival (q : MarkovianCC) : q.updateInterarrival.core = q.core := by
  unfold updateInterarrival
  split_ifs
  · rfl
  · rfl

theorem ackSample_core (q : MarkovianCC) (sentTime : ℚ) (adjustUs : ℤ) :
    q.core.ackSample sentTime adjustUs = (q.ackSample sentTime adjustUs).map core := by
  unfold ackSample
  extract_lets w' w
  change (if q.curTick ≤ sentTime then _ else if w.getUnjitteredRtt < w.getMinRtt then _ else _) = _
  split_ifs
  · rfl
  · rfl
  · rfl

theorem core_updateDeltaDefault (q : MarkovianCC) (curRtt : ℚ) :
    q.core.updateDeltaDefault curRtt = (q.updateDeltaDefault curRtt).core := by
  unfold updateDeltaDefault
  rw [apply_ite core]
  rfl

theorem core_updateDeltaCompetitive (q : MarkovianCC) (pktLost : Bool) (curRtt : ℚ) :
    q.core.updateDeltaCompetitive pktLost curRtt =
      (q.updateDeltaCompetitive pktLost curRtt).core := by
  unfold updateDeltaCompetitive
  extract_lets d' d
  rw [apply_ite core, apply_ite core]
  rfl

theorem core_updateOperationMode (q : MarkovianCC) (pktLost : Bool) :
    (q.core.updateOperationMode pktLost).core = (q.updateOperationMode pktLost).core := by
  unfold updateOperationMode
  rw [apply_ite core, apply_ite core]
  change (if q.utilityMode = .autoMode then
    { q.core.core with
      operationMode := if q.rttWindow.isCopa then .defaultMode else .lossSensitiveMode }
    else q.core.core) = _
  rw [core_core]
  rfl

theorem core_updateDelta (q : MarkovianCC) (pktLost : Bool) (curRtt : ℚ) :
    (q.core.updateDelta pktLost curRtt).core = (q.updateDelta pktLost curRtt).core := by
  have hcore := core_updateOperationMode q pktLost
  have hoperation : (q.core.updateOperationMode pktLost).operationMode =
      (q.updateOperationMode pktLost).operationMode := (congrArg MarkovianCC.operationMode hcore :)
  have hmode : (q.core.updateOperationMode pktLost).utilityMode =
      (q.updateOperationMode pktLost).utilityMode := (congrArg MarkovianCC.utilityMode hcore :)
  unfold updateDelta
  simp only [apply_ite core, ← core_updateDeltaDefault, ← core_updateDeltaCompetitive, hcore,
    hoperation, hmode]

theorem reduceWindow_core (q : MarkovianCC) (reduce : Bool) :
    q.core.reduceWindow reduce = (q.reduceWindow reduce).core := by
  unfold reduceWindow
  extract_lets r' q' r q''
  rw [apply_ite core]
  rfl

theorem updateAmtPerRtt_core (q : MarkovianCC) :
    q.core.updateAmtPerRtt = q.updateAmtPerRtt.core := by
  unfold updateAmtPerRtt
  rw [apply_ite core]
  rfl

theorem steadyState_core (q : MarkovianCC) (target : ℚ) :
    q.core.steadyState target = (q.steadyState target).core := by
  unfold steadyState
  rw [updateAmtPerRtt_core]
  extract_lets r' r
  rw [apply_ite core]
  rfl

theorem startUp_core (q : MarkovianCC) (target : ℚ) :
    q.core.startUp target = (q.startUp target).map core := by
  unfold startUp
  rw [apply_ite (Except.map core)]
  rfl

theorem updateIntersendTime_core (q : MarkovianCC) :
    q.core.updateIntersendTime = q.updateIntersendTime.map core := by
  have htarget : q.core.targetWindow = q.targetWindow := rfl
  have hset (x : Except Assertion MarkovianCC) :
      ((x.map core).map fun r => r.setIntersendTime r.theWindow q.rttWindow.getUnjitteredRtt) =
        (x.map fun r => r.setIntersendTime r.theWindow q.rttWindow.getUnjitteredRtt).map core := by
    cases x with
    | error x => rfl
    | ok r => rfl
  unfold updateIntersendTime
  rw [apply_ite (Except.map core), htarget, steadyState_core, startUp_core, ← hset,
    apply_ite (Except.map core)]
  rfl

/-! ### Callbacks on states of one core -/

theorem coreLoop_ackVisit {r r' : MarkovianCC × Bool × Bool} (h : coreLoop r = coreLoop r')
    (x x' : PacketData) (lost : Bool) :
    coreLoop (ackVisit r x lost) = coreLoop (ackVisit r' x' lost) := by
  cases lost with
  | false => exact h
  | true =>
    have hvisit (r : MarkovianCC × Bool × Bool) (x : PacketData) :
        coreLoop (ackVisit r x true) = (fun c : MarkovianCC × Bool × Bool =>
          let u := c.1.reduceOnLoss.update true c.1.curTick c.1.rttWindow.getLatestRtt
          ({ c.1 with numPktsLost := c.1.numPktsLost+1, reduceOnLoss := u.1 }, true,
            c.2.2 || u.2)) (coreLoop r) := rfl
    rw [hvisit, hvisit, h]

/-- The loop decides on the keys of its entries. -/
theorem coreLoop_ackLoop (seqNum : ℤ) {xs ys : List (ℤ × PacketData)}
    (hkeys : xs.map Prod.fst = ys.map Prod.fst) (tmp : ℤ) {r r' : MarkovianCC × Bool × Bool}
    (h : coreLoop r = coreLoop r') :
    (ackLoop seqNum xs tmp r).map coreLoop = (ackLoop seqNum ys tmp r').map coreLoop := by
  induction xs generalizing ys tmp r r' with
  | nil =>
    obtain rfl := List.map_eq_nil_iff.mp hkeys.symm
    exact congrArg Except.ok h
  | cons x xs ih =>
    cases ys with
    | nil => cases hkeys
    | cons y ys =>
      rw [List.map_cons, List.map_cons, List.cons.injEq] at hkeys
      rw [ackLoop, ackLoop, ← hkeys.1]
      split_ifs
      · rfl
      · exact congrArg Except.ok h
      · exact ih hkeys.2 _ (coreLoop_ackVisit h _ _ _)

theorem core_eraseAcked {a b : MarkovianCC} (h : a.core = b.core) (seqNum : ℤ) :
    (a.eraseAcked seqNum).map coreLoop = (b.eraseAcked seqNum).map coreLoop := by
  have hmap : a.unacknowledgedPackets.mapValues (fun _ => corePacket) =
      b.unacknowledgedPackets.mapValues (fun _ => corePacket) :=
    (congrArg MarkovianCC.unacknowledgedPackets h :)
  have hkeys : a.unacknowledgedPackets.keys = b.unacknowledgedPackets.keys := by
    simpa using congrArg OrderedMap.keys hmap
  have hstart : coreLoop (a,false,false) = coreLoop (b,false,false) :=
    congrArg (·, false, false) h
  have hloop := coreLoop_ackLoop seqNum hkeys (-1) hstart
  have herase (q : MarkovianCC) (x : Except Assertion (MarkovianCC × Bool × Bool)) :
      (x.map fun r => ({ r.1 with
        unacknowledgedPackets := q.unacknowledgedPackets.eraseLE seqNum }, r.2)).map coreLoop =
      (x.map coreLoop).map fun c => ({ c.1 with
        unacknowledgedPackets :=
          (q.unacknowledgedPackets.mapValues (fun _ => corePacket)).eraseLE seqNum }, c.2) := by
    rw [← OrderedMap.mapValues_eraseLE]
    cases x with
    | error x => rfl
    | ok r => rfl
  unfold eraseAcked
  rw [hkeys]
  split_ifs
  · rw [herase, herase, hloop, hmap]
  · exact congrArg (fun q : MarkovianCC => Except.ok (q, false, false)) h

theorem core_ackTail {a b : MarkovianCC} (h : a.core = b.core) (ack : ℤ) :
    (a.ackTail ack).map core = (b.ackTail ack).map core := by
  have htail (x : Except Assertion (MarkovianCC × Bool × Bool)) :
      (x.map fun r =>
        let q := if r.2.1 then r.1.updateDelta true 0 else r.1
        let q := q.reduceWindow r.2.2
        { q with numPktsAcked := q.numPktsAcked+1 }).map core =
      (x.map coreLoop).map fun c =>
        let q := if c.2.1 then (c.1.updateDelta true 0).core else c.1
        let q := q.reduceWindow c.2.2
        { q with numPktsAcked := q.numPktsAcked+1 } := by
    cases x with
    | error x => rfl
    | ok r =>
      have hdelta : (if r.2.1 then (r.1.core.updateDelta true 0).core else r.1.core) =
          (if r.2.1 then r.1.updateDelta true 0 else r.1).core := by
        rw [apply_ite core, core_updateDelta]
      have hreduce := reduceWindow_core (if r.2.1 then r.1.updateDelta true 0 else r.1) r.2.2
      rw [← hdelta] at hreduce
      exact congrArg (fun q : MarkovianCC =>
        Except.ok { q with numPktsAcked := q.numPktsAcked+1 }) hreduce.symm
  unfold ackTail
  rw [htail, htail, core_eraseAcked h]

/-- Computations that agree up to the core go on so when their continuations do. -/
theorem map_core_bind {x y : Except Assertion MarkovianCC}
    {f g : MarkovianCC → Except Assertion MarkovianCC} (h : x.map core = y.map core)
    (hf : ∀ a b, a.core = b.core → (f a).map core = (g b).map core) :
    (x.bind f).map core = (y.bind g).map core := by
  cases x with
  | error e =>
    cases y with
    | error e' => exact congrArg (Except.map core) (Except.error.inj h ▸ rfl)
    | ok b => cases h
  | ok a =>
    cases y with
    | error e' => cases h
    | ok b => exact hf a b (Except.ok.inj h)

theorem core_onACK {a b : MarkovianCC} (h : a.core = b.core) (ack : ℤ) (sentTime : ℚ)
    (adjustUs : ℤ) :
    (a.onACK ack sentTime adjustUs).map core = (b.onACK ack sentTime adjustUs).map core := by
  have htick : a.curTick = b.curTick := (congrArg MarkovianCC.curTick h :)
  have hrtt : a.currRtt sentTime adjustUs = b.currRtt sentTime adjustUs := by
    rw [currRtt, currRtt, htick]
  have hsample : (a.ackSample sentTime adjustUs).map core =
      (b.ackSample sentTime adjustUs).map core := by
    rw [← ackSample_core, ← ackSample_core, h]
  refine map_core_bind hsample (fun c d hcd => ?_)
  have hentry : (c.updateInterarrival.updateDelta false (a.currRtt sentTime adjustUs)).core =
      (d.updateInterarrival.updateDelta false (b.currRtt sentTime adjustUs)).core := by
    rw [← core_updateDelta, ← core_updateDelta d.updateInterarrival, core_updateInterarrival,
      core_updateInterarrival, hcd, hrtt]
  refine map_core_bind ?_ (fun r s hrs => core_ackTail hrs ack)
  rw [← updateIntersendTime_core, ← updateIntersendTime_core, hentry]

theorem core_onPktSent (q : MarkovianCC) (seqNum : ℤ) :
    (q.onPktSent seqNum).core = { q.core with
      unacknowledgedPackets := q.core.unacknowledgedPackets.insert seqNum corePacket
      numPktsSent := q.core.numPktsSent+1
      intersendTime := q.core.curIntersendTime } := by
  obtain ⟨e, i, v, hframe⟩ := onPktSent_frame q seqNum
  rw [hframe]
  simp only [core, OrderedMap.mapValues_insert]

/-- Two states show the same when their next states do up to a view that keeps what is shown. -/
theorem outcomes_cons (view : MarkovianCC → MarkovianCC)
    (hview : ∀ q, (view q).theWindow = q.theWindow ∧ (view q).intersendTime = q.intersendTime)
    {a b : MarkovianCC} {c : Callback} {cs : List Callback}
    (h : (a.callback c).map view = (b.callback c).map view)
    (hrest : ∀ t u, a.callback c = .ok t → b.callback c = .ok u → view t = view u →
      t.outcomes cs = u.outcomes cs) :
    a.outcomes (c :: cs) = b.outcomes (c :: cs) := by
  unfold outcomes
  cases ha : a.callback c with
  | error x =>
    cases hb : b.callback c with
    | error y =>
      rw [ha, hb] at h
      exact congrArg (fun x => [Except.error x]) (Except.error.inj h)
    | ok u => rw [ha, hb] at h; cases h
  | ok t =>
    cases hb : b.callback c with
    | error y => rw [ha, hb] at h; cases h
    | ok u =>
      rw [ha, hb] at h
      have htu : view t = view u := Except.ok.inj h
      have hwindow : t.theWindow = u.theWindow := by rw [← (hview t).1, htu, (hview u).1]
      have hintersend : t.intersendTime = u.intersendTime := by
        rw [← (hview t).2, htu, (hview u).2]
      simp only [hwindow, hintersend, hrest t u ha hb htu]

theorem core_callback {a b : MarkovianCC} (h : a.core = b.core) {c : Callback} (hc : c.InFlow) :
    (a.callback c).map core = (b.callback c).map core := by
  cases c with
  | setTimestamp now => exact congrArg (fun q => Except.ok { q with curTick := now }) h
  | onPktSent seqNum =>
    refine congrArg Except.ok ?_
    rw [core_onPktSent, core_onPktSent, h]
  | onACK ack sentTime adjustUs => exact core_onACK h ack sentTime adjustUs
  | init => exact hc.elim
  | setMinRtt x => exact hc.elim
  | onTimeout => exact hc.elim

/-- States of one core show the same. -/
theorem outcomes_core {a b : MarkovianCC} (h : a.core = b.core) {cs : List Callback}
    (hcs : ∀ c ∈ cs, c.InFlow) : a.outcomes cs = b.outcomes cs := by
  induction cs generalizing a b with
  | nil => rfl
  | cons c cs ih =>
    obtain ⟨hc, hcs⟩ := List.forall_mem_cons.mp hcs
    exact outcomes_cons core (fun q => ⟨rfl, rfl⟩) (core_callback h hc)
      (fun t u _ _ htu => ih htu hcs)

/-! ### Before the first ACK -/

/-- Delta has not been updated since `init`. -/
def Fresh (q : MarkovianCC) : Prop := q.prevDeltaUpdateTime = 0 ∧ q.operationMode = .defaultMode

/-- A state without what the first ACK overwrites. -/
def beforeAck (q : MarkovianCC) : MarkovianCC :=
  { q with delta := 0, rttWindow := { q.rttWindow with latestRtt := 0 } }

theorem updateDelta_fresh {q : MarkovianCC} (h : q.Fresh) (curRtt : ℚ) :
    updateDelta { q with delta := 0 } false curRtt = q.updateDelta false curRtt := by
  obtain ⟨htime, hmode⟩ := h
  -- before the first update of delta either branch sets it without reading it
  have hdefault (o : OperationMode) :
      updateDeltaDefault { q with delta := 0, operationMode := o } curRtt =
        updateDeltaDefault { q with operationMode := o } curRtt := by
    unfold updateDeltaDefault
    rw [if_pos (Or.inl htime), if_pos (Or.inl htime), min_toward_default, min_toward_default]
  have hcompetitive (o : OperationMode) :
      updateDeltaCompetitive { q with delta := 0, operationMode := o } false curRtt =
        updateDeltaCompetitive { q with operationMode := o } false curRtt := by
    unfold updateDeltaCompetitive
    simp only [htime, if_true]
  -- and one of the two branches is taken, whatever the configuration
  have hcases : ∀ o : OperationMode, o = (if q.utilityMode = .autoMode then
      if q.rttWindow.isCopa then .defaultMode else .lossSensitiveMode else q.operationMode) →
      o = .defaultMode ∨ o = .lossSensitiveMode := by
    rintro o rfl
    split_ifs
    · exact Or.inl rfl
    · exact Or.inr rfl
    · exact Or.inl hmode
  unfold updateDelta
  rw [updateOperationMode_false, updateOperationMode_false]
  generalize ho : (if q.utilityMode = .autoMode then
    if q.rttWindow.isCopa then OperationMode.defaultMode else .lossSensitiveMode
    else q.operationMode) = o
  simp only [hdefault, hcompetitive]
  split_ifs with h1 h2
  · rfl
  · rfl
  · rcases hcases o ho.symm with rfl | rfl
    · exact absurd ⟨rfl, fun hcoop => h2 (Or.inl hcoop)⟩ h1
    · exact absurd (Or.inr rfl) h2

theorem onACK_beforeAck {q : MarkovianCC} (h : q.Fresh) (ack : ℤ) (sentTime : ℚ) (adjustUs : ℤ) :
    q.beforeAck.onACK ack sentTime adjustUs = q.onACK ack sentTime adjustUs := by
  -- the sample overwrites the latest RTT, so only delta still differs after it
  have hsample : q.beforeAck.ackSample sentTime adjustUs =
      (q.ackSample sentTime adjustUs).map (fun r => { r with delta := 0 }) := by
    unfold ackSample
    extract_lets w' w
    change (if q.curTick ≤ sentTime then _
      else if w.getUnjitteredRtt < w.getMinRtt then _ else _) = _
    split_ifs
    · rfl
    · rfl
    · rfl
  cases ha : q.ackSample sentTime adjustUs with
  | error x =>
    unfold onACK
    rw [hsample, ha]
    rfl
  | ok a =>
    have hfresh : a.updateInterarrival.Fresh := by
      obtain ⟨_, rfl⟩ := ackSample_eq_ok ha
      obtain ⟨e, i, t, hframe⟩ := updateInterarrival_frame { q with
        rttWindow := q.rttWindow.newRttSample (q.currRtt sentTime adjustUs) q.curTick
        minRtt := (q.rttWindow.newRttSample (q.currRtt sentTime adjustUs) q.curTick).getMinRtt }
      rw [hframe]
      exact h
    have hinterarrival : updateInterarrival { a with delta := 0 } =
        { a.updateInterarrival with delta := 0 } := by
      unfold updateInterarrival
      split_ifs
      · rfl
      · rfl
    rw [onACK_of_ackSample ha, onACK_of_ackSample (hsample.trans (congrArg _ ha)), hinterarrival,
      updateDelta_fresh hfresh]
    rfl

theorem fresh_onPktSent {q : MarkovianCC} (h : q.Fresh) (seqNum : ℤ) :
    (q.onPktSent seqNum).Fresh := by
  obtain ⟨e, i, v, hframe⟩ := onPktSent_frame q seqNum
  rw [hframe]
  exact h

theorem core_beforeAck_onPktSent (q : MarkovianCC) (seqNum : ℤ) :
    (q.onPktSent seqNum).beforeAck.core = { q.beforeAck.core with
      unacknowledgedPackets := q.beforeAck.core.unacknowledgedPackets.insert seqNum corePacket
      numPktsSent := q.beforeAck.core.numPktsSent+1
      intersendTime := q.beforeAck.core.curIntersendTime } :=
  congrArg beforeAck (core_onPktSent q seqNum)

/-- States that differ in what the first ACK overwrites show the same. -/
theorem outcomes_beforeAck {a b : MarkovianCC} (h : a.beforeAck.core = b.beforeAck.core)
    (ha : a.Fresh) (hb : b.Fresh) {cs : List Callback} (hcs : ∀ c ∈ cs, c.InFlow) :
    a.outcomes cs = b.outcomes cs := by
  induction cs generalizing a b with
  | nil => rfl
  | cons c cs ih =>
    obtain ⟨hc, hrest⟩ := List.forall_mem_cons.mp hcs
    cases c with
    | setTimestamp now =>
      have hnext := congrArg (fun q : MarkovianCC => { q with curTick := now }) h
      refine outcomes_cons (fun q => q.beforeAck.core) (fun q => ⟨rfl, rfl⟩)
        (congrArg Except.ok hnext) ?_
      rintro t u ⟨⟩ ⟨⟩ htu
      exact ih htu ha hb hrest
    | onPktSent seqNum =>
      have hnext : (a.onPktSent seqNum).beforeAck.core = (b.onPktSent seqNum).beforeAck.core := by
        rw [core_beforeAck_onPktSent, core_beforeAck_onPktSent, h]
      refine outcomes_cons (fun q => q.beforeAck.core) (fun q => ⟨rfl, rfl⟩)
        (congrArg Except.ok hnext) ?_
      rintro t u ⟨⟩ ⟨⟩ htu
      exact ih htu (fresh_onPktSent ha seqNum) (fresh_onPktSent hb seqNum) hrest
    | onACK ack sentTime adjustUs =>
      -- the ACK overwrites the rest, so the next states have one core
      refine outcomes_cons core (fun q => ⟨rfl, rfl⟩) ?_
        (fun t u _ _ htu => outcomes_core htu hrest)
      change (a.onACK ack sentTime adjustUs).map core = (b.onACK ack sentTime adjustUs).map core
      rw [← onACK_beforeAck ha, ← onACK_beforeAck hb]
      exact core_onACK h ack sentTime adjustUs
    | init => exact hc.elim
    | setMinRtt x => exact hc.elim
    | onTimeout => exact hc.elim

/-! ### Before the clock is set -/

/-- A state without what the first ACK overwrites, and without its clock. -/
def early (q : MarkovianCC) : MarkovianCC := { q.beforeAck.core with curTick := 0 }

theorem outcomes_early {a b : MarkovianCC} (h : a.early = b.early) (ha : a.Fresh) (hb : b.Fresh)
    {cs : List Callback} (hcs : ∀ c ∈ cs, c.InFlow) (htime : Timestamped cs) :
    a.outcomes cs = b.outcomes cs := by
  induction cs generalizing a b with
  | nil => rfl
  | cons c cs ih =>
    obtain ⟨hc, hrest⟩ := List.forall_mem_cons.mp hcs
    cases c with
    | setTimestamp now =>
      -- from here on the clocks agree
      have hnext := congrArg (fun q : MarkovianCC => { q with curTick := now }) h
      refine outcomes_cons (fun q => q.beforeAck.core) (fun q => ⟨rfl, rfl⟩)
        (congrArg Except.ok hnext) ?_
      rintro t u ⟨⟩ ⟨⟩ htu
      exact outcomes_beforeAck htu ha hb hrest
    | onPktSent seqNum =>
      have hearly (q : MarkovianCC) : (q.onPktSent seqNum).early = { q.early with
          unacknowledgedPackets := q.early.unacknowledgedPackets.insert seqNum corePacket
          numPktsSent := q.early.numPktsSent+1
          intersendTime := q.early.curIntersendTime } :=
        congrArg (fun q : MarkovianCC => { q with curTick := 0 })
          (core_beforeAck_onPktSent q seqNum)
      refine outcomes_cons early (fun q => ⟨rfl, rfl⟩)
        (congrArg Except.ok (by rw [hearly, hearly, h])) ?_
      rintro t u ⟨⟩ ⟨⟩ htu
      exact ih htu (fresh_onPktSent ha seqNum) (fresh_onPktSent hb seqNum) hrest htime
    | onACK ack sentTime adjustUs => exact htime.elim
    | init => exact hc.elim
    | setMinRtt x => exact hc.elim
    | onTimeout => exact hc.elim

/-! ### A new flow -/

theorem clear_of_kinds {w w' : RTTWindow} (h : w.Kinds) (h' : w'.Kinds) :
    { w.clear with latestRtt := 0 } = { w'.clear with latestRtt := 0 } := by
  obtain ⟨h1, h2, h3, h4⟩ := h
  obtain ⟨h1', h2', h3', h4'⟩ := h'
  simp only [RTTWindow.clear, ExtremeWindow.clear, h1, h2, h3, h4, h1', h2', h3', h4']

/-- After `init` only the configuration and the external minimum are left of a state. -/
theorem early_init {q q' : MarkovianCC} (hkinds : q.rttWindow.Kinds) (hkinds' : q'.rttWindow.Kinds)
    (hmode : q.utilityMode = q'.utilityMode) (hslow : q.doSlowStart = q'.doSlowStart)
    (hkeep : q.keepExtMinRtt = q'.keepExtMinRtt) (hdefault : q.defaultDelta = q'.defaultDelta)
    (hmin : q.externalMinRtt = q'.externalMinRtt) : q.init.early = q'.init.early := by
  have hclear := clear_of_kinds hkinds hkinds'
  have hwindow : q.init.beforeAck.rttWindow = q'.init.beforeAck.rttWindow := hclear
  unfold early core
  rw [hwindow]
  unfold beforeAck init
  simp only [hmode, hslow, hkeep, hdefault, hmin]

theorem kinds_reached {delta : ℚ} {flowId : ℤ} {config : List Char} {q u : MarkovianCC}
    (hq : (markovianCC delta flowId).interpretConfigStr config = .ok q) {cs : List Callback}
    (hrun : run step q cs = some u) : u.rttWindow.Kinds := by
  obtain ⟨k, m, d, v, b, c, rfl⟩ := interpretConfigStr_frame hq
  exact (sameConfig_run hrun).kinds ⟨rfl, rfl, rfl, rfl⟩

/-- Two flows that set the clock before their first ACK show the same after `init`, whatever ran
before, when the configuration and the external minimum RTT agree. -/
theorem flows_isolated {delta delta' : ℚ} {flowId flowId' : ℤ} {config config' : List Char}
    {r r' q q' : MarkovianCC}
    (hr : (markovianCC delta flowId).interpretConfigStr config = .ok r)
    (hr' : (markovianCC delta' flowId').interpretConfigStr config' = .ok r')
    {before before' : List Callback} (hq : run step r before = some q)
    (hq' : run step r' before' = some q')
    (hmode : q.utilityMode = q'.utilityMode) (hslow : q.doSlowStart = q'.doSlowStart)
    (hkeep : q.keepExtMinRtt = q'.keepExtMinRtt) (hdefault : q.defaultDelta = q'.defaultDelta)
    (hmin : q.externalMinRtt = q'.externalMinRtt)
    {cs : List Callback} (hcs : ∀ c ∈ cs, c.InFlow) (htime : Timestamped cs) :
    q.outcomes (.init :: cs) = q'.outcomes (.init :: cs) := by
  have hinit := early_init (kinds_reached hr hq) (kinds_reached hr' hq') hmode hslow hkeep
    hdefault hmin
  refine outcomes_cons early (fun q => ⟨rfl, rfl⟩) (congrArg Except.ok hinit) ?_
  rintro t u ⟨⟩ ⟨⟩ htu
  exact outcomes_early htu ⟨rfl, rfl⟩ ⟨rfl, rfl⟩ hcs htime

/-- A state whose clock has been set to 100. -/
theorem flows_isolated_clock :
    constantDeltaOne.outcomes [.init, .setTimestamp 200, .onPktSent 0, .setTimestamp 210,
      .onACK 1 200 0] =
    outcomes { constantDeltaOne with curTick := 100 } [.init, .setTimestamp 200, .onPktSent 0,
      .setTimestamp 210, .onACK 1 200 0] :=
  flows_isolated constantDeltaOne_configured constantDeltaOne_configured
    (show run step constantDeltaOne [] = some constantDeltaOne from rfl)
    (show run step constantDeltaOne [.setTimestamp 100] =
      some { constantDeltaOne with curTick := 100 } from rfl)
    rfl rfl rfl rfl rfl (by simp [Callback.InFlow]) trivial

/-- Without a new timestamp the clock of the earlier flow decides whether the first ACK fails. -/
theorem clock_survives_init :
    run step constantDeltaOne [.setTimestamp 100] =
      some { constantDeltaOne with curTick := 100 } ∧
    constantDeltaOne.outcomes [.init, .onACK 1 50 0] =
      [.ok (10, 0), .error .ackAfterSent] ∧
    outcomes { constantDeltaOne with curTick := 100 } [.init, .onACK 1 50 0] =
      [.ok (10, 0), .ok (10, 0)] :=
  ⟨rfl, by decide +kernel, by decide +kernel⟩

end MarkovianCC

end CopaNgscope
