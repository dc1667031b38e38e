import Mathlib.Data.List.Forall2
import CopaNgscope.BatchReceiver
import CopaNgscope.RunInvariant

/-! The batches of `copa_rx_fix.cc`: what the loop of a millisecond receives, and which of it is
echoed. -/
namespace CopaNgscope
open RunInvariant

/-- What `receivedata_w_time` finds: a datagram with the header that `buff` starts with then, a
datagram of length 0, nothing, or an error. -/
inductive ReceiveOutcome
  | datagram (header : TCPHeader)
  | emptyDatagram
  | timeout
  | error

/-- An empty datagram only writes its terminating zero, over the lowest byte of `seq_num`. -/
def terminateEmpty (buff : TCPHeader) : TCPHeader :=
  { buff with seqNum := buff.seqNum-buff.seqNum%256 }

/-- A round of the inner loop: what does not return 0 is listed. -/
def receiveRound (s : BatchReceiver) : ReceiveOutcome → Option BatchReceiver
  | .datagram header => BatchReceiver.list { s with buff := header }
  | .emptyDatagram => some { s with buff := terminateEmpty s.buff }
  | .timeout => some s
  -- the return value -1 is not 0, so what is left in the buffer is listed again
  | .error => s.list

/-- What the inner loop receives, with the clock read after each round: it ends after more than a
millisecond. The list may also end because the process is asked to. -/
def receivedInBatch (startT : UInt64) : List (ReceiveOutcome × UInt64) → List ReceiveOutcome
  | [] => []
  | (o, currT) :: rest =>
    -- the difference wraps if the clock goes back
    if 1000000 < currT-startT then [o] else o :: receivedInBatch startT rest

/-- The receives of a batch and the readings of the clock after them. -/
structure Batch where
  receives : List (ReceiveOutcome × UInt64)
  receiverTimestamp : ℕ → ℚ
  ackT : UInt64
  startT : UInt64

/-- The outer loop between batches: the buffer and the start of the batch. -/
structure BatchLoop where
  buff : TCPHeader
  startT : UInt64

/-- A batch of the outer loop, and what it sends. -/
def echoPacketsBatch (s : BatchLoop) (b : Batch) : Option (BatchLoop × List TCPHeader) :=
  (run receiveRound ⟨s.buff, []⟩ (receivedInBatch s.startT b.receives)).bind fun t =>
    (batchStep t (.endBatch b.receiverTimestamp b.ackT)).map fun r => (⟨r.1.buff, b.startT⟩, r.2)

def echoPacketsStep (s : BatchLoop) (b : Batch) : Option BatchLoop :=
  (echoPacketsBatch s b).map Prod.fst

/-- The datagrams among what was received. -/
def datagramsOf (os : List ReceiveOutcome) : List TCPHeader :=
  os.filterMap fun
    | .datagram header => some header
    | _ => none

/-- The headers that are not dummies. -/
def nonDummies (hs : List TCPHeader) : List TCPHeader := hs.filter (fun h => h.seqNum ≠ -1111)

/-- Apart from the keep-alive, a batch sends one echo for each datagram, in order. -/
def BatchExact (s : BatchLoop) (b : Batch) : Prop :=
  ∃ t sent, echoPacketsBatch s b = some (t, sent) ∧
    List.Forall₂ (fun header echo => ∃ ts, echo = batchEcho header ts b.ackT)
      (nonDummies (datagramsOf (receivedInBatch s.startT b.receives))) (nonDummies sent)

/-- What is listed has its place, and with an error a dummy is in the buffer. -/
def RoundSound (s : BatchReceiver) : ReceiveOutcome → Prop
  | .datagram _ => s.headerList.length < headerListSize
  | .error => s.headerList.length < headerListSize ∧ s.buff.seqNum = -1111
  | _ => True

instance (s : BatchReceiver) : DecidablePred (RoundSound s)
  | .datagram _ => inferInstanceAs (Decidable (_ < _))
  | .emptyDatagram => inferInstanceAs (Decidable True)
  | .timeout => inferInstanceAs (Decidable True)
  | .error => inferInstanceAs (Decidable (_ ∧ _))

/-- Every round of the batch is sound. -/
def BatchSound (s : BatchLoop) (b : Batch) : Prop :=
  RunMeets receiveRound RoundSound ⟨s.buff, []⟩ (receivedInBatch s.startT b.receives)

/-! ### The list -/

theorem list_eq_some_iff {s t : BatchReceiver} : s.list = some t ↔
    s.headerList.length < headerListSize ∧ t = ⟨s.buff, s.headerList ++ [s.buff]⟩ := by
  unfold BatchReceiver.list
  constructor
  · intro h
    split_ifs at h with hlen
    cases h
    exact ⟨hlen, rfl⟩
  · rintro ⟨hlen, rfl⟩
    rw [if_pos hlen]

theorem nonDummies_append (hs hs' : List TCPHeader) :
    nonDummies (hs ++ hs') = nonDummies hs ++ nonDummies hs' := List.filter_append hs hs'

theorem nonDummies_singleton_of_dummy {h : TCPHeader} (hd : h.seqNum = -1111) :
    nonDummies [h] = [] := by
  rw [nonDummies, List.filter_singleton]
  simp [hd]

theorem nonDummies_singleton {h : TCPHeader} (hd : h.seqNum ≠ -1111) : nonDummies [h] = [h] := by
  rw [nonDummies, List.filter_singleton]
  simp [hd]

/-- Sound rounds list the datagrams, and dummies. -/
theorem run_of_sound {os : List ReceiveOutcome} {s : BatchReceiver}
    (h : RunMeets receiveRound RoundSound s os) :
    ∃ t, run receiveRound s os = some t ∧
      nonDummies t.headerList = nonDummies (s.headerList ++ datagramsOf os) := by
  induction os generalizing s with
  | nil => exact ⟨s, rfl, by rw [datagramsOf, List.filterMap_nil, List.append_nil]⟩
  | cons o os ih =>
    obtain ⟨hround, hrest⟩ := h
    cases o with
    | datagram header =>
      have hlist : receiveRound s (.datagram header) =
          some ⟨header, s.headerList ++ [header]⟩ := list_eq_some_iff.mpr ⟨hround, rfl⟩
      obtain ⟨t, ht, heq⟩ := ih (hrest _ hlist)
      refine ⟨t, by rw [run_cons, hlist]; exact ht, ?_⟩
      rw [heq, List.append_assoc]
      rfl
    | emptyDatagram => exact ih (hrest _ rfl)
    | timeout => exact ih (hrest _ rfl)
    | error =>
      have hlist : receiveRound s .error = some ⟨s.buff, s.headerList ++ [s.buff]⟩ :=
        list_eq_some_iff.mpr ⟨hround.1, rfl⟩
      obtain ⟨t, ht, heq⟩ := ih (hrest _ hlist)
      refine ⟨t, by rw [run_cons, hlist]; exact ht, ?_⟩
      rw [heq, nonDummies_append, nonDummies_append, nonDummies_singleton_of_dummy hround.2,
        List.append_nil, ← nonDummies_append]
      rfl

theorem nonDummies_datagramsOf_cons (o : ReceiveOutcome) (os : List ReceiveOutcome) :
    nonDummies (datagramsOf (o :: os)) =
      nonDummies (datagramsOf [o]) ++ nonDummies (datagramsOf os) := by
  rw [← nonDummies_append, datagramsOf, datagramsOf, datagramsOf, ← List.filterMap_append]
  rfl

/-- A round lists its datagram. An error that finds no dummy in the buffer is listed as well. -/
theorem length_of_round {o : ReceiveOutcome} {s u : BatchReceiver}
    (hu : receiveRound s o = some u) : (nonDummies u.headerList).length =
      (nonDummies s.headerList).length+(nonDummies (datagramsOf [o])).length+
        if RoundSound s o then 0 else 1 := by
  cases o with
  | datagram header =>
    obtain ⟨hlen, rfl⟩ := list_eq_some_iff.mp hu
    have hsound : RoundSound s (.datagram header) := hlen
    rw [if_pos hsound, nonDummies_append, List.length_append]
    rfl
  | emptyDatagram =>
    cases hu
    rfl
  | timeout =>
    cases hu
    rfl
  | error =>
    obtain ⟨hlen, rfl⟩ := list_eq_some_iff.mp hu
    rw [nonDummies_append, List.length_append]
    by_cases hdummy : s.buff.seqNum = -1111
    · have hsound : RoundSound s .error := ⟨hlen, hdummy⟩
      rw [if_pos hsound, nonDummies_singleton_of_dummy hdummy]
      rfl
    · have hunsound : ¬ RoundSound s .error := fun h => hdummy h.2
      rw [if_neg hunsound, nonDummies_singleton hdummy]
      rfl

/-- A run lists its datagrams, and no more than them only if every round is sound. -/
theorem length_of_run {os : List ReceiveOutcome} {s t : BatchReceiver}
    (h : run receiveRound s os = some t) :
    (nonDummies s.headerList).length+(nonDummies (datagramsOf os)).length ≤
        (nonDummies t.headerList).length ∧
      ((nonDummies t.headerList).length =
          (nonDummies s.headerList).length+(nonDummies (datagramsOf os)).length →
        RunMeets receiveRound RoundSound s os) := by
  induction os generalizing s with
  | nil =>
    cases h
    exact ⟨le_refl _, fun _ => trivial⟩
  | cons o os ih =>
    obtain ⟨u, hu, hrest⟩ := Option.bind_eq_some_iff.mp h
    obtain ⟨hle, hsound⟩ := ih hrest
    have hround := length_of_round hu
    rw [nonDummies_datagramsOf_cons, List.length_append]
    by_cases hok : RoundSound s o
    · rw [if_pos hok] at hround
      refine ⟨by omega, fun heq => ?_⟩
      apply (runMeets_cons_iff receiveRound RoundSound hu os).mpr
      exact ⟨hok, hsound (by omega)⟩
    · -- what is listed too much stays
      rw [if_neg hok] at hround
      refine ⟨by omega, fun heq => ?_⟩
      omega

/-! ### The echoes -/

/-- The headers of the list that are not dummies are echoed. -/
theorem forall₂_echoBatch (receiverTimestamp : ℕ → ℚ) (ackT : UInt64) (hs : List TCPHeader) (i : ℕ)
    (buff : TCPHeader) :
    List.Forall₂ (fun header echo => ∃ ts, echo = batchEcho header ts ackT) (nonDummies hs)
      (nonDummies (echoBatch receiverTimestamp ackT i buff hs).2) := by
  -- the buffer left by an echo is overwritten by the next one
  induction hs generalizing i buff with
  | nil => exact List.Forall₂.nil
  | cons header hs ih =>
    have hrest := ih (i+1) (batchEcho header (receiverTimestamp i) ackT)
    have hcons : header :: hs = [header] ++ hs := rfl
    rw [echoBatch, hcons, nonDummies_append]
    by_cases hdummy : header.seqNum = -1111
    · rw [if_pos (show (batchEcho header (receiverTimestamp i) ackT).seqNum = -1111 from hdummy),
        nonDummies_singleton_of_dummy hdummy]
      exact hrest
    · rw [if_neg (show (batchEcho header (receiverTimestamp i) ackT).seqNum ≠ -1111 from hdummy),
        nonDummies_singleton hdummy]
      have hecho : nonDummies [batchEcho header (receiverTimestamp i) ackT] =
          [batchEcho header (receiverTimestamp i) ackT] := nonDummies_singleton hdummy
      rw [List.singleton_append, ← List.singleton_append (l := (echoBatch receiverTimestamp ackT
        (i+1) (batchEcho header (receiverTimestamp i) ackT) hs).2), nonDummies_append, hecho]
      exact List.Forall₂.cons ⟨_, rfl⟩ hrest

/-- The end of a batch echoes the list; the keep-alive is a dummy. -/
theorem endBatch_echoes (t : BatchReceiver) (receiverTimestamp : ℕ → ℚ) (ackT : UInt64) :
    ∃ r, batchStep t (.endBatch receiverTimestamp ackT) = some r ∧
      List.Forall₂ (fun header echo => ∃ ts, echo = batchEcho header ts ackT)
        (nonDummies t.headerList) (nonDummies r.2) := by
  rw [batchStep]
  by_cases hnil : t.headerList = []
  · rw [if_pos hnil]
    refine ⟨_, rfl, ?_⟩
    rw [hnil, nonDummies_singleton_of_dummy (h := keepAlive t.buff ackT) rfl]
    exact List.Forall₂.nil
  · rw [if_neg hnil]
    exact ⟨_, rfl, forall₂_echoBatch receiverTimestamp ackT t.headerList 0 t.buff⟩

theorem batchExact_iff (s : BatchLoop) (b : Batch) : BatchExact s b ↔ BatchSound s b := by
  constructor
  · rintro ⟨t, sent, hbatch, hexact⟩
    obtain ⟨u, hu, hend⟩ := Option.bind_eq_some_iff.mp hbatch
    obtain ⟨r, hr, hecho⟩ := endBatch_echoes u b.receiverTimestamp b.ackT
    rw [hr, Option.map_some, Option.some.injEq] at hend
    cases hend
    apply (length_of_run hu).2
    rw [hecho.length_eq, ← hexact.length_eq]
    exact (Nat.zero_add _).symm
  · intro hsound
    obtain ⟨u, hu, hlist⟩ := run_of_sound hsound
    obtain ⟨r, hr, hecho⟩ := endBatch_echoes u b.receiverTimestamp b.ackT
    refine ⟨⟨r.1.buff, b.startT⟩, r.2, ?_, ?_⟩
    · rw [echoPacketsBatch, hu, Option.bind_some, hr]
      rfl
    · rw [hlist] at hecho
      exact hecho

/-- Every batch of a run echoes exactly its datagrams if and only if at most a thousand receives
of a batch return something, and errors find a dummy in the buffer. -/
theorem batch_echo_exact_iff (s : BatchLoop) (bs : List Batch) :
    RunMeets echoPacketsStep BatchExact s bs ↔ RunMeets echoPacketsStep BatchSound s bs :=
  runMeets_congr echoPacketsStep (fun _ => True) (fun s b _ => batchExact_iff s b)
    (fun _ _ _ _ _ _ => trivial) trivial

/-- A datagram and an error within a millisecond: the datagram is echoed twice. -/
theorem not_batch_echo_exact :
    ¬ ∀ (s : BatchLoop) (bs : List Batch), RunMeets echoPacketsStep BatchExact s bs := by
  intro hall
  let header : TCPHeader := ⟨5, 1, 2, 10, 20, 0, 0⟩
  have hmeets := hall ⟨⟨-1111, 0, 0, 0, 0, 0, 0⟩, 0⟩
    [⟨[(.datagram header, 10), (.error, 2000000)], fun _ => 3, 2000010, 2000020⟩]
  have hsound := (batchExact_iff _ _).mp hmeets.1
  have hfail : ¬ RunMeets receiveRound RoundSound ⟨⟨-1111, 0, 0, 0, 0, 0, 0⟩, []⟩
      [.datagram header, .error] := by decide
  exact hfail hsound

end CopaNgscope
