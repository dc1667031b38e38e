import CopaNgscope.NgscopePacketList

/-! The receiver of `copa_rx_fix.cc`: packets are collected for a millisecond and then echoed. Its
one buffer holds what was received or echoed last, and the keep-alive is built in it. -/
namespace CopaNgscope

/-- `header_list` has this many entries. -/
def headerListSize : ℕ := 1000

/-- The header at the start of `buff`, and the first `nof_pkt` entries of `header_list`. -/
structure BatchReceiver where
  buff : TCPHeader
  headerList : List TCPHeader
deriving DecidableEq

/-- What happens to the loops of `echo_packets`: a receive that returns a length, one that fails,
and the end of the millisecond. -/
inductive BatchAction
  | receive (header : TCPHeader)
  | receiveError
  | endBatch (receiverTimestamp : ℕ → ℚ) (currT : UInt64)

/-- What a receive does that does not return 0; `none` is a write past the list. -/
def BatchReceiver.list (s : BatchReceiver) : Option BatchReceiver :=
  if s.headerList.length < headerListSize then
    some { s with headerList := s.headerList ++ [s.buff] }
  else none

/-- The header with the fields set that the receiver fills in. -/
def batchEcho (header : TCPHeader) (receiverTimestamp : ℚ) (ackT : UInt64) : TCPHeader :=
  { header with receiverTimestamp := receiverTimestamp, txTimestamp := ackT }

/-- The loop over the list from entry `i` on: the buffer after it and the headers sent. -/
def echoBatch (receiverTimestamp : ℕ → ℚ) (ackT : UInt64) :
    ℕ → TCPHeader → List TCPHeader → TCPHeader × List TCPHeader
  | _, buff, [] => (buff, [])
  | i, _, header :: rest =>
    let buff := batchEcho header (receiverTimestamp i) ackT
    let r := echoBatch receiverTimestamp ackT (i+1) buff rest
    -- a dummy packet is only printed
    if buff.seqNum = -1111 then r else (r.1, buff :: r.2)

/-- Only two fields of the buffer are set for a keep-alive. -/
def keepAlive (buff : TCPHeader) (currT : UInt64) : TCPHeader :=
  { buff with seqNum := -1111, txTimestamp := currT }

/-- The receiver and the headers it sends. -/
def batchStep (s : BatchReceiver) : BatchAction → Option (BatchReceiver × List TCPHeader)
  | .receive header => (BatchReceiver.list { s with buff := header }).map fun t => (t, [])
  | .receiveError => s.list.map fun t => (t, [])
  | .endBatch receiverTimestamp currT =>
    if s.headerList = [] then
      some ({ s with buff := keepAlive s.buff currT }, [keepAlive s.buff currT])
    else
      let r := echoBatch receiverTimestamp currT 0 s.buff s.headerList
      some (⟨r.1, []⟩, r.2)

theorem BatchReceiver.list_eq_some {s t : BatchReceiver} (h : s.list = some t) :
    t.buff = s.buff ∧ t.headerList = s.headerList ++ [s.buff] := by
  unfold BatchReceiver.list at h
  split_ifs at h
  obtain rfl := Option.some.inj h
  exact ⟨rfl, rfl⟩

/-- What the buffer and the network get from the loop are echoes of the headers in the list. -/
theorem mem_echoBatch (receiverTimestamp : ℕ → ℚ) (ackT : UInt64) {hs : List TCPHeader}
    {h : TCPHeader} {i : ℕ} {buff : TCPHeader}
    (hmem : h ∈ (echoBatch receiverTimestamp ackT i buff hs).2) :
    ∃ header ∈ hs, ∃ t, h = batchEcho header t ackT := by
  induction hs generalizing i buff with
  | nil => exact absurd hmem List.not_mem_nil
  | cons header rest ih =>
    have hrest (hr : h ∈ (echoBatch receiverTimestamp ackT (i+1)
        (batchEcho header (receiverTimestamp i) ackT) rest).2) :
        ∃ x ∈ header :: rest, ∃ t, h = batchEcho x t ackT := by
      obtain ⟨x, hx, hecho⟩ := ih hr
      exact ⟨x, List.mem_cons_of_mem _ hx, hecho⟩
    rw [echoBatch] at hmem
    split_ifs at hmem
    · exact hrest hmem
    · rcases List.mem_cons.mp hmem with rfl | hr
      · exact ⟨header, List.mem_cons_self, _, rfl⟩
      · exact hrest hr

theorem buff_echoBatch (receiverTimestamp : ℕ → ℚ) (ackT : UInt64) (hs : List TCPHeader) (i : ℕ)
    (buff : TCPHeader) :
    (echoBatch receiverTimestamp ackT i buff hs).1 = buff ∨
      ∃ header ∈ hs, ∃ t, (echoBatch receiverTimestamp ackT i buff hs).1 =
        batchEcho header t ackT := by
  induction hs generalizing i buff with
  | nil => exact Or.inl rfl
  | cons header rest ih =>
    have hbuff : (echoBatch receiverTimestamp ackT i buff (header :: rest)).1 =
        (echoBatch receiverTimestamp ackT (i+1)
          (batchEcho header (receiverTimestamp i) ackT) rest).1 := by
      rw [echoBatch]
      split_ifs <;> rfl
    right
    rw [hbuff]
    rcases ih (i+1) (batchEcho header (receiverTimestamp i) ackT) with heq | ⟨x, hx, hecho⟩
    · exact ⟨header, List.mem_cons_self, _, heq⟩
    · exact ⟨x, List.mem_cons_of_mem _ hx, hecho⟩

end CopaNgscope
