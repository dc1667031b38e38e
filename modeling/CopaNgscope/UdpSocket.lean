import Mathlib.Data.Int.Order.Basic

/-! Receiving a datagram: `receivedata`, `recv_msg_from_sock` and `receivedata_w_time` of
`udp-socket.cc`. What `poll` and the receive calls return is given. -/
namespace CopaNgscope

/-- A datagram with the time of its control message. -/
structure Datagram where
  bytes : List UInt8
  tvSec : UInt64
  tvNsec : UInt64

def Datagram.timestampNs (d : Datagram) : UInt64 := d.tvSec*1000000000+d.tvNsec

/-- What `recvfrom` or `recvmsg` finds. -/
inductive RecvOutcome
  | error
  | datagram (d : Datagram)

/-- What one `poll` returns: the socket can be read, it has another event, nothing happened in
time, a signal came, or there was an error. -/
inductive PollOutcome
  | readable (r : RecvOutcome)
  | otherEvent
  | timedOut
  | interrupted
  | failed

/-- What a call returns, the bytes it copies to the buffer, where it writes the terminating null
character, and what it sets `*timestamp_ns` to. -/
structure ReceiveReturn where
  res : ℤ
  data : List UInt8
  terminatorAt : Option ℤ
  timestampNs : Option UInt64

inductive ReceiveCall
  | pending
  | exited
  | returned (r : ReceiveReturn)

section
variable (bufsize : ℕ)

/-- The bytes of a datagram that fit the buffer. -/
def Datagram.received (d : Datagram) : List UInt8 := d.bytes.take bufsize

/-- The call goes on as long as signals interrupt it. -/
def receivedata : List PollOutcome → ReceiveCall
  | [] => .pending
  -- the error is printed, and then taken for a length
  | .readable .error :: _ => .returned ⟨-1, [], some (-1), none⟩
  | .readable (.datagram d) :: _ =>
    .returned ⟨(d.received bufsize).length, d.received bufsize,
      some (d.received bufsize).length, none⟩
  | .otherEvent :: _ => .returned ⟨-1, [], none, none⟩
  | .timedOut :: _ => .returned ⟨0, [], none, none⟩
  | .interrupted :: os => receivedata os
  | .failed :: _ => .returned ⟨-1, [], none, none⟩

/-- The size of the control buffer, which also limits the datagram. -/
def recvBufSize : ℕ := 2048

/-- The length, the bytes and the timestamp; `none` is the end of the process. -/
def recvMsgFromSock : RecvOutcome → Option (ℤ × List UInt8 × Option UInt64)
  | .error => some (-1, [], none)
  | .datagram d =>
    -- never with a buffer of at most that size
    if recvBufSize < (d.received bufsize).length then none
    else some ((d.received bufsize).length, d.received bufsize, some d.timestampNs)

/-- After a signal the other function takes over. -/
def receivedataWTime : List PollOutcome → ReceiveCall
  | [] => .pending
  | .readable r :: _ =>
    match recvMsgFromSock bufsize r with
    | none => .exited
    | some (res, data, timestampNs) => .returned ⟨res, data, some res, timestampNs⟩
  | .otherEvent :: _ => .returned ⟨-1, [], none, none⟩
  | .timedOut :: _ => .returned ⟨0, [], none, none⟩
  -- the retry does not ask for a timestamp
  | .interrupted :: os => receivedata bufsize os
  | .failed :: _ => .returned ⟨-1, [], none, none⟩

/-- The outcome that ends a call. -/
def ending : List PollOutcome → Option PollOutcome
  | [] => none
  | .interrupted :: os => ending os
  | o :: _ => some o

/-- Of a call with this end: with data comes the timestamp of the same datagram, and the
terminator is written inside the buffer. -/
structure ReceiveReturn.Trustworthy (r : ReceiveReturn) (o : Option PollOutcome) : Prop where
  timestamp : 0 < r.res →
    ∃ d, o = some (.readable (.datagram d)) ∧ r.timestampNs = some d.timestampNs
  terminator : ∀ i, r.terminatorAt = some i → 0 ≤ i ∧ i < bufsize

/-- The end of a call that is not interrupted: no error of the receive call, and a datagram that
leaves room for the terminator, unless the process ends for its length. -/
def SoundEnd : PollOutcome → Prop
  | .readable .error => False
  | .readable (.datagram d) =>
    recvBufSize < (d.received bufsize).length ∨ (d.received bufsize).length < bufsize
  | _ => True

/-- The end of an interrupted call: only an empty datagram. -/
def SoundEndInterrupted : PollOutcome → Prop
  | .readable .error => False
  | .readable (.datagram d) => (d.received bufsize).length = 0 ∧ 0 < bufsize
  | _ => True

def SoundOutcomes : List PollOutcome → Prop
  | .interrupted :: os => ∀ o, ending os = some o → SoundEndInterrupted bufsize o
  | os => ∀ o, ending os = some o → SoundEnd bufsize o

end

section
variable {bufsize : ℕ}

theorem trustworthy_of_not_written {r : ReceiveReturn} {o : Option PollOutcome} (hres : r.res ≤ 0)
    (hnone : r.terminatorAt = none) : r.Trustworthy bufsize o where
  timestamp := fun h => absurd h (not_lt.mpr hres)
  terminator := by
    intro i hi
    rw [hnone] at hi
    cases hi

/-- An error of the receive call is taken for a length. -/
theorem not_trustworthy_of_error {r : ReceiveReturn} {o : Option PollOutcome}
    (h : r.terminatorAt = some (-1)) : ¬ r.Trustworthy bufsize o := by
  intro htrust
  have hindex := (htrust.terminator (-1) h).1
  omega

theorem forall_returned_iff {p : ReceiveReturn → Prop} {r : ReceiveReturn} :
    (∀ r', ReceiveCall.returned r = .returned r' → p r') ↔ p r := by
  constructor
  · intro h
    exact h r rfl
  · intro h r' hr'
    cases hr'
    exact h

theorem forall_end_iff {p : PollOutcome → Prop} {o : PollOutcome} :
    (∀ o', some o = some o' → p o') ↔ p o := by
  constructor
  · intro h
    exact h o rfl
  · intro h o' ho'
    cases ho'
    exact h

/-- A call without data writes nothing. -/
theorem quiet_iff {res : ℤ} (hres : res ≤ 0) {p : PollOutcome → Prop} {o : PollOutcome} (ho : p o) :
    (∀ r, ReceiveCall.returned ⟨res, [], none, none⟩ = .returned r →
      r.Trustworthy bufsize (some o)) ↔ ∀ o', some o = some o' → p o' :=
  iff_of_true (forall_returned_iff.mpr (trustworthy_of_not_written hres rfl))
    (forall_end_iff.mpr ho)

theorem error_iff {p : PollOutcome → Prop} (hp : ¬ p (.readable .error)) :
    (∀ r, ReceiveCall.returned ⟨-1, [], some (-1), none⟩ = .returned r →
      r.Trustworthy bufsize (some (.readable .error))) ↔
        ∀ o', some (PollOutcome.readable .error) = some o' → p o' :=
  iff_of_false (fun h => not_trustworthy_of_error rfl (forall_returned_iff.mp h))
    (fun h => hp (forall_end_iff.mp h))

/-- After an interruption the timestamp is not set. -/
theorem receivedata_trustworthy_iff (os : List PollOutcome) :
    (∀ r, receivedata bufsize os = .returned r → r.Trustworthy bufsize (ending os)) ↔
      ∀ o, ending os = some o → SoundEndInterrupted bufsize o := by
  induction os with
  | nil => exact iff_of_true (fun r h => by cases h) (fun o h => by cases h)
  | cons o os ih =>
    cases o with
    | interrupted => exact ih
    | otherEvent => exact quiet_iff (by decide) trivial
    | timedOut => exact quiet_iff (by decide) trivial
    | failed => exact quiet_iff (by decide) trivial
    | readable r =>
      cases r with
      | error => exact error_iff id
      | datagram d =>
        refine forall_returned_iff.trans (Iff.trans ?_ forall_end_iff.symm)
        constructor
        · intro h
          -- data without a timestamp
          have hlength : (d.received bufsize).length = 0 := by
            by_contra hne
            obtain ⟨_, _, hnone⟩ := h.timestamp (Int.natCast_pos.mpr (Nat.pos_of_ne_zero hne))
            cases hnone
          refine ⟨hlength, ?_⟩
          have hindex := (h.terminator _ rfl).2
          omega
        · rintro ⟨hlength, hbuf⟩
          refine ⟨?_, ?_⟩
          · intro hpos
            exact absurd hpos (by dsimp only; omega)
          · intro i hi
            cases hi
            omega

/-- The timestamp belongs to the datagram, and the terminator is written inside the buffer, if
and only if the call does not end with an error or a full buffer, and does not get data after
an interruption. -/
theorem receivedata_w_time_trustworthy_iff (bufsize : ℕ) (os : List PollOutcome) :
    (∀ r, receivedataWTime bufsize os = .returned r → r.Trustworthy bufsize (ending os)) ↔
      SoundOutcomes bufsize os := by
  cases os with
  | nil => exact iff_of_true (fun r h => by cases h) (fun o h => by cases h)
  | cons o os =>
    cases o with
    | interrupted => exact receivedata_trustworthy_iff os
    | otherEvent => exact quiet_iff (by decide) trivial
    | timedOut => exact quiet_iff (by decide) trivial
    | failed => exact quiet_iff (by decide) trivial
    | readable r =>
      cases r with
      | error => exact error_iff id
      | datagram d =>
        rw [receivedataWTime, recvMsgFromSock]
        by_cases hlong : recvBufSize < (d.received bufsize).length
        · rw [if_pos hlong]
          exact iff_of_true (fun r h => by cases h) (forall_end_iff.mpr (Or.inl hlong))
        · rw [if_neg hlong]
          refine forall_returned_iff.trans (Iff.trans ?_ forall_end_iff.symm)
          constructor
          · intro h
            have hindex := (h.terminator _ rfl).2
            exact Or.inr (by omega)
          · intro h
            have hroom := h.resolve_left hlong
            refine ⟨fun _ => ⟨d, rfl, rfl⟩, ?_⟩
            intro i hi
            cases hi
            omega

/-- Three bytes after a signal: the call returns 3 and the timestamp is not set. -/
theorem not_trustworthy_interrupted :
    ¬ ∀ (bufsize : ℕ) (os : List PollOutcome) (r : ReceiveReturn),
      receivedataWTime bufsize os = .returned r → r.Trustworthy bufsize (ending os) := by
  intro hall
  have htrust := hall 1440 [.interrupted, .readable (.datagram ⟨[1, 2, 3], 5, 7⟩)] _ rfl
  obtain ⟨_, _, hnone⟩ := htrust.timestamp (by decide)
  cases hnone

end

end CopaNgscope
