import Mathlib.Tactic.Linarith
import Mathlib.Tactic.NormNum
import CopaNgscope.NgscopePacketList
import CopaNgscope.RunInvariant

/-! `CTCP::tcp_handshake`: probes every 200 ms until a reply comes, which gives an RTT. With an
unknown remote address a packet is awaited first. -/
namespace CopaNgscope
open RunInvariant

inductive HandshakePhase
  | punching | sending | receiving | established
deriving DecidableEq

/-- The header that is sent and the one at the start of `buf`. The times of the probes, the last
one first, are not kept by the source. -/
structure Handshake where
  header : TCPHeader
  buf : TCPHeader
  lastSendTime : ℚ
  multiSend : Bool
  rtt : ℚ
  phase : HandshakePhase
  probeTimes : List ℚ
deriving DecidableEq

/-- A round starts with a reading of the clock; the other actions are what the socket returns. -/
inductive HandshakeAction
  | punch (header : TCPHeader)
  | round (now : ℚ)
  | timedOut
  | receive (header : TCPHeader) (now : ℚ)
  | receiveError (now : ℚ)

/-- Two fields of the header are not set. -/
def handshakeProbe (txTimestamp : UInt64) (adjustUs : ℤ) : TCPHeader :=
  ⟨-1, -1, -1, -1, txTimestamp, -1, adjustUs⟩

/-- The state before the first round; `stale` is what was on the stack for `rtt`. -/
def handshakeInit (header buf : TCPHeader) (ipKnown : Bool) (stale : ℚ) : Handshake where
  header := header
  buf := buf
  lastSendTime := -10^9
  multiSend := false
  rtt := stale
  phase := if ipKnown then .sending else .punching
  probeTimes := []

/-- The header passes the two filters. -/
def HandshakeReply (h : TCPHeader) : Prop :=
  ¬ (h.seqNum ≠ -1 ∨ h.flowId ≠ -1) ∧ ¬ (h.senderTimestamp ≠ -1 ∨ h.srcId ≠ -1)

instance (h : TCPHeader) : Decidable (HandshakeReply h) := inferInstanceAs (Decidable (_ ∧ _))

/-- What follows a receive that did not return 0. After one that failed the buffer may hold the
probe itself. -/
def Handshake.takeReply (s : Handshake) (now : ℚ) : Handshake :=
  if HandshakeReply s.buf then { s with rtt := now-s.lastSendTime, phase := .established }
  else { s with phase := .sending }

/-- The handshake and what it sends. -/
def handshakeStep (s : Handshake) : HandshakeAction → Option (Handshake × List TCPHeader)
  | .punch header =>
    if s.phase = .punching then some ({ s with buf := header, phase := .sending }, []) else none
  | .round now =>
    if s.phase = .sending then
      if s.lastSendTime < now-200 then
        some ({ s with
          buf := s.header
          multiSend := s.multiSend || decide (s.lastSendTime ≠ -10^9)
          lastSendTime := now
          probeTimes := now :: s.probeTimes
          phase := .receiving }, [s.header])
      else some ({ s with phase := .receiving }, [])
    else none
  | .timedOut => if s.phase = .receiving then some ({ s with phase := .sending }, []) else none
  | .receive header now =>
    if s.phase = .receiving then some (({ s with buf := header }).takeReply now, []) else none
  | .receiveError now => if s.phase = .receiving then some (s.takeReply now, []) else none

/-- The handshake without the network. -/
def handshakeRound (s : Handshake) (a : HandshakeAction) : Option Handshake :=
  (handshakeStep s a).map Prod.fst

def HandshakeAction.reading : HandshakeAction → Option ℚ
  | .punch _ | .timedOut => none
  | .round now => some now
  | .receive _ now => some now
  | .receiveError now => some now

/-- The clock starts at 0 and does not go back behind the last probe. -/
def ProbeForward (s : Handshake) (a : HandshakeAction) : Prop :=
  ∀ now ∈ a.reading, 0 ≤ now ∧ ∀ t ∈ s.probeTimes, t ≤ now

instance (s : Handshake) (a : HandshakeAction) : Decidable (ProbeForward s a) :=
  inferInstanceAs (Decidable (∀ now ∈ a.reading, 0 ≤ now ∧ ∀ t ∈ s.probeTimes, t ≤ now))

/-- What the variables of the handshake say about the probes. -/
structure Handshake.Tracks (s : Handshake) : Prop where
  nonneg : ∀ t ∈ s.probeTimes, 0 ≤ t
  spaced : s.probeTimes.Pairwise (fun later earlier => earlier+200 < later)
  lastSendTime : s.lastSendTime = s.probeTimes.headD (-10^9)
  multiSend : s.multiSend = true ↔ 2 ≤ s.probeTimes.length
  sent : s.phase = .receiving ∨ s.phase = .established → s.probeTimes ≠ []
  rtt : s.phase = .established → 0 ≤ s.rtt

theorem tracks_init (header buf : TCPHeader) (ipKnown : Bool) (stale : ℚ) :
    (handshakeInit header buf ipKnown stale).Tracks where
  nonneg := fun t ht => absurd ht List.not_mem_nil
  spaced := List.Pairwise.nil
  lastSendTime := rfl
  multiSend := iff_of_false Bool.false_ne_true (Nat.not_succ_le_zero 1)
  sent := by
    cases ipKnown <;> simp [handshakeInit]
  rtt := by
    cases ipKnown <;> simp [handshakeInit]

/-- The first round sends a probe, whatever the clock says. -/
theorem Handshake.Tracks.sends_first {s : Handshake} (h : s.Tracks) (hnone : s.probeTimes = [])
    {now : ℚ} (hnow : 0 ≤ now) : s.lastSendTime < now-200 := by
  rw [h.lastSendTime, hnone, List.headD_nil]
  linarith

theorem tracks_probe {s : Handshake} (h : s.Tracks) {now : ℚ} (hnow : 0 ≤ now)
    (hsend : s.lastSendTime < now-200) : Handshake.Tracks { s with
      buf := s.header
      multiSend := s.multiSend || decide (s.lastSendTime ≠ -10^9)
      lastSendTime := now
      probeTimes := now :: s.probeTimes
      phase := .receiving } := by
  refine ⟨?_, ?_, rfl, ?_, fun _ => List.cons_ne_nil _ _, (fun hphase => nomatch hphase)⟩
  · intro t ht
    rcases List.mem_cons.mp ht with rfl | ht
    · exact hnow
    · exact h.nonneg t ht
  · refine List.pairwise_cons.mpr ⟨fun t ht => ?_, h.spaced⟩
    -- the last probe is the latest one
    cases htimes : s.probeTimes with
    | nil =>
      rw [htimes] at ht
      exact absurd ht List.not_mem_nil
    | cons last rest =>
      have hlast : s.lastSendTime = last := by
        rw [h.lastSendTime, htimes]
        rfl
      have hspaced := h.spaced
      rw [htimes] at ht hspaced
      rcases List.mem_cons.mp ht with rfl | ht
      · linarith
      · linarith [(List.pairwise_cons.mp hspaced).1 t ht]
  · cases htimes : s.probeTimes with
    | nil =>
      have hnot : s.multiSend = false := by
        rw [Bool.eq_false_iff]
        intro hmulti
        have htwo := h.multiSend.mp hmulti
        rw [htimes] at htwo
        exact Nat.not_succ_le_zero 1 htwo
      have hfirst : s.lastSendTime = -10^9 := by
        rw [h.lastSendTime, htimes]
        rfl
      simp [hnot, hfirst]
    | cons last rest =>
      have hlast : s.lastSendTime = last := by
        rw [h.lastSendTime, htimes]
        rfl
      have hpos : 0 ≤ last := h.nonneg last (by rw [htimes]; exact List.mem_cons_self)
      have hne : s.lastSendTime ≠ -10^9 := by
        rw [hlast]
        linarith
      simp [hne]

theorem tracks_takeReply {s : Handshake} (h : s.Tracks) {now : ℚ}
    (hnow : ∀ t ∈ s.probeTimes, t ≤ now) (hphase : s.phase = .receiving) :
    (s.takeReply now).Tracks := by
  have hsent := h.sent (Or.inl hphase)
  unfold Handshake.takeReply
  split_ifs
  · refine ⟨h.nonneg, h.spaced, h.lastSendTime, h.multiSend, fun _ => hsent, fun _ => ?_⟩
    obtain ⟨last, rest, htimes⟩ := List.exists_cons_of_ne_nil hsent
    have hlast : s.lastSendTime = last := by
      rw [h.lastSendTime, htimes]
      rfl
    have hle : last ≤ now := hnow last (by rw [htimes]; exact List.mem_cons_self)
    exact sub_nonneg.mpr (hlast.trans_le hle)
  · exact ⟨h.nonneg, h.spaced, h.lastSendTime, h.multiSend, fun _ => hsent,
      (fun hestablished => nomatch hestablished)⟩

theorem tracks_step {s t : Handshake} {a : HandshakeAction} (h : s.Tracks)
    (hclock : ProbeForward s a) (hstep : handshakeRound s a = some t) : t.Tracks := by
  obtain ⟨r, hr, rfl⟩ := Option.map_eq_some_iff.mp hstep
  cases a with
  | punch header =>
    rw [handshakeStep] at hr
    split_ifs at hr
    cases hr
    exact ⟨h.nonneg, h.spaced, h.lastSendTime, h.multiSend,
      (fun hphase => by rcases hphase with hphase | hphase <;> cases hphase),
      (fun hphase => nomatch hphase)⟩
  | round now =>
    obtain ⟨hnow, _⟩ := hclock now rfl
    rw [handshakeStep] at hr
    split_ifs at hr with hphase hsend
    · cases hr
      exact tracks_probe h hnow hsend
    · cases hr
      refine ⟨h.nonneg, h.spaced, h.lastSendTime, h.multiSend, fun _ hnone => ?_,
        (fun hphase => nomatch hphase)⟩
      exact hsend (h.sends_first hnone hnow)
  | timedOut =>
    rw [handshakeStep] at hr
    split_ifs at hr
    cases hr
    exact ⟨h.nonneg, h.spaced, h.lastSendTime, h.multiSend,
      (fun hphase => by rcases hphase with hphase | hphase <;> cases hphase),
      (fun hphase => nomatch hphase)⟩
  | receive header now =>
    rw [handshakeStep] at hr
    split_ifs at hr with hphase
    cases hr
    have hbuf : Handshake.Tracks { s with buf := header } := { h with }
    exact tracks_takeReply hbuf (hclock now rfl).2 hphase
  | receiveError now =>
    rw [handshakeStep] at hr
    split_ifs at hr with hphase
    cases hr
    exact tracks_takeReply h (hclock now rfl).2 hphase

/-- Only a reply establishes the connection, and it leaves the probes as they are. -/
theorem reply_of_established {s t : Handshake} {a : HandshakeAction} {now : ℚ}
    (hstep : handshakeRound s a = some t) (hnow : a.reading = some now)
    (hestablished : t.phase = .established) :
    t.rtt = now-s.lastSendTime ∧ t.probeTimes = s.probeTimes := by
  have hreply {u : Handshake} (h : (u.takeReply now).phase = .established) :
      (u.takeReply now).rtt = now-u.lastSendTime ∧
        (u.takeReply now).probeTimes = u.probeTimes := by
    unfold Handshake.takeReply at h ⊢
    split_ifs at h ⊢
    exact ⟨rfl, rfl⟩
  obtain ⟨r, hr, rfl⟩ := Option.map_eq_some_iff.mp hstep
  cases a with
  | punch header => cases hnow
  | round now' =>
    rw [handshakeStep] at hr
    split_ifs at hr
    · cases hr
      cases hestablished
    · cases hr
      cases hestablished
  | timedOut => cases hnow
  | receive header now' =>
    cases hnow
    rw [handshakeStep] at hr
    split_ifs at hr
    cases hr
    exact hreply (u := { s with buf := header }) hestablished
  | receiveError now' =>
    cases hnow
    rw [handshakeStep] at hr
    split_ifs at hr
    cases hr
    exact hreply hestablished

/-- In every handshake the probes are more than 200 ms apart. When a reply is taken, the RTT is the
time since the last probe, and whether it may be used, which is when `multi_send` is not set, is
whether there was no other probe. -/
theorem handshake_measures {header buf : TCPHeader} {ipKnown : Bool} {stale : ℚ}
    {actions : List HandshakeAction} {s : Handshake}
    (hrun : run handshakeRound (handshakeInit header buf ipKnown stale) actions = some s)
    (hclock : RunMeets handshakeRound ProbeForward (handshakeInit header buf ipKnown stale)
      actions) :
    s.probeTimes.Pairwise (fun later earlier => earlier+200 < later) ∧
      ∀ a t now, ProbeForward s a → handshakeRound s a = some t → a.reading = some now →
        t.phase = .established →
        (∃ last earlier, t.probeTimes = last :: earlier ∧ last ≤ now ∧ t.rtt = now-last) ∧
        (t.multiSend = false ↔ ∃ only, t.probeTimes = [only] ∧ t.rtt = now-only) := by
  have htracks := run_invariant_of_meets handshakeRound Handshake.Tracks ProbeForward
    (fun _ _ _ => tracks_step) (tracks_init header buf ipKnown stale) hclock hrun
  refine ⟨htracks.spaced, ?_⟩
  intro a t now hlast hstep hnow hestablished
  have htracks' := tracks_step htracks hlast hstep
  obtain ⟨hrtt, htimes⟩ := reply_of_established hstep hnow hestablished
  obtain ⟨last, earlier, hcons⟩ :=
    List.exists_cons_of_ne_nil (htracks'.sent (Or.inr hestablished))
  have hlastTime : s.lastSendTime = last := by
    rw [htracks.lastSendTime, ← htimes, hcons]
    rfl
  have hle : last ≤ now := by
    refine (hlast now hnow).2 last ?_
    rw [← htimes, hcons]
    exact List.mem_cons_self
  rw [hlastTime] at hrtt
  refine ⟨⟨last, earlier, hcons, hle, hrtt⟩, ?_⟩
  have hmulti := htracks'.multiSend
  rw [hcons, List.length_cons] at hmulti
  constructor
  · intro hfalse
    have hnone : earlier = [] := by
      rw [hfalse] at hmulti
      have hlt : ¬ 2 ≤ earlier.length+1 := fun h => Bool.false_ne_true (hmulti.mpr h)
      exact List.length_eq_zero_iff.mp (by omega)
    exact ⟨last, by rw [hcons, hnone], hrtt⟩
  · rintro ⟨only, honly, _⟩
    rw [Bool.eq_false_iff]
    intro htrue
    have htwo := hmulti.mp htrue
    rw [hcons] at honly
    cases honly
    exact absurd htwo (by decide)

/-- The first probe is lost, and 100 ms later it is too early for another one. The packet that comes
after the second probe is no reply. -/
def secondProbe : List HandshakeAction :=
  [.round 0, .timedOut, .round 100, .timedOut, .round 250,
    .receive { handshakeProbe 7 0 with seqNum := 4 } 252, .round 253]

def secondProbed : Handshake :=
  ⟨handshakeProbe 0 0, { handshakeProbe 7 0 with seqNum := 4 }, 250, true, 0, .receiving, [250, 0]⟩

/-- A reply comes 5 ms after the second probe. -/
def secondReply : Handshake :=
  ⟨handshakeProbe 0 0, handshakeProbe 7 0, 250, true, 5, .established, [250, 0]⟩

theorem handshake_measures_second :
    secondProbed.probeTimes.Pairwise (fun later earlier => earlier+200 < later) ∧
      (∃ last earlier, secondReply.probeTimes = last :: earlier ∧ last ≤ 255 ∧
        secondReply.rtt = 255-last) ∧
      ¬ ∃ only, secondReply.probeTimes = [only] ∧ secondReply.rtt = 255-only := by
  have hrun : run handshakeRound (handshakeInit (handshakeProbe 0 0) (handshakeProbe 0 0) true 0)
      secondProbe = some secondProbed := by decide +kernel
  have hstep : handshakeRound secondProbed (.receive (handshakeProbe 7 0) 255) =
      some secondReply := by decide +kernel
  obtain ⟨hspaced, htaken⟩ := handshake_measures hrun (by decide +kernel)
  obtain ⟨hrtt, hmulti⟩ := htaken _ _ 255 (by decide +kernel) hstep rfl rfl
  exact ⟨hspaced, hrtt, fun honly => Bool.true_eq_false.mp (hmulti.mpr honly)⟩

end CopaNgscope
