import CopaNgscope.NgscopeDciRecvCases

/-! Which of the records that must be refused `recv_buffer` refuses without touching the
shared data. -/
namespace CopaNgscope
open RunInvariant ByteMemory

/-- A CONFIG record with its count and all its PRBs inside the received bytes. -/
def CompleteConfig (m : ByteMem) (idx recvLen : ℕ) : Prop :=
  Holds m idx (List.replicate 4 0xBB) ∧
    ∃ n, m (idx+4) = some n ∧ idx+5+2*n.toNat ≤ recvLen

/-- A CONFIG preamble whose count or PRBs are not all inside the received bytes. -/
def CutConfig (m : ByteMem) (idx recvLen : ℕ) : Prop :=
  Holds m idx (List.replicate 4 0xBB) ∧
    (recvLen ≤ idx+4 ∨ ∃ n, m (idx+4) = some n ∧ recvLen < idx+5+2*n.toNat)

/-- A version 0 DCI record with its flag byte and all announced directions inside the
received bytes. -/
def CompleteDci (m : ByteMem) (idx recvLen : ℕ) : Prop :=
  Holds m idx (List.replicate 4 0xAA) ∧ m (idx+4) = some 0 ∧
    ∃ ulDl, m (idx+16) = some ulDl ∧ idx+17+dirLen ulDl ≤ recvLen

/-- A DCI record of another version with its whole preamble part received. -/
def UnknownVersion (m : ByteMem) (idx recvLen : ℕ) : Prop :=
  Holds m idx (List.replicate 4 0xAA) ∧ idx+16 ≤ recvLen ∧ m (idx+4) ≠ some 0

/-- The call fails, and what it does leaves the store and the counters as they were. -/
def RejectedWithoutTrace (stray : NgscopeDciCell → ℤ → UeDci) (m : ByteMem) (idx recvLen : ℕ)
    (s : RecvState) : Prop :=
  ∃ ret upd s', recvBuffer m idx recvLen = some (ret, upd) ∧ ret < 0 ∧
    run (applyUpdate stray) s upd.toList = some s' ∧ s'.dciCa = s.dciCa ∧
    s'.nofDlReTxPerCell = s.nofDlReTxPerCell ∧ s'.nofUlReTxPerCell = s.nofUlReTxPerCell

section
variable (stray : NgscopeDciCell → ℤ → UeDci) {m : ByteMem} {idx recvLen : ℕ}

theorem rejectedWithoutTrace_of_none (s : RecvState)
    (h : recvBuffer m idx recvLen = some (-1, none)) :
    RejectedWithoutTrace stray m idx recvLen s :=
  ⟨-1, none, s, h, by decide, rfl, rfl, rfl, rfl⟩

/-- A DCI preamble leads to a refusal exactly when something is cut off. -/
theorem dci_rejected_iff (s : RecvState) (hm : ∀ j < recvLen, (m j).isSome)
    (haa : Holds m idx (List.replicate 4 0xAA)) (hdci : ¬ CompleteDci m idx recvLen) :
    RejectedWithoutTrace stray m idx recvLen s ↔ ¬ UnknownVersion m idx recvLen := by
  have hbuf : recvBuffer m idx recvLen = _ := recvBuffer_of_dci haa
  rcases recvOneDci_cases hm (idx+4) with ⟨hlen, hr⟩ | ⟨hlen, v, d, c, hv, hv0, _, hr⟩ |
    ⟨_, hv, _, hr⟩ | ⟨ulDl, d, c, hv, _, hul, hle, _⟩
  · rw [hr] at hbuf
    refine iff_of_true (rejectedWithoutTrace_of_none stray s hbuf) (fun hu => ?_)
    have := hu.2.1
    omega
  · -- an unknown version: the index after its sixteen bytes is returned
    rw [hr] at hbuf
    refine iff_of_false ?_ (not_not.mpr ⟨haa, by omega, by rw [hv]; simpa using hv0⟩)
    rintro ⟨ret, upd, _, hret, hneg, _⟩
    rw [hbuf] at hret
    simp only [Option.bind_some, Option.some.injEq, Prod.mk.injEq] at hret
    rw [if_neg (by omega)] at hret
    omega
  · rw [hr] at hbuf
    exact iff_of_true (rejectedWithoutTrace_of_none stray s hbuf) (fun hu => hu.2.2 hv)
  · exact absurd ⟨haa, hv, ulDl, hul, by omega⟩ hdci

/-- A CONFIG record is taken whatever its length. -/
theorem config_not_rejected (s : RecvState) (hbb : Holds m idx (List.replicate 4 0xBB)) :
    ¬ RejectedWithoutTrace stray m idx recvLen s := by
  rintro ⟨ret, upd, _, hret, hneg, _⟩
  rw [recvBuffer_of_config hbb] at hret
  obtain ⟨r, _, hr⟩ := Option.bind_eq_some_iff.mp hret
  cases hr
  omega

/-- Past both preambles the call fails and at most `go_exit` changes. -/
theorem other_rejected (s : RecvState) (haa : ¬ Holds m idx (List.replicate 4 0xAA))
    (hbb : ¬ Holds m idx (List.replicate 4 0xBB)) {r : ℤ × Option DciUpdate}
    (hr : recvBuffer m idx recvLen = some r) : RejectedWithoutTrace stray m idx recvLen s := by
  obtain ⟨hret, hupd | hupd⟩ := recvBuffer_of_other haa hbb hr
  · exact ⟨r.1, r.2, s, hr, by omega, by rw [hupd]; rfl, rfl, rfl, rfl⟩
  · exact ⟨r.1, r.2, { s with goExit := true }, hr, by omega, by rw [hupd]; rfl, rfl, rfl, rfl⟩

end

theorem cutConfig_of_holds {byte : ℕ → UInt8} {idx recvLen : ℕ}
    (hbb : Holds (ofFun byte) idx (List.replicate 4 0xBB))
    (hconfig : ¬ CompleteConfig (ofFun byte) idx recvLen) : CutConfig (ofFun byte) idx recvLen := by
  refine ⟨hbb, Or.inr ⟨byte (idx+4), rfl, ?_⟩⟩
  by_contra hle
  exact hconfig ⟨hbb, byte (idx+4), rfl, by omega⟩

theorem bytesAre_ofFun (byte : ℕ → UInt8) (b : UInt8) (k n : ℕ) :
    ∃ r, bytesAre (ofFun byte) b k n = some r := by
  cases h : bytesAre (ofFun byte) b k n with
  | some r => exact ⟨r, rfl⟩
  | none =>
    obtain ⟨_, _, _, hn⟩ := bytesAre_eq_none_iff.mp h
    cases hn

/-- Records that are not complete are refused without a trace, but for two kinds: a DCI of
an unknown version, whose `default` branch only prints, and a CONFIG that is cut off, whose
length nobody checks. -/
theorem recv_buffer_rejects_iff (stray : NgscopeDciCell → ℤ → UeDci) (byte : ℕ → UInt8)
    (idx recvLen : ℕ) (s : RecvState) (hconfig : ¬ CompleteConfig (ofFun byte) idx recvLen)
    (hdci : ¬ CompleteDci (ofFun byte) idx recvLen) :
    RejectedWithoutTrace stray (ofFun byte) idx recvLen s ↔
      ¬ UnknownVersion (ofFun byte) idx recvLen ∧ ¬ CutConfig (ofFun byte) idx recvLen := by
  by_cases haa : Holds (ofFun byte) idx (List.replicate 4 0xAA)
  · have hbb : ¬ Holds (ofFun byte) idx (List.replicate 4 0xBB) := by
      intro hbb
      have h0 := (haa 0 (by decide)).symm.trans (hbb 0 (by decide))
      exact absurd h0 (by decide)
    rw [dci_rejected_iff stray s (fun _ _ => rfl) haa hdci]
    exact ⟨fun h => ⟨h, fun hcut => hbb hcut.1⟩, And.left⟩
  · by_cases hbb : Holds (ofFun byte) idx (List.replicate 4 0xBB)
    · exact iff_of_false (config_not_rejected stray s hbb)
        (fun h => h.2 (cutConfig_of_holds hbb hconfig))
    · obtain ⟨a, ha⟩ := bytesAre_ofFun byte 0xAA idx 4
      obtain ⟨b, hb⟩ := bytesAre_ofFun byte 0xBB idx 4
      obtain ⟨e, he⟩ := bytesAre_ofFun byte 0xFF idx 4
      obtain ⟨r, hr⟩ : ∃ r, recvBuffer (ofFun byte) idx recvLen = some r :=
        exists_recvBuffer_of_other haa hbb ha hb he
      exact iff_of_true (other_rejected stray s haa hbb hr)
        ⟨fun h => haa h.1, fun h => hbb h.1⟩

/-- Eleven of the twelve bytes of a DCI preamble part are refused. -/
theorem recv_buffer_rejects_short_preamble :
    RejectedWithoutTrace (fun _ _ => UeDci.zero) (ofFun fun k => if k < 4 then 0xAA else 0) 0 15
      recvStateInit := by
  refine (recv_buffer_rejects_iff _ _ 0 15 _ ?_ ?_).mpr ⟨?_, ?_⟩
  · exact fun h => absurd (h.1 0 (by decide)) (by decide)
  · rintro ⟨_, _, _, _, h⟩
    omega
  · exact fun h => absurd h.2.1 (by decide)
  · exact fun h => absurd (h.1 0 (by decide)) (by decide)

/-- Sixteen bytes of version 1 make the call return 16, and an empty DCI is inserted. -/
theorem recv_buffer_takes_unknown_version :
    ¬ ∀ (stray : NgscopeDciCell → ℤ → UeDci) (byte : ℕ → UInt8) (idx recvLen : ℕ) (s : RecvState),
      ¬ CompleteConfig (ofFun byte) idx recvLen → ¬ CompleteDci (ofFun byte) idx recvLen →
        RejectedWithoutTrace stray (ofFun byte) idx recvLen s := by
  intro hall
  let byte : ℕ → UInt8 := fun k => if k < 4 then 0xAA else if k = 4 then 1 else 0
  obtain ⟨ret, upd, _, hret, hneg, _⟩ := hall (fun _ _ => UeDci.zero) byte 0 16 recvStateInit
    (fun h => absurd (h.1 0 (by decide)) (by decide))
    (fun h => absurd h.2.1 (by decide))
  have h16 : recvBuffer (ofFun byte) 0 16 = some (16, some (.caInsert UeDci.zero 0)) := by decide
  rw [h16] at hret
  cases hret
  omega

end CopaNgscope
