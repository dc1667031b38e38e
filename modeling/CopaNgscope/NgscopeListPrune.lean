import CopaNgscope.NgscopePacketHeap

/-! The two functions that prune the packet list. The one without a time deletes every node, and
goes on deleting behind the empty list where the head's own time is old. -/
namespace CopaNgscope
open LinkedHeap

/-- The loop of `ngscope_list_checkTimeDelay_woTime`: it tests the time of the head, and goes on
as long as either condition holds. -/
def checkTimeDelayWoTimeLoop (head : ℕ) (currTUs : UInt64) : ℕ → PacketHeap → Option PacketHeap
  | 0, _ => none
  | fuel+1, h => (h.getNext head).bind fun first => (h.getVal head).bind fun x =>
    if first ≠ none ∨ delayThdUs < currTUs-x.recvTUs then
      (delete1stElement h head).bind (checkTimeDelayWoTimeLoop head currTUs fuel)
    else some h

/-- `ngscope_list_checkTimeDelay_woTime`. -/
def heapCheckTimeDelayWoTime (fuel : ℕ) (h : PacketHeap) (head : ℕ) : Option PacketHeap :=
  (findLastNode h fuel head).bind fun last => (h.getVal last).bind fun x =>
    (h.getNext head).bind fun first =>
      match first with
      | none => some h
      | some _ => checkTimeDelayWoTimeLoop head x.recvTUs fuel h

/-- The time of the last node; that of the head where there is no other. -/
def lastRecvTUs (h : PacketHeap) (head : ℕ) (as : List ℕ) : UInt64 :=
  (h.val ((head :: as).getLast (List.cons_ne_nil head as))).recvTUs

/-- Both functions end, and both leave the nodes of the last second before the last node. -/
def PruneAlike (fuel : ℕ) (h : PacketHeap) (head : ℕ) (as : List ℕ) : Prop :=
  ∃ h₁ h₂ as', heapCheckTimeDelayWoTime fuel h head = some h₁ ∧
    heapCheckTimeDelayWTime head (lastRecvTUs h head as) fuel h = some h₂ ∧
    IsList h₁ head as' ∧ IsList h₂ head as' ∧
    as'.map h.val = (as.map h.val).filter
      (fun p => (lastRecvTUs h head as).toNat ≤ p.recvTUs.toNat+1000000)

section
variable {h : PacketHeap} {head : ℕ} {as : List ℕ}

/-- The only node is unlinked and freed. -/
theorem delete1stElement_only {a : ℕ} (hl : IsList h head [a]) :
    ∃ h', delete1stElement h head = some h' ∧ IsList h' head [] ∧ h'.val = h.val := by
  have hhead := hl.live head List.mem_cons_self
  have ha := hl.live a (List.mem_cons_of_mem _ List.mem_cons_self)
  have hne : head ≠ a := fun heq => (List.nodup_cons.mp hl.nodup).1 (by simp [heq])
  have hlive : Function.update h.live a false head = true := by
    rw [Function.update_of_ne hne, hhead]
  refine ⟨{ h with
    live := Function.update h.live a false
    next := Function.update h.next head none }, ?_,
    IsList.empty hlive (Function.update_self _ _ _), rfl⟩
  rw [delete1stElement, ListHeap.getNext, if_pos hhead, Option.bind_some, hl.path.1]
  simp only
  rw [ListHeap.getNext, if_pos ha, Option.bind_some, show h.next a = none from hl.path.2,
    ListHeap.free, if_pos ha, Option.bind_some]
  exact if_pos hlive

theorem delete1stElement_cons {a : ℕ} (hl : IsList h head (a :: as)) :
    ∃ h', delete1stElement h head = some h' ∧ IsList h' head as ∧ h'.val = h.val := by
  cases as with
  | nil => exact delete1stElement_only hl
  | cons b bs => exact delete1stElement_eq hl

/-- The function reads behind the first node of an empty list. -/
theorem delete1stElement_empty (hl : IsList h head []) : delete1stElement h head = none := by
  rw [delete1stElement, ListHeap.getNext, if_pos (hl.live head List.mem_cons_self),
    Option.bind_some, show h.next head = none from hl.path]

/-- The loop empties the list, and fails where the head's time is old. -/
theorem checkTimeDelayWoTimeLoop_eq (currTUs : UInt64) (hl : IsList h head as) {fuel : ℕ}
    (hfuel : as.length < fuel) :
    (delayThdUs < currTUs-(h.val head).recvTUs ∧
      checkTimeDelayWoTimeLoop head currTUs fuel h = none) ∨
    ∃ h', checkTimeDelayWoTimeLoop head currTUs fuel h = some h' ∧ IsList h' head [] := by
  induction as generalizing h fuel with
  | nil =>
    obtain ⟨fuel, rfl⟩ : ∃ f, fuel = f+1 := ⟨fuel-1, by rw [List.length_nil] at hfuel; omega⟩
    have hhead := hl.live head List.mem_cons_self
    rw [checkTimeDelayWoTimeLoop, ListHeap.getNext, if_pos hhead, Option.bind_some,
      ListHeap.getVal, if_pos hhead, Option.bind_some, show h.next head = none from hl.path]
    -- nothing is left to delete, and the time of the head decides
    by_cases hold : delayThdUs < currTUs-(h.val head).recvTUs
    · left
      rw [if_pos (Or.inr hold), delete1stElement_empty hl]
      exact ⟨hold, rfl⟩
    · right
      rw [if_neg (fun hc => hc.elim (fun hn => hn rfl) hold)]
      exact ⟨h, rfl, hl⟩
  | cons a as ih =>
    rw [List.length_cons] at hfuel
    obtain ⟨fuel, rfl⟩ : ∃ f, fuel = f+1 := ⟨fuel-1, by omega⟩
    have hhead := hl.live head List.mem_cons_self
    obtain ⟨h', hdel, hl', hval⟩ := delete1stElement_cons hl
    -- a node behind the head is reason enough to delete it
    rw [checkTimeDelayWoTimeLoop, ListHeap.getNext, if_pos hhead, Option.bind_some,
      ListHeap.getVal, if_pos hhead, Option.bind_some, hl.path.1,
      if_pos (Or.inl (Option.some_ne_none a)), hdel, Option.bind_some, ← hval]
    exact ih hl' (by omega)

theorem heapCheckTimeDelayWoTime_empty (hl : IsList h head []) {fuel : ℕ} (hfuel : 0 < fuel) :
    heapCheckTimeDelayWoTime fuel h head = some h := by
  have hhead := hl.live head List.mem_cons_self
  rw [heapCheckTimeDelayWoTime, findLastNode_eq hl.path hl.live hfuel, Option.bind_some]
  simp only [List.getLast_singleton]
  rw [ListHeap.getVal, if_pos hhead, Option.bind_some, ListHeap.getNext, if_pos hhead,
    Option.bind_some, show h.next head = none from hl.path]

/-- With a node in the list the function fails or leaves no node. -/
theorem heapCheckTimeDelayWoTime_cons {a : ℕ} (hl : IsList h head (a :: as)) {fuel : ℕ}
    (hfuel : (a :: as).length < fuel) :
    (delayThdUs < lastRecvTUs h head (a :: as)-(h.val head).recvTUs ∧
      heapCheckTimeDelayWoTime fuel h head = none) ∨
    ∃ h', heapCheckTimeDelayWoTime fuel h head = some h' ∧ IsList h' head [] := by
  have hhead := hl.live head List.mem_cons_self
  have hlast := hl.live _ (List.getLast_mem (List.cons_ne_nil head (a :: as)))
  rw [heapCheckTimeDelayWoTime, findLastNode_eq hl.path hl.live hfuel, Option.bind_some,
    ListHeap.getVal, if_pos hlast, Option.bind_some, ListHeap.getNext, if_pos hhead,
    Option.bind_some, hl.path.1]
  exact checkTimeDelayWoTimeLoop_eq _ hl hfuel

/-- With the time of the last node the other function leaves the last second. -/
theorem heapCheckTimeDelayWTime_last (hl : IsList h head as)
    (hs : (as.map (fun a => (h.val a).recvTUs)).Pairwise (· ≤ ·)) {fuel : ℕ}
    (hfuel : as.length < fuel) :
    ∃ h₂ as', heapCheckTimeDelayWTime head (lastRecvTUs h head as) fuel h = some h₂ ∧
      IsList h₂ head as' ∧ as'.map h.val = (as.map h.val).filter
        (fun p => (lastRecvTUs h head as).toNat ≤ p.recvTUs.toNat+1000000) := by
  obtain ⟨h₂, as', hrun, hl₂, _, _, hmap⟩ :=
    heapCheckTimeDelayWTime_eq (lastRecvTUs h head as) hl hfuel
  refine ⟨h₂, as', hrun, hl₂, hmap.trans (checkTimeDelay_eq_filter ?_ ?_)⟩
  · rwa [List.map_map]
  · intro p hp
    have hne : as ≠ [] := by
      rintro rfl
      cases hp
    rw [val_getLast h head hne] at hp
    rw [← Option.some.inj hp]
    rfl

/-- The last node is never too old to stay. -/
theorem lastSecond_ne_nil (h : PacketHeap) (head : ℕ) (hne : as ≠ []) :
    (as.map h.val).filter
      (fun p => (lastRecvTUs h head as).toNat ≤ p.recvTUs.toNat+1000000) ≠ [] := by
  have hlast := val_getLast h head hne
  have hmem := List.mem_of_mem_getLast? (Option.mem_def.mpr hlast)
  have hstay : (decide ((lastRecvTUs h head as).toNat ≤
      (h.val ((head :: as).getLast (List.cons_ne_nil head as))).recvTUs.toNat+1000000)) = true :=
    decide_eq_true (Nat.le_add_right _ _)
  exact List.ne_nil_of_mem (List.mem_filter.mpr ⟨hmem, hstay⟩)

/-- With a node in the list, a run that ends leaves nothing, but the last node should stay. -/
theorem not_pruneAlike_cons {a : ℕ} (hl : IsList h head (a :: as)) {fuel : ℕ}
    (hfuel : (a :: as).length < fuel) : ¬ PruneAlike fuel h head (a :: as) := by
  rintro ⟨h₁, _, as', hrun, _, hl₁, _, hmap⟩
  rcases heapCheckTimeDelayWoTime_cons hl hfuel with ⟨_, hnone⟩ | ⟨h', hrun', hl'⟩
  · rw [hnone] at hrun
    cases hrun
  · obtain rfl : h' = h₁ := Option.some.inj (hrun'.symm.trans hrun)
    have hempty : as' = [] := by
      cases as' with
      | nil => rfl
      | cons b bs =>
        have hnext := hl₁.path.1
        rw [show h'.next head = none from hl'.path] at hnext
        cases hnext
    rw [hempty] at hmap
    exact lastSecond_ne_nil h head (List.cons_ne_nil a as) hmap.symm

/-- A list without nodes is the only one on which the two functions agree; the one with a time
always leaves the last second. -/
theorem pruneAlike_iff (hl : IsList h head as)
    (hs : (as.map (fun a => (h.val a).recvTUs)).Pairwise (· ≤ ·)) {fuel : ℕ}
    (hfuel : as.length < fuel) :
    (PruneAlike fuel h head as ↔ as = []) ∧
      ∃ h₂ as', heapCheckTimeDelayWTime head (lastRecvTUs h head as) fuel h = some h₂ ∧
        IsList h₂ head as' ∧ as'.map h.val = (as.map h.val).filter
          (fun p => (lastRecvTUs h head as).toNat ≤ p.recvTUs.toNat+1000000) := by
  have hright := heapCheckTimeDelayWTime_last hl hs hfuel
  refine ⟨⟨?_, ?_⟩, hright⟩
  · intro halike
    cases as with
    | nil => rfl
    | cons a as => exact absurd halike (not_pruneAlike_cons hl hfuel)
  · rintro rfl
    obtain ⟨h₂, as', hrun, hl₂, hmap⟩ := hright
    have hempty : as' = [] := List.map_eq_nil_iff.mp hmap
    rw [hempty] at hl₂
    exact ⟨h, h₂, [], heapCheckTimeDelayWoTime_empty hl (by omega), hrun, hl, hl₂, rfl⟩

end

/-- The head at address 0 and one packet behind it, received at the time `recvTUs`. -/
def packetBehindHead (recvTUs : UInt64) : PacketHeap where
  live := fun a => a ≤ 1
  val := fun a => if a = 0 then nodeAt 0 0 else nodeAt 1 recvTUs
  next := fun a => if a = 0 then some 1 else none
  prev := fun a => if a = 1 then some 0 else none

theorem isList_packetBehindHead (recvTUs : UInt64) :
    IsList (packetBehindHead recvTUs) 0 [1] where
  path := ⟨rfl, rfl⟩
  back := ⟨rfl, trivial⟩
  live := by
    intro a ha
    rcases List.mem_pair.mp ha with rfl | rfl
    · rfl
    · rfl
  nodup := by decide

/-- A packet that is its own last one is deleted, and then, two seconds after the head's time,
the function reads through the null pointer. -/
theorem pruneAlike_packetBehindHead :
    (∃ h', heapCheckTimeDelayWoTime 2 (packetBehindHead 7) 0 = some h' ∧ IsList h' 0 []) ∧
      (∃ h', heapCheckTimeDelayWTime 0 7 2 (packetBehindHead 7) = some h' ∧ IsList h' 0 [1]) ∧
      ¬ PruneAlike 2 (packetBehindHead 7) 0 [1] ∧
      heapCheckTimeDelayWoTime 5 (packetBehindHead 2000000) 0 = none := by
  refine ⟨?_, ⟨_, rfl, isList_packetBehindHead 7⟩, ?_, rfl⟩
  · rcases heapCheckTimeDelayWoTime_cons (isList_packetBehindHead 7)
      (show [1].length < 2 by decide) with ⟨hold, _⟩ | hrun
    · exact absurd hold (by decide)
    · exact hrun
  · exact not_pruneAlike_cons (isList_packetBehindHead 7) (by decide)

/-- The function that is given the time keeps the packet. -/
theorem pruneAlike_iff_packetBehindHead :
    ¬ PruneAlike 2 (packetBehindHead 7) 0 [1] ∧
      ∃ h₂ as', heapCheckTimeDelayWTime 0 7 2 (packetBehindHead 7) = some h₂ ∧ IsList h₂ 0 as' ∧
        as'.map (packetBehindHead 7).val = [nodeAt 1 7] := by
  obtain ⟨halike, hright⟩ :=
    pruneAlike_iff (isList_packetBehindHead 7) (by simp) (show [1].length < 2 by decide)
  obtain ⟨h₂, as', hrun, hlist, hkept⟩ := hright
  exact ⟨halike.not.mpr (List.cons_ne_nil _ _), h₂, as', hrun, hlist, hkept⟩

end CopaNgscope
