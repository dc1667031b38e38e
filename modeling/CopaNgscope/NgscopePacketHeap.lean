import CopaNgscope.LinkedHeap
import CopaNgscope.NgscopeClientEcho

/-! The packet list as `ngscope_packet_list.cc` keeps it: nodes with `next` and `prev` behind a
head. An insertion finds the last node, links the new one behind it and frees the nodes that are
too old. -/
namespace CopaNgscope
open RunInvariant LinkedHeap

/-- The nodes in memory; a node's packet knows its address. -/
abbrev PacketHeap := ListHeap PacketNode

/-! ### The functions on pointers

`none` is an access through a null pointer or to a freed node, or a loop that runs out of fuel. -/

def findLastNode (h : PacketHeap) : ℕ → ℕ → Option ℕ
  | 0, _ => none
  | fuel+1, p => (h.getNext p).bind fun next =>
    match next with
    | none => some p
    | some q => findLastNode h fuel q

/-- The function reads `head->next->next` before it tests `head->next`. -/
def delete1stElement (h : PacketHeap) (head : ℕ) : Option PacketHeap :=
  (h.getNext head).bind fun first =>
    match first with
    | none => none
    | some first => (h.getNext first).bind fun p => (h.free first).bind fun h =>
      match p with
      | some p => (h.setNext head (some p)).bind fun h => h.setPrev p (some head)
      | none => h.setNext head none

def heapCheckTimeDelayWTime (head : ℕ) (currTUs : UInt64) : ℕ → PacketHeap → Option PacketHeap
  | 0, _ => none
  | fuel+1, h => (h.getNext head).bind fun first =>
    match first with
    | none => some h
    | some p => (h.getNext p).bind fun second => (h.getVal p).bind fun x =>
      if second ≠ none ∧ delayThdUs < currTUs-x.recvTUs then
        (delete1stElement h head).bind (heapCheckTimeDelayWTime head currTUs fuel)
      else some h

def heapInsertNodeCheckTime (fuel : ℕ) (h : PacketHeap) (head node : ℕ) : Option PacketHeap :=
  (h.getNext head).bind fun first =>
    match first with
    | none => (h.setNext head (some node)).bind fun h => h.setPrev node (some head)
    | some _ => (h.getVal node).bind fun x => (findLastNode h fuel head).bind fun p =>
      (h.getVal p).bind fun last =>
        -- the node is not linked, and nothing frees it
        if x.recvTUs < last.recvTUs then some h
        else
          (h.setNext p (some node)).bind fun h => (h.setPrev node (some p)).bind fun h =>
            heapCheckTimeDelayWTime head x.recvTUs fuel h

/-- A node is created for the packet and inserted, as in `enqueue_pkt`. -/
def insertPacket (fuel head : ℕ) (h : PacketHeap) (p : PacketNode) : Option PacketHeap :=
  heapInsertNodeCheckTime fuel (h.create p.node p) head p.node

/-- A head that was just created; `val` is what the memory holds. -/
def freshHead (head : ℕ) (val : ℕ → PacketNode) : PacketHeap where
  live := fun a => a = head
  val := val
  next := fun _ => none
  prev := fun _ => none

/-! ### What each function does to a list -/

theorem findLastNode_eq {h : PacketHeap} {a : ℕ} {as : List ℕ} (hpath : Path h.next a as)
    (hlive : ∀ b ∈ a :: as, h.live b = true) {fuel : ℕ} (hfuel : as.length < fuel) :
    findLastNode h fuel a = some ((a :: as).getLast (List.cons_ne_nil a as)) := by
  induction as generalizing a fuel with
  | nil =>
    obtain ⟨fuel, rfl⟩ : ∃ f, fuel = f+1 := ⟨fuel-1, by rw [List.length_nil] at hfuel; omega⟩
    rw [findLastNode, ListHeap.getNext, if_pos (hlive a List.mem_cons_self), Option.bind_some,
      show h.next a = none from hpath]
    rfl
  | cons b bs ih =>
    rw [List.length_cons] at hfuel
    obtain ⟨fuel, rfl⟩ : ∃ f, fuel = f+1 := ⟨fuel-1, by omega⟩
    obtain ⟨hab, hrest⟩ := hpath
    rw [findLastNode, ListHeap.getNext, if_pos (hlive a List.mem_cons_self), Option.bind_some,
      hab, List.getLast_cons (List.cons_ne_nil b bs)]
    exact ih hrest (fun c hc => hlive c (List.mem_cons_of_mem a hc)) (by omega)

theorem delete1stElement_eq {h : PacketHeap} {head a b : ℕ} {as : List ℕ}
    (hl : IsList h head (a :: b :: as)) :
    ∃ h', delete1stElement h head = some h' ∧ IsList h' head (b :: as) ∧ h'.val = h.val := by
  obtain ⟨h', hdel, hl', hval, _⟩ := hl.deleteFirst
  refine ⟨h', ?_, hl', hval⟩
  have hhead := hl.live head List.mem_cons_self
  have ha := hl.live a (List.mem_cons_of_mem _ List.mem_cons_self)
  rw [delete1stElement, ListHeap.getNext, if_pos hhead, Option.bind_some, hl.path.1]
  simp only
  rw [ListHeap.getNext, if_pos ha, Option.bind_some, hl.path.2.1]
  exact hdel

/-- The pruning loop frees the nodes that the pruned list leaves out. -/
theorem heapCheckTimeDelayWTime_eq (currTUs : UInt64) {h : PacketHeap} {head : ℕ} {as : List ℕ}
    (hl : IsList h head as) {fuel : ℕ} (hfuel : as.length < fuel) :
    ∃ h' as', heapCheckTimeDelayWTime head currTUs fuel h = some h' ∧ IsList h' head as' ∧
      h'.val = h.val ∧ as' <:+ as ∧
      as'.map h.val = (ngscopeListCheckTimeDelayWTime currTUs (as.map h.val)).1 := by
  induction as generalizing h fuel with
  | nil =>
    obtain ⟨fuel, rfl⟩ : ∃ f, fuel = f+1 := ⟨fuel-1, by rw [List.length_nil] at hfuel; omega⟩
    refine ⟨h, [], ?_, hl, rfl, List.suffix_rfl, rfl⟩
    rw [heapCheckTimeDelayWTime, ListHeap.getNext, if_pos (hl.live head List.mem_cons_self),
      Option.bind_some, show h.next head = none from hl.path]
  | cons a as ih =>
    rw [List.length_cons] at hfuel
    obtain ⟨fuel, rfl⟩ : ∃ f, fuel = f+1 := ⟨fuel-1, by omega⟩
    have hhead := hl.live head List.mem_cons_self
    have ha := hl.live a (List.mem_cons_of_mem _ List.mem_cons_self)
    rw [heapCheckTimeDelayWTime, ListHeap.getNext, if_pos hhead, Option.bind_some, hl.path.1]
    simp only
    rw [ListHeap.getNext, if_pos ha, Option.bind_some, ListHeap.getVal, if_pos ha,
      Option.bind_some]
    cases as with
    | nil =>
      refine ⟨h, [a], ?_, hl, rfl, List.suffix_rfl, rfl⟩
      exact if_neg (fun hc => hc.1 hl.path.2)
    | cons b bs =>
      rw [hl.path.2.1, List.map_cons, List.map_cons, ngscopeListCheckTimeDelayWTime]
      by_cases hold : delayThdUs < currTUs-(h.val a).recvTUs
      · obtain ⟨h', hdel, hl', hval⟩ := delete1stElement_eq hl
        obtain ⟨h'', as', hrun, hl'', hval', hsuffix, hmap⟩ :=
          ih hl' (show (b :: bs).length < fuel by omega)
        refine ⟨h'', as', ?_, hl'', hval'.trans hval, hsuffix.trans (List.suffix_cons a _), ?_⟩
        · rw [if_pos ⟨Option.some_ne_none b, hold⟩, hdel, Option.bind_some, hrun]
        · rw [if_pos hold, ← hval, hmap]
          rfl
      · refine ⟨h, a :: b :: bs, ?_, hl, rfl, List.suffix_rfl, ?_⟩
        · rw [if_neg (fun hc => hold hc.2)]
        · rw [if_neg hold]
          rfl

/-- The last node on the path holds the last value. -/
theorem val_getLast (h : PacketHeap) (head : ℕ) {as : List ℕ} (hne : as ≠ []) :
    (as.map h.val).getLast? =
      some (h.val ((head :: as).getLast (List.cons_ne_nil head as))) := by
  rw [List.getLast?_map, List.getLast_cons hne, List.getLast?_eq_some_getLast hne]
  rfl

/-- An insertion does on the pointers what it does on the list of packets: a node that comes
too early leaves the memory as it was. -/
theorem heapInsertNodeCheckTime_eq {h : PacketHeap} {head node : ℕ} {as : List ℕ}
    (hl : IsList h head as) (hout : node ∉ head :: as) (hlive : h.live node = true)
    (hnull : h.next node = none) {fuel : ℕ} (hfuel : as.length+1 < fuel) :
    (∃ last, ngscopeListInsertNodeCheckTime (as.map h.val) (h.val node) = .dropped last ∧
      heapInsertNodeCheckTime fuel h head node = some h) ∨
    ∃ h' as' freed, ngscopeListInsertNodeCheckTime (as.map h.val) (h.val node) =
        .inserted (as'.map h.val) freed ∧
      heapInsertNodeCheckTime fuel h head node = some h' ∧ IsList h' head as' ∧
      h'.val = h.val ∧ as' <:+ as ++ [node] := by
  have hhead := hl.live head List.mem_cons_self
  obtain ⟨h', hlink, hl', hval, _⟩ := hl.concat hout hlive hnull
  rw [heapInsertNodeCheckTime, ListHeap.getNext, if_pos hhead, Option.bind_some]
  cases as with
  | nil =>
    right
    refine ⟨h', [node], [], rfl, ?_, hl', hval, List.suffix_rfl⟩
    rw [show h.next head = none from hl.path]
    exact hlink
  | cons a as =>
    have hne : a :: as ≠ [] := List.cons_ne_nil a as
    have hlastlive := hl.live _ (List.getLast_mem (List.cons_ne_nil head (a :: as)))
    have hfind := findLastNode_eq hl.path hl.live (show (a :: as).length < fuel by omega)
    have hlast := val_getLast h head hne
    rw [hl.path.1]
    simp only
    rw [ListHeap.getVal, if_pos hlive, Option.bind_some, hfind, Option.bind_some,
      ListHeap.getVal, if_pos hlastlive, Option.bind_some]
    unfold ngscopeListInsertNodeCheckTime
    rw [hlast]
    simp only
    split_ifs with hearly
    · exact Or.inl ⟨_, rfl, rfl⟩
    · right
      obtain ⟨h'', as', hrun, hl'', hval', hsuffix, hmap⟩ :=
        heapCheckTimeDelayWTime_eq (h.val node).recvTUs hl'
          (show (a :: as ++ [node]).length < fuel by
            rw [List.length_append, List.length_singleton]
            omega)
      rw [hval, List.map_append] at hmap
      refine ⟨h'', as', _, congrArg (InsertOutcome.inserted · _) hmap.symm, ?_, hl'',
        hval'.trans hval, hsuffix⟩
      obtain ⟨g, hg, hg'⟩ := Option.bind_eq_some_iff.mp hlink
      rw [hg, Option.bind_some, hg', Option.bind_some, hrun]

/-! ### The window -/

/-- A packet comes too early for the end of the log. -/
def TooEarly (log : List PacketNode) (p : PacketNode) : Prop :=
  ∃ last ∈ log.getLast?, p.recvTUs < last.recvTUs

/-- The log of the packets that were accepted, one insertion on. -/
def accept (log : List PacketNode) (p : PacketNode) : List PacketNode :=
  match log.getLast? with
  | none => log ++ [p]
  | some last => if p.recvTUs < last.recvTUs then log else log ++ [p]

def acceptedLog (ps : List PacketNode) : List PacketNode := ps.foldl accept []

/-- The packets received at most a second before the newest one. -/
def lastSecond (log : List PacketNode) : List PacketNode :=
  match log.getLast? with
  | none => []
  | some newest => log.filter (fun p => newest.recvTUs.toNat ≤ p.recvTUs.toNat+1000000)

theorem accept_of_tooEarly {log : List PacketNode} {p : PacketNode} (h : TooEarly log p) :
    accept log p = log := by
  obtain ⟨last, hlast, hlt⟩ := h
  rw [accept, hlast]
  exact if_pos hlt

theorem accept_of_not_tooEarly {log : List PacketNode} {p : PacketNode} (h : ¬ TooEarly log p) :
    accept log p = log ++ [p] := by
  unfold accept
  cases hlast : log.getLast? with
  | none => rfl
  | some last => exact if_neg (fun hlt => h ⟨last, hlast, hlt⟩)

theorem length_accept_le (log : List PacketNode) (p : PacketNode) :
    (accept log p).length ≤ log.length+1 := by
  by_cases hearly : TooEarly log p
  · rw [accept_of_tooEarly hearly]
    omega
  · rw [accept_of_not_tooEarly hearly, List.length_append, List.length_singleton]

theorem sorted_accept {log : List PacketNode}
    (hs : (log.map PacketNode.recvTUs).Pairwise (· ≤ ·)) (p : PacketNode) :
    ((accept log p).map PacketNode.recvTUs).Pairwise (· ≤ ·) := by
  by_cases hearly : TooEarly log p
  · rwa [accept_of_tooEarly hearly]
  · rw [accept_of_not_tooEarly hearly]
    refine sorted_concat hs (fun q hq => ?_)
    have hlast := List.getLast?_eq_some_getLast (List.ne_nil_of_mem hq)
    have hle := le_getLast_recvT hs hlast hq
    exact UInt64.le_trans hle (UInt64.not_lt.mp (fun hlt => hearly ⟨_, hlast, hlt⟩))

theorem lastSecond_sublist (log : List PacketNode) : (lastSecond log).Sublist log := by
  unfold lastSecond
  cases log.getLast? with
  | none => exact List.nil_sublist log
  | some newest => exact List.filter_sublist

theorem lastSecond_concat (log : List PacketNode) (p : PacketNode) :
    lastSecond (log ++ [p]) =
      (log ++ [p]).filter (fun q => p.recvTUs.toNat ≤ q.recvTUs.toNat+1000000) := by
  rw [lastSecond, List.getLast?_concat]

/-- The newest packet is never old, so the window ends where the log does. -/
theorem getLast?_lastSecond (log : List PacketNode) :
    (lastSecond log).getLast? = log.getLast? := by
  induction log using List.reverseRecOn with
  | nil => rfl
  | append_singleton log p _ =>
    have hnew : ([p] : List PacketNode).filter
        (fun q => p.recvTUs.toNat ≤ q.recvTUs.toNat+1000000) = [p] := by
      simp
    rw [lastSecond_concat, List.filter_append, hnew, List.getLast?_concat, List.getLast?_concat]

/-- With the newest packet last, a packet is too old exactly when it left the last second. -/
theorem delayThd_lt_iff {currTUs recvTUs : UInt64} (hle : recvTUs ≤ currTUs) :
    delayThdUs < currTUs-recvTUs ↔ recvTUs.toNat+1000000 < currTUs.toNat := by
  refine ⟨recvT_lt_of_delayThd hle, fun hlt => ?_⟩
  rw [UInt64.lt_iff_toNat_lt, UInt64.toNat_sub_of_le _ _ hle]
  change 1000000 < currTUs.toNat-recvTUs.toNat
  omega

/-- On packets in receive order that end with the current one, pruning keeps the last second. -/
theorem checkTimeDelay_eq_filter {currTUs : UInt64} {ps : List PacketNode}
    (hs : (ps.map PacketNode.recvTUs).Pairwise (· ≤ ·))
    (hlast : ∀ p ∈ ps.getLast?, p.recvTUs = currTUs) :
    (ngscopeListCheckTimeDelayWTime currTUs ps).1 =
      ps.filter (fun p => currTUs.toNat ≤ p.recvTUs.toNat+1000000) := by
  fun_induction ngscopeListCheckTimeDelayWTime currTUs ps with
  | case1 p q rest hold r ih =>
    have hne : q :: rest ≠ [] := List.cons_ne_nil q rest
    have hend : (p :: q :: rest).getLast? = (q :: rest).getLast? := by
      rw [List.getLast?_cons_cons]
    obtain ⟨last, hq⟩ := Option.ne_none_iff_exists'.mp (mt List.getLast?_eq_none_iff.mp hne)
    have hcurr := hlast last (hend.trans hq)
    have hle : p.recvTUs ≤ currTUs :=
      hcurr ▸ le_getLast_recvT hs (hend.trans hq) List.mem_cons_self
    have hold' := (delayThd_lt_iff hle).mp hold
    rw [List.filter_cons_of_neg (by simpa using hold')]
    exact ih (List.Pairwise.of_cons hs) (fun x hx => hlast x (hend.trans hx))
  | case2 p q rest hold =>
    -- the first packet stays, and all others came after it
    obtain ⟨last, hend⟩ := Option.ne_none_iff_exists'.mp
      (mt List.getLast?_eq_none_iff.mp (List.cons_ne_nil p (q :: rest)))
    have hcurr := hlast last hend
    have hle : p.recvTUs ≤ currTUs := hcurr ▸ le_getLast_recvT hs hend List.mem_cons_self
    have hstay := mt (delayThd_lt_iff hle).mpr hold
    refine (List.filter_eq_self.mpr (fun x hx => ?_)).symm
    have hpx : p.recvTUs.toNat ≤ x.recvTUs.toNat := by
      rcases List.mem_cons.mp hx with rfl | hx
      · exact le_rfl
      · exact UInt64.le_iff_toNat_le.mp
          (List.rel_of_pairwise_cons hs (List.mem_map_of_mem hx))
    exact decide_eq_true (by omega)
  | case3 ps hshort =>
    refine (List.filter_eq_self.mpr (fun x hx => ?_)).symm
    have honly : ps.getLast? = some x := by
      rcases ps with - | ⟨p, - | ⟨q, rest⟩⟩
      · cases hx
      · rw [List.mem_singleton.mp hx]
        rfl
      · exact absurd rfl (hshort p q rest)
    rw [hlast x honly]
    exact decide_eq_true (by omega)

theorem lastSecond_accept {log : List PacketNode} {p : PacketNode}
    (hs : (log.map PacketNode.recvTUs).Pairwise (· ≤ ·)) :
    (TooEarly log p ∧ ∃ last, ngscopeListInsertNodeCheckTime (lastSecond log) p =
        .dropped last) ∨
    (¬ TooEarly log p ∧ ∃ freed, ngscopeListInsertNodeCheckTime (lastSecond log) p =
        .inserted (lastSecond (log ++ [p])) freed) := by
  have hend := getLast?_lastSecond log
  unfold ngscopeListInsertNodeCheckTime
  rw [hend]
  cases hlast : log.getLast? with
  | none =>
    right
    obtain rfl := List.getLast?_eq_none_iff.mp hlast
    refine ⟨?_, [], ?_⟩
    · rintro ⟨last, hmem, _⟩
      cases hmem
    · rw [lastSecond_concat]
      simp
  | some last =>
    simp only
    split_ifs with hearly
    · exact Or.inl ⟨⟨last, hlast, hearly⟩, last, rfl⟩
    · right
      have hge : last.recvTUs ≤ p.recvTUs := UInt64.not_lt.mp hearly
      refine ⟨?_, _, congrArg (InsertOutcome.inserted · _) ?_⟩
      · rintro ⟨x, hx, hlt⟩
        rw [hlast] at hx
        exact hearly (Option.some.inj hx ▸ hlt)
      · have hle : ∀ q ∈ lastSecond log, q.recvTUs ≤ p.recvTUs := fun q hq =>
          UInt64.le_trans (le_getLast_recvT hs hlast ((lastSecond_sublist log).subset hq)) hge
        have hsorted := sorted_concat (hs.sublist ((lastSecond_sublist log).map _)) hle
        rw [checkTimeDelay_eq_filter hsorted (fun x hx => by
          rw [List.getLast?_concat] at hx
          rw [← Option.some.inj hx]), lastSecond_concat, List.filter_append, List.filter_append]
        congr 1
        -- what is in the window of the new packet was in the window before it
        have hwindow : lastSecond log =
            log.filter (fun q => last.recvTUs.toNat ≤ q.recvTUs.toNat+1000000) := by
          rw [lastSecond, hlast]
        rw [hwindow, List.filter_filter]
        refine List.filter_congr (fun q _ => ?_)
        have hnat := UInt64.le_iff_toNat_le.mp hge
        simp only [Bool.and_eq_left_iff_imp, decide_eq_true_eq]
        omega

/-! ### Runs -/

/-- The list behind the head is the last second of the log: its nodes, in order, linked in both
directions. -/
def ShowsWindow (h : PacketHeap) (head : ℕ) (log : List PacketNode) : Prop :=
  IsList h head ((lastSecond log).map PacketNode.node) ∧
    ∀ p ∈ lastSecond log, h.val p.node = p

theorem showsWindow_init (head : ℕ) (val : ℕ → PacketNode) :
    ShowsWindow (freshHead head val) head [] :=
  ⟨IsList.empty (decide_eq_true rfl) rfl, fun _ hp => absurd hp List.not_mem_nil⟩

/-- One insertion of a new node: it changes nothing when it comes too early, and moves the
window on otherwise. -/
theorem ShowsWindow.insert {h : PacketHeap} {head : ℕ} {log : List PacketNode}
    (hw : ShowsWindow h head log) (hs : (log.map PacketNode.recvTUs).Pairwise (· ≤ ·))
    {p : PacketNode} (hfresh : h.live p.node = false) {fuel : ℕ} (hfuel : log.length+1 < fuel) :
    ∃ h', insertPacket fuel head h p = some h' ∧ ShowsWindow h' head (accept log p) ∧
      (TooEarly log p → h' = h.create p.node p) := by
  obtain ⟨hl, hout⟩ := hw.1.create hfresh p
  have hnew : (h.create p.node p).val p.node = p := Function.update_self _ _ _
  have hold (q : PacketNode) (hq : q ∈ lastSecond log) : (h.create p.node p).val q.node = q := by
    have hne : q.node ≠ p.node := fun heq =>
      hout (heq ▸ List.mem_cons_of_mem head (List.mem_map_of_mem hq))
    exact (Function.update_of_ne hne _ _).trans (hw.2 q hq)
  have hvals : ((lastSecond log).map PacketNode.node).map (h.create p.node p).val =
      lastSecond log := by
    rw [List.map_map]
    exact (List.map_congr_left hold).trans (List.map_id _)
  have hlen : ((lastSecond log).map PacketNode.node).length+1 < fuel := by
    have hle := (lastSecond_sublist log).length_le
    rw [List.length_map]
    omega
  have hspec := heapInsertNodeCheckTime_eq hl hout (Function.update_self _ _ _)
    (Function.update_self _ _ _) hlen
  rw [hvals, hnew] at hspec
  rcases lastSecond_accept hs (p := p) with ⟨hearly, last, hdrop⟩ | ⟨hlate, freed, hins⟩
  · rcases hspec with ⟨_, _, hrun⟩ | ⟨_, _, _, hlist, _⟩
    · rw [accept_of_tooEarly hearly]
      exact ⟨_, hrun, ⟨hl, hold⟩, fun _ => rfl⟩
    · rw [hdrop] at hlist
      cases hlist
  · rcases hspec with ⟨_, hlist, _⟩ | ⟨h', as', freed', hlist, hrun, hl', hval', hsuffix⟩
    · rw [hins] at hlist
      cases hlist
    · rw [hins] at hlist
      injection hlist with hwindow _
      -- every address of the new list holds the packet that knows it
      have hself : ∀ a ∈ as', ((h.create p.node p).val a).node = a := by
        intro a ha
        rcases List.mem_append.mp (hsuffix.subset ha) with hmem | hmem
        · obtain ⟨q, hq, rfl⟩ := List.mem_map.mp hmem
          rw [hold q hq]
        · rw [List.mem_singleton.mp hmem, hnew]
      have hnodes : (lastSecond (log ++ [p])).map PacketNode.node = as' := by
        rw [hwindow, List.map_map]
        exact (List.map_congr_left hself).trans (List.map_id _)
      rw [accept_of_not_tooEarly hlate]
      refine ⟨h', hrun, ⟨?_, fun q hq => ?_⟩, fun hearly => absurd hearly hlate⟩
      · rw [hnodes]
        exact hl'
      · rw [hwindow] at hq
        obtain ⟨a, ha, rfl⟩ := List.mem_map.mp hq
        rw [hself a ha, hval']

/-- The nodes that are inserted are new ones: none is in memory yet. -/
def FreshNode (h : PacketHeap) (p : PacketNode) : Prop := h.live p.node = false

theorem ShowsWindow.run {head fuel : ℕ} {ps : List PacketNode} {h : PacketHeap}
    {log : List PacketNode} (hw : ShowsWindow h head log)
    (hs : (log.map PacketNode.recvTUs).Pairwise (· ≤ ·))
    (hfuel : log.length+ps.length+1 < fuel)
    (hfresh : RunMeets (insertPacket fuel head) FreshNode h ps) :
    ∃ h', RunInvariant.run (insertPacket fuel head) h ps = some h' ∧
      ShowsWindow h' head (ps.foldl accept log) ∧
      ((ps.foldl accept log).map PacketNode.recvTUs).Pairwise (· ≤ ·) ∧
      (ps.foldl accept log).length ≤ log.length+ps.length := by
  induction ps generalizing h log with
  | nil => exact ⟨h, rfl, hw, hs, le_rfl⟩
  | cons p ps ih =>
    rw [List.length_cons] at hfuel
    have hlen := length_accept_le log p
    obtain ⟨t, hins, hw', _⟩ := hw.insert hs hfresh.1 (show log.length+1 < fuel by omega)
    obtain ⟨h', hrun, hw'', hs', hlen'⟩ :=
      ih hw' (sorted_accept hs p) (by omega) (hfresh.2 t hins)
    refine ⟨h', ?_, hw'', hs', ?_⟩
    · rw [run_cons, hins, Option.bind_some, hrun]
    · rw [List.length_cons]
      exact hlen'.trans (by omega)

/-- Starting from a fresh head every sequence of insertions returns, as long as the loops may
run a little longer than there are packets. The list is then the last second of the accepted
packets, in receive order, and one more packet that comes too early changes nothing in it. -/
theorem packet_list_is_window {head fuel : ℕ} {val : ℕ → PacketNode} {ps : List PacketNode}
    (hfuel : ps.length+1 < fuel)
    (hfresh : RunMeets (insertPacket fuel head) FreshNode (freshHead head val) ps) :
    ∃ h, run (insertPacket fuel head) (freshHead head val) ps = some h ∧
      ShowsWindow h head (acceptedLog ps) ∧
      ((lastSecond (acceptedLog ps)).map PacketNode.recvTUs).Pairwise (· ≤ ·) ∧
      ∀ p, FreshNode h p → TooEarly (acceptedLog ps) p →
        insertPacket fuel head h p = some (h.create p.node p) ∧
          ShowsWindow (h.create p.node p) head (acceptedLog ps) := by
  have hzero : ([] : List PacketNode).length+ps.length+1 < fuel := by
    rw [List.length_nil]
    omega
  obtain ⟨h, hrun, hw, hs, hlen⟩ :=
    (showsWindow_init head val).run List.Pairwise.nil hzero hfresh
  rw [List.length_nil, Nat.zero_add] at hlen
  refine ⟨h, hrun, hw, hs.sublist ((lastSecond_sublist _).map _), fun p hp hearly => ?_⟩
  obtain ⟨h', hins, hw', hsame⟩ :=
    hw.insert hs hp (show (ps.foldl accept []).length+1 < fuel by omega)
  have hsame' := hsame hearly
  have hearly' : TooEarly (ps.foldl accept []) p := hearly
  rw [hsame', accept_of_tooEarly hearly'] at hw'
  rw [hins, hsame']
  exact ⟨rfl, hw'⟩

instance (h : PacketHeap) (p : PacketNode) : Decidable (FreshNode h p) :=
  inferInstanceAs (Decidable (h.live p.node = false))

/-- A packet that is received at the time `recvTUs`. -/
def nodeAt (node : ℕ) (recvTUs : UInt64) : PacketNode :=
  { node := node, recvLenByte := 1500, tcpHeader := plainHeader, onewayUs := 20000
    recvTUs := recvTUs, onewayUsNew := 0, revertFlag := false, acked := false
    burstStart := false }

/-- Three packets, of which the second comes too early and the third is more than a second
after the first. -/
theorem packet_list_is_window_three :
    ∃ h, run (insertPacket 5 0) (freshHead 0 (fun a => nodeAt a 0))
        [nodeAt 1 500, nodeAt 2 400, nodeAt 3 1000501] = some h ∧
      ShowsWindow h 0 [nodeAt 1 500, nodeAt 3 1000501] := by
  obtain ⟨h, hrun, hw, _⟩ := @packet_list_is_window 0 5 (fun a => nodeAt a 0)
    [nodeAt 1 500, nodeAt 2 400, nodeAt 3 1000501] (by decide) (by decide)
  exact ⟨h, hrun, hw⟩

end CopaNgscope
