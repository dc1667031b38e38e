import CopaNgscope.NgscopePacketHeap

/-! Deleting one node of a packet list. Only the last node is deleted as it should be: a first
node with a successor stays and the successor is freed, and the successor of a middle node keeps
its pointer to the node that is gone. -/
namespace CopaNgscope
open LinkedHeap

/-- `ngscope_list_deleteNode`; the result is the memory and the pointer returned. -/
def ngscopeListDeleteNode (h : PacketHeap) (head node prev : Option ℕ) :
    Option (PacketHeap × Option ℕ) :=
  match head, prev with
  | some first, some before =>
    if node = some first then
      (h.getNext first).bind fun next =>
        match next with
        -- the pointer is moved on before the node is freed
        | some second => (h.free second).map fun h => (h, some second)
        | none => (h.free first).map fun h => (h, none)
    else
      node.bind fun node => (h.getNext node).bind fun next =>
        (h.setNext before next).bind fun h => (h.free node).map fun h => (h, some first)
  | _, _ => some (h, head)

/-- From `p` hang the nodes `as`, linked in both directions, with null before the first and
behind the last one. -/
def Linked (h : PacketHeap) : Option ℕ → List ℕ → Prop
  | none, [] => True
  | some p, a :: as => p = a ∧ h.prev a = none ∧ IsList h a as
  | _, _ => False

/-- From `h` to `h'` exactly `node` is freed, and the pointer returned leads to the nodes that
stay. -/
structure DeletesExactly (h : PacketHeap) (node : ℕ) (stay : List ℕ) (h' : PacketHeap)
    (head : Option ℕ) : Prop where
  freed : h'.live = Function.update h.live node false
  linked : Linked h' head stay
  val_eq : h'.val = h.val

variable {h : PacketHeap}

/-- Without a successor before it the first node is replaced by the node freed. -/
theorem deleteNode_first {first second prev : ℕ} {post : List ℕ}
    (hl : IsList h first (second :: post)) :
    ngscopeListDeleteNode h (some first) (some first) (some prev) =
      some ({ h with live := Function.update h.live second false }, some second) := by
  have hfirst := hl.live first List.mem_cons_self
  have hsecond := hl.live second (List.mem_cons_of_mem _ List.mem_cons_self)
  rw [ngscopeListDeleteNode, if_pos rfl, ListHeap.getNext, if_pos hfirst, Option.bind_some,
    hl.path.1]
  simp only
  rw [ListHeap.free, if_pos hsecond]
  rfl

theorem deleteNode_only {node prev : ℕ} (hl : IsList h node []) :
    ngscopeListDeleteNode h (some node) (some node) (some prev) =
      some ({ h with live := Function.update h.live node false }, none) := by
  have hnode := hl.live node List.mem_cons_self
  rw [ngscopeListDeleteNode, if_pos rfl, ListHeap.getNext, if_pos hnode, Option.bind_some,
    show h.next node = none from hl.path]
  simp only
  rw [ListHeap.free, if_pos hnode]
  rfl

/-- Behind the first node, the node before is linked to what follows. -/
theorem deleteNode_behind {first node : ℕ} {pre post : List ℕ}
    (hl : IsList h first (pre ++ node :: post)) :
    ngscopeListDeleteNode h (some first) (some node)
        (some ((first :: pre).getLast (List.cons_ne_nil first pre))) =
      (h.setNext ((first :: pre).getLast (List.cons_ne_nil first pre)) post.head?).bind
        fun h => (h.free node).map fun h => (h, some first) := by
  have hmem : node ∈ pre ++ node :: post := List.mem_append_right pre List.mem_cons_self
  have hne : node ≠ first := fun heq => (List.nodup_cons.mp hl.nodup).1 (heq ▸ hmem)
  have hnode := hl.live node (List.mem_cons_of_mem first hmem)
  have hnext : h.next node = post.head? := by
    have hpath := hl.path.of_append.2
    cases post with
    | nil => exact hpath
    | cons b bs => exact hpath.1
  rw [ngscopeListDeleteNode, if_neg (fun heq => hne (Option.some.inj heq)), Option.bind_some,
    ListHeap.getNext, if_pos hnode, Option.bind_some, hnext]

/-- The last node is unlinked and freed. -/
theorem deletesExactly_last {first node : ℕ} {pre : List ℕ} (hfirst : h.prev first = none)
    (hl : IsList h first (pre ++ [node])) :
    ∃ h' p, ngscopeListDeleteNode h (some first) (some node)
        (some ((first :: pre).getLast (List.cons_ne_nil first pre))) = some (h', p) ∧
      DeletesExactly h node (first :: pre) h' p := by
  obtain ⟨h', hrun, hl', hval, hprev, hlive⟩ := hl.deleteLast
  refine ⟨h', some first, ?_, ⟨hlive, ⟨rfl, ?_, hl'⟩, hval⟩⟩
  · obtain ⟨g, hset, hfree⟩ := Option.bind_eq_some_iff.mp hrun
    rw [deleteNode_behind hl, List.head?_nil, hset, Option.bind_some, hfree]
    rfl
  · rw [hprev, hfirst]

/-- A freed successor shows: the node asked for is still live. -/
theorem not_deletesExactly_first {first second prev : ℕ} {post : List ℕ}
    (hl : IsList h first (second :: post)) {h' : PacketHeap} {p : Option ℕ}
    (hrun : ngscopeListDeleteNode h (some first) (some first) (some prev) = some (h', p)) :
    ¬ DeletesExactly h first (second :: post) h' p := by
  intro hdel
  have hne : first ≠ second := fun heq =>
    (List.nodup_cons.mp hl.nodup).1 (heq ▸ List.mem_cons_self)
  rw [deleteNode_first hl, Option.some.injEq, Prod.mk.injEq] at hrun
  -- only the second node has been freed
  have hlive : h'.live first = true := by
    rw [← hrun.1]
    exact (Function.update_of_ne hne _ _).trans (hl.live first List.mem_cons_self)
  rw [hdel.freed, Function.update_self] at hlive
  cases hlive

/-- A successor of a middle node still points back to it. -/
theorem not_deletesExactly_middle {first node second : ℕ} {pre post : List ℕ}
    (hl : IsList h first (pre ++ node :: second :: post)) {h' : PacketHeap} {p : Option ℕ}
    (hrun : ngscopeListDeleteNode h (some first) (some node)
      (some ((first :: pre).getLast (List.cons_ne_nil first pre))) = some (h', p)) :
    ¬ DeletesExactly h node (first :: (pre ++ second :: post)) h' p := by
  intro hdel
  have hback : h.prev second = some node := hl.back.of_append.2.2.1
  -- neither the link nor the free writes a pointer back
  have hkept : h'.prev = h.prev := by
    rw [deleteNode_behind hl, Option.bind_eq_some_iff] at hrun
    obtain ⟨g, hset, hrun⟩ := hrun
    obtain ⟨g', hfree, hpair⟩ := Option.map_eq_some_iff.mp hrun
    calc h'.prev = g'.prev := by rw [← (Prod.mk.inj hpair).1]
      _ = g.prev := ListHeap.prev_free hfree
      _ = h.prev := ListHeap.prev_setNext hset
  -- a consistent list has the node before there
  have hlinked : IsList h' first (pre ++ second :: post) := by
    cases p with
    | none => exact hdel.linked.elim
    | some q => exact hdel.linked.2.2
  have hbefore := hlinked.back.of_append.2.1
  rw [hkept, hback] at hbefore
  have hnodup : ((first :: pre) ++ node :: second :: post).Nodup := hl.nodup
  exact (List.nodup_append.mp hnodup).2.2 _ (List.getLast_mem _) node List.mem_cons_self
    (Option.some.inj hbefore).symm

/-- Deleting the node `node` between `pre` and `post`, with the node before it as `prev`, is
right exactly when no node follows. -/
theorem ngscopeListDeleteNode_iff {pre post : List ℕ} {node prev : ℕ}
    (hl : Linked h (pre ++ node :: post).head? (pre ++ node :: post))
    (hprev : ∀ before ∈ pre.getLast?, prev = before) :
    (∃ h' p, ngscopeListDeleteNode h (pre ++ node :: post).head? (some node) (some prev) =
        some (h', p) ∧ DeletesExactly h node (pre ++ post) h' p) ↔ post = [] := by
  cases pre with
  | nil =>
    obtain ⟨_, _, hl⟩ := hl
    cases post with
    | nil =>
      refine ⟨fun _ => rfl, fun _ => ⟨_, _, deleteNode_only hl, ?_⟩⟩
      exact ⟨rfl, trivial, rfl⟩
    | cons second post =>
      refine ⟨?_, fun hnil => absurd hnil (List.cons_ne_nil _ _)⟩
      rintro ⟨h', p, hrun, hdel⟩
      exact absurd hdel (not_deletesExactly_first hl hrun)
  | cons first pre =>
    obtain ⟨_, hfirst, hl⟩ := hl
    have hlast : prev = (first :: pre).getLast (List.cons_ne_nil first pre) :=
      hprev _ (List.getLast?_eq_some_getLast (List.cons_ne_nil first pre))
    subst hlast
    cases post with
    | nil =>
      refine ⟨fun _ => rfl, fun _ => ?_⟩
      rw [List.append_nil]
      exact deletesExactly_last hfirst hl
    | cons second post =>
      refine ⟨?_, fun hnil => absurd hnil (List.cons_ne_nil _ _)⟩
      rintro ⟨h', p, hrun, hdel⟩
      exact absurd hdel (not_deletesExactly_middle hl hrun)

/-- Three nodes at the addresses 1, 2 and 3. -/
def threeNodes : PacketHeap where
  live := fun a => 1 ≤ a ∧ a ≤ 3
  val := fun a => nodeAt a 0
  next := fun a => if a < 3 then some (a+1) else none
  prev := fun a => if 1 < a then some (a-1) else none

theorem linked_threeNodes : Linked threeNodes (some 1) [1,2,3] := by
  refine ⟨rfl, rfl, ?_⟩
  constructor
  · exact ⟨rfl, rfl, rfl⟩
  · exact ⟨rfl, rfl, trivial⟩
  · decide
  · decide

/-- Deleting the last of three nodes. -/
theorem ngscopeListDeleteNode_iff_last :
    ∃ h' p, ngscopeListDeleteNode threeNodes (some 1) (some 3) (some 2) = some (h', p) ∧
      DeletesExactly threeNodes 3 [1,2] h' p := by
  have hbefore : ∀ before ∈ [1,2].getLast?, 2 = before := by simp
  exact (@ngscopeListDeleteNode_iff threeNodes [1,2] [] 3 2 linked_threeNodes hbefore).mpr rfl

/-- Deleting the first of three nodes frees the second one and returns it; deleting the second
leaves the third pointing back to it. -/
theorem ngscopeListDeleteNode_threeNodes :
    Linked threeNodes (some 1) [1,2,3] ∧
      (∃ h', ngscopeListDeleteNode threeNodes (some 1) (some 1) (some 1) = some (h', some 2) ∧
        h'.live 1 = true ∧ h'.live 2 = false ∧ ¬ DeletesExactly threeNodes 1 [2,3] h' (some 2)) ∧
      ∃ h', ngscopeListDeleteNode threeNodes (some 1) (some 2) (some 1) = some (h', some 1) ∧
        h'.live 2 = false ∧ h'.prev 3 = some 2 ∧
        ¬ DeletesExactly threeNodes 2 [1,3] h' (some 1) := by
  have hl := linked_threeNodes.2.2
  refine ⟨linked_threeNodes, ⟨_, deleteNode_first hl, rfl, rfl, ?_⟩, ⟨_, rfl, rfl, rfl, ?_⟩⟩
  · exact @not_deletesExactly_first threeNodes 1 2 1 [3] hl _ _ (deleteNode_first hl)
  · exact @not_deletesExactly_middle threeNodes 1 2 3 [] [] hl _ _ rfl

end CopaNgscope
