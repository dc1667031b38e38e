import Mathlib.Data.List.Nodup
import Mathlib.Logic.Function.Basic

/-! Doubly linked lists in memory. Every node has an address, a value and two pointers; `none`
is the null pointer, or an access to a node that is not there. -/
namespace CopaNgscope.LinkedHeap

variable {α : Type*}

/-- The nodes by address, with each field apart. Only live nodes may be accessed. -/
structure ListHeap (α : Type*) where
  live : ℕ → Bool
  val : ℕ → α
  next : ℕ → Option ℕ
  prev : ℕ → Option ℕ

namespace ListHeap

def getVal (h : ListHeap α) (a : ℕ) : Option α := if h.live a then some (h.val a) else none

def getNext (h : ListHeap α) (a : ℕ) : Option (Option ℕ) :=
  if h.live a then some (h.next a) else none

def setNext (h : ListHeap α) (a : ℕ) (p : Option ℕ) : Option (ListHeap α) :=
  if h.live a then some { h with next := Function.update h.next a p } else none

def setPrev (h : ListHeap α) (a : ℕ) (p : Option ℕ) : Option (ListHeap α) :=
  if h.live a then some { h with prev := Function.update h.prev a p } else none

def free (h : ListHeap α) (a : ℕ) : Option (ListHeap α) :=
  if h.live a then some { h with live := Function.update h.live a false } else none

theorem prev_setNext {h h' : ListHeap α} {a : ℕ} {p : Option ℕ} (hset : h.setNext a p = some h') :
    h'.prev = h.prev := by
  unfold setNext at hset
  split_ifs at hset
  rw [← Option.some.inj hset]

theorem prev_free {h h' : ListHeap α} {a : ℕ} (hfree : h.free a = some h') :
    h'.prev = h.prev := by
  unfold free at hfree
  split_ifs at hfree
  rw [← Option.some.inj hfree]

/-- A new node at the address `a`, with both pointers null. -/
def create (h : ListHeap α) (a : ℕ) (v : α) : ListHeap α where
  live := Function.update h.live a true
  val := Function.update h.val a v
  next := Function.update h.next a none
  prev := Function.update h.prev a none

end ListHeap

/-! ### Paths -/

/-- `next` leads from `a` through the addresses `as` to null. -/
def Path (next : ℕ → Option ℕ) : ℕ → List ℕ → Prop
  | a, [] => next a = none
  | a, b :: bs => next a = some b ∧ Path next b bs

/-- `prev` leads from each of the addresses to the one before it, and from the first to `a`. -/
def Back (prev : ℕ → Option ℕ) : ℕ → List ℕ → Prop
  | _, [] => True
  | a, b :: bs => prev b = some a ∧ Back prev b bs

theorem Path.congr {next next' : ℕ → Option ℕ} {a : ℕ} {as : List ℕ} (h : Path next a as)
    (heq : ∀ b ∈ a :: as, next' b = next b) : Path next' a as := by
  induction as generalizing a with
  | nil => exact (heq a List.mem_cons_self).trans h
  | cons b bs ih =>
    obtain ⟨hab, hrest⟩ := h
    exact ⟨(heq a List.mem_cons_self).trans hab,
      ih hrest (fun c hc => heq c (List.mem_cons_of_mem a hc))⟩

theorem Back.congr {prev prev' : ℕ → Option ℕ} {a : ℕ} {as : List ℕ} (h : Back prev a as)
    (heq : ∀ b ∈ as, prev' b = prev b) : Back prev' a as := by
  induction as generalizing a with
  | nil => trivial
  | cons b bs ih =>
    obtain ⟨hab, hrest⟩ := h
    exact ⟨(heq b List.mem_cons_self).trans hab,
      ih hrest (fun c hc => heq c (List.mem_cons_of_mem b hc))⟩

/-- Setting the last pointer makes the path one longer. -/
theorem Path.concat {next : ℕ → Option ℕ} {a : ℕ} {as : List ℕ} (h : Path next a as)
    (hnodup : (a :: as).Nodup) {b : ℕ} (hb : b ∉ a :: as) (hnull : next b = none) :
    Path (Function.update next ((a :: as).getLast (List.cons_ne_nil a as)) (some b)) a
      (as ++ [b]) := by
  induction as generalizing a with
  | nil =>
    have hba : b ≠ a := fun heq => hb (List.mem_singleton.mpr heq)
    refine ⟨Function.update_self _ _ _, ?_⟩
    exact (Function.update_of_ne hba _ _).trans hnull
  | cons c cs ih =>
    obtain ⟨hac, hrest⟩ := h
    obtain ⟨ha, hcs⟩ := List.nodup_cons.mp hnodup
    have hlast : (c :: cs).getLast (List.cons_ne_nil c cs) ≠ a :=
      fun heq => ha (heq ▸ List.getLast_mem _)
    rw [List.getLast_cons (List.cons_ne_nil c cs)]
    exact ⟨(Function.update_of_ne (Ne.symm hlast) _ _).trans hac,
      ih hrest hcs (fun hmem => hb (List.mem_cons_of_mem a hmem))⟩

theorem Back.concat {prev : ℕ → Option ℕ} {a : ℕ} {as : List ℕ} (h : Back prev a as) {b : ℕ}
    (hb : b ∉ as) :
    Back (Function.update prev b (some ((a :: as).getLast (List.cons_ne_nil a as)))) a
      (as ++ [b]) := by
  induction as generalizing a with
  | nil => exact ⟨Function.update_self _ _ _, trivial⟩
  | cons c cs ih =>
    obtain ⟨hac, hrest⟩ := h
    have hcb : c ≠ b := fun heq => hb (heq ▸ List.mem_cons_self)
    rw [List.getLast_cons (List.cons_ne_nil c cs)]
    exact ⟨(Function.update_of_ne hcb _ _).trans hac,
      ih hrest (fun hmem => hb (List.mem_cons_of_mem c hmem))⟩

/-- Clearing the pointer to the last node makes the path one shorter. -/
theorem Path.dropLast {next : ℕ → Option ℕ} {a b : ℕ} {as : List ℕ}
    (h : Path next a (as ++ [b])) (hnodup : (a :: as).Nodup) :
    Path (Function.update next ((a :: as).getLast (List.cons_ne_nil a as)) none) a as := by
  induction as generalizing a with
  | nil => exact Function.update_self _ _ _
  | cons c cs ih =>
    obtain ⟨hac, hrest⟩ := h
    obtain ⟨ha, hcs⟩ := List.nodup_cons.mp hnodup
    have hlast : (c :: cs).getLast (List.cons_ne_nil c cs) ≠ a :=
      fun heq => ha (heq ▸ List.getLast_mem _)
    rw [List.getLast_cons (List.cons_ne_nil c cs)]
    exact ⟨(Function.update_of_ne (Ne.symm hlast) _ _).trans hac, ih hrest hcs⟩

/-- The pointers of a path one by one: that of each node before the others, and the rest. -/
theorem Path.of_append {next : ℕ → Option ℕ} {a b : ℕ} {as bs : List ℕ}
    (h : Path next a (as ++ b :: bs)) :
    next ((a :: as).getLast (List.cons_ne_nil a as)) = some b ∧ Path next b bs := by
  induction as generalizing a with
  | nil => exact h
  | cons c cs ih =>
    rw [List.getLast_cons (List.cons_ne_nil c cs)]
    exact ih h.2

theorem Back.of_append {prev : ℕ → Option ℕ} {a b : ℕ} {as bs : List ℕ}
    (h : Back prev a (as ++ b :: bs)) :
    Back prev a as ∧ prev b = some ((a :: as).getLast (List.cons_ne_nil a as)) ∧
      Back prev b bs := by
  induction as generalizing a with
  | nil => exact ⟨trivial, h⟩
  | cons c cs ih =>
    obtain ⟨hac, hrest⟩ := h
    obtain ⟨hcs, hb⟩ := ih hrest
    rw [List.getLast_cons (List.cons_ne_nil c cs)]
    exact ⟨⟨hac, hcs⟩, hb⟩

/-! ### Lists -/

/-- The nodes `as`, all live and different, hang off the node `head` in both directions. -/
structure IsList (h : ListHeap α) (head : ℕ) (as : List ℕ) : Prop where
  path : Path h.next head as
  back : Back h.prev head as
  live : ∀ a ∈ head :: as, h.live a = true
  nodup : (head :: as).Nodup

/-- The list without its nodes. -/
theorem IsList.empty {h : ListHeap α} {head : ℕ} (hlive : h.live head = true)
    (hnext : h.next head = none) : IsList h head [] where
  path := hnext
  back := trivial
  live := fun a ha => by rwa [List.mem_singleton.mp ha]
  nodup := List.nodup_singleton head

section
variable {h : ListHeap α} {head : ℕ} {as : List ℕ} (hl : IsList h head as)
include hl

/-- A new node at another address is not in the list. -/
theorem IsList.create {b : ℕ} (hb : h.live b = false) (v : α) :
    IsList (h.create b v) head as ∧ b ∉ head :: as := by
  have hout : b ∉ head :: as := fun hmem => by
    rw [hl.live b hmem] at hb
    cases hb
  have hne {a : ℕ} (ha : a ∈ head :: as) : a ≠ b := fun heq => hout (heq ▸ ha)
  refine ⟨⟨?_, ?_, ?_, hl.nodup⟩, hout⟩
  · exact hl.path.congr (fun a ha => Function.update_of_ne (hne ha) _ _)
  · exact hl.back.congr
      (fun a ha => Function.update_of_ne (hne (List.mem_cons_of_mem head ha)) _ _)
  · intro a ha
    exact (Function.update_of_ne (hne ha) _ _).trans (hl.live a ha)

/-- A live node with a null pointer is linked behind the last one. -/
theorem IsList.concat {b : ℕ} (hout : b ∉ head :: as) (hlive : h.live b = true)
    (hnull : h.next b = none) :
    ∃ h', (h.setNext ((head :: as).getLast (List.cons_ne_nil head as)) (some b)).bind
        (fun h => h.setPrev b (some ((head :: as).getLast (List.cons_ne_nil head as)))) =
          some h' ∧ IsList h' head (as ++ [b]) ∧ h'.val = h.val ∧ h'.live = h.live := by
  have hlast := hl.live _ (List.getLast_mem (List.cons_ne_nil head as))
  refine ⟨{ h with
    next := Function.update h.next ((head :: as).getLast (List.cons_ne_nil head as)) (some b)
    prev := Function.update h.prev b (some ((head :: as).getLast (List.cons_ne_nil head as))) },
    ?_, ⟨hl.path.concat hl.nodup hout hnull,
    hl.back.concat (fun hmem => hout (List.mem_cons_of_mem head hmem)), ?_, ?_⟩, rfl, rfl⟩
  · rw [ListHeap.setNext, if_pos hlast, Option.bind_some]
    exact if_pos hlive
  · intro a ha
    rcases List.mem_append.mp (show a ∈ (head :: as) ++ [b] from ha) with hmem | hmem
    · exact hl.live a hmem
    · rwa [List.mem_singleton.mp hmem]
  · rw [← List.cons_append, List.nodup_append]
    refine ⟨hl.nodup, List.nodup_singleton b, fun a ha c hc heq => hout ?_⟩
    rw [List.mem_singleton.mp hc] at heq
    exact heq ▸ ha

end

/-- The first of two nodes or more is unlinked and freed. -/
theorem IsList.deleteFirst {h : ListHeap α} {head a b : ℕ} {as : List ℕ}
    (hl : IsList h head (a :: b :: as)) :
    ∃ h', (h.free a).bind (fun h => (h.setNext head (some b)).bind
        (fun h => h.setPrev b (some head))) = some h' ∧
      IsList h' head (b :: as) ∧ h'.val = h.val ∧ h'.live = Function.update h.live a false := by
  obtain ⟨hhead, hrest⟩ := List.nodup_cons.mp hl.nodup
  obtain ⟨ha, hrest'⟩ := List.nodup_cons.mp hrest
  obtain ⟨hb, hnodup⟩ := List.nodup_cons.mp hrest'
  have hbmem : b ∈ b :: as := List.mem_cons_self
  have hha : head ≠ a := fun heq => hhead (heq ▸ List.mem_cons_self)
  have hba : b ≠ a := fun heq => ha (heq ▸ hbmem)
  -- the freed node is none of those that stay
  have hstay {c : ℕ} (hc : c ∈ head :: b :: as) : c ≠ a := by
    rcases List.mem_cons.mp hc with rfl | hc
    · exact hha
    · exact fun heq => ha (heq ▸ hc)
  have hlive {c : ℕ} (hc : c ∈ head :: b :: as) :
      Function.update h.live a false c = true := by
    rw [Function.update_of_ne (hstay hc)]
    rcases List.mem_cons.mp hc with rfl | hc
    · exact hl.live _ List.mem_cons_self
    · exact hl.live c (List.mem_cons_of_mem _ (List.mem_cons_of_mem _ hc))
  have halive : h.live a = true := hl.live a (List.mem_cons_of_mem _ List.mem_cons_self)
  refine ⟨{ h with
    live := Function.update h.live a false
    next := Function.update h.next head (some b)
    prev := Function.update h.prev b (some head) }, ?_,
    ⟨⟨Function.update_self _ _ _, ?_⟩, ⟨Function.update_self _ _ _, ?_⟩,
    fun _ hc => hlive hc, List.nodup_cons.mpr ⟨?_, hrest'⟩⟩, rfl, rfl⟩
  · rw [ListHeap.free, if_pos halive, Option.bind_some, ListHeap.setNext,
      if_pos (hlive List.mem_cons_self), Option.bind_some]
    exact if_pos (hlive (List.mem_cons_of_mem _ hbmem))
  · refine hl.path.2.2.congr (fun c hc => Function.update_of_ne ?_ _ _)
    exact fun heq => hhead (List.mem_cons_of_mem a (heq ▸ hc))
  · refine hl.back.2.2.congr (fun c hc => Function.update_of_ne ?_ _ _)
    exact fun heq => hb (heq ▸ hc)
  · exact fun hmem => hhead (List.mem_cons_of_mem a hmem)

/-- The last of two nodes or more is unlinked and freed. -/
theorem IsList.deleteLast {h : ListHeap α} {head b : ℕ} {as : List ℕ}
    (hl : IsList h head (as ++ [b])) :
    ∃ h', (h.setNext ((head :: as).getLast (List.cons_ne_nil head as)) none).bind
        (fun h => h.free b) = some h' ∧
      IsList h' head as ∧ h'.val = h.val ∧ h'.prev = h.prev ∧
      h'.live = Function.update h.live b false := by
  have hnodup : ((head :: as) ++ [b]).Nodup := hl.nodup
  have hb : b ∉ head :: as := fun hmem =>
    (List.nodup_append.mp hnodup).2.2 b hmem b List.mem_cons_self rfl
  have hstay {c : ℕ} (hc : c ∈ head :: as) : c ≠ b := fun heq => hb (heq ▸ hc)
  have hlive {c : ℕ} (hc : c ∈ head :: as) : h.live c = true :=
    hl.live c (List.mem_append_left [b] hc)
  have hblive : h.live b = true := hl.live b (List.mem_append_right (head :: as) List.mem_cons_self)
  refine ⟨{ h with
    live := Function.update h.live b false
    next := Function.update h.next ((head :: as).getLast (List.cons_ne_nil head as)) none },
    ?_, ⟨hl.path.dropLast (List.nodup_append.mp hnodup).1, hl.back.of_append.1, ?_,
    (List.nodup_append.mp hnodup).1⟩, rfl, rfl, rfl⟩
  · rw [ListHeap.setNext, if_pos (hlive (List.getLast_mem _)), Option.bind_some]
    exact if_pos hblive
  · intro c hc
    exact (Function.update_of_ne (hstay hc) _ _).trans (hlive hc)

end CopaNgscope.LinkedHeap
