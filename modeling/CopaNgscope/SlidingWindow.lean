import Mathlib.Order.Bounds.Basic
import CopaNgscope.MonotoneDeque

/-! A window that slides over a history: every entry brings an element and a limit, and an element
is held as long as no entry from its own on has a limit beyond it. A monotone deque fed with the
history has the least held element at its front. -/
namespace CopaNgscope.SlidingWindow
open MonotoneDeque

variable {γ β α τ : Type*} [LinearOrder α] [LinearOrder τ]
variable (key : β → α) (time : β → τ) (item : γ → β) (limit : γ → τ)

/-- The elements that no limit has put out of the window. -/
def held (h : List γ) : Set β :=
  {x | ∃ (i : ℕ) (g : γ), h[i]? = some g ∧ item g = x ∧
    ∀ (k : ℕ) (u : γ), i ≤ k → h[k]? = some u → limit u ≤ time x}

/-- The deque after the entries of `h`. -/
def feed (h : List γ) : List β :=
  h.foldl (fun xs g => expire time (limit g) (push key xs (item g))) []

theorem feed_concat (h : List γ) (g : γ) :
    feed key time item limit (h ++ [g]) =
      expire time (limit g) (push key (feed key time item limit h) (item g)) := by
  rw [feed, List.foldl_append]
  rfl

/-- Every held element has one in the deque that is not above it and stays no shorter. -/
structure Covers (s : Set β) (xs : List β) : Prop where
  sub : ∀ x ∈ xs, x ∈ s
  cover : ∀ y ∈ s, ∃ x ∈ xs, key x ≤ key y ∧ time y ≤ time x

variable {key time item limit} {s : Set β} {xs : List β} {x : β}

/-! ### One step -/

theorem mem_push_of_le (hx : x ∈ xs) {y : β} (hle : key x ≤ key y) :
    x ∈ push key xs y := by
  have hmem : x ∈ xs.rdropWhile (fun z => key y < key z) ++
      xs.rtakeWhile (fun z => key y < key z) := by
    rw [List.rdropWhile_append_rtakeWhile]
    exact hx
  rcases List.mem_append.mp hmem with hkept | htaken
  · exact List.mem_append_left _ hkept
  · have hlt := List.mem_rtakeWhile_imp htaken
    exact absurd (of_decide_eq_true hlt) (not_lt.mpr hle)

theorem mem_expire_of_le {l : τ} (hx : x ∈ xs) (hle : l ≤ time x) : x ∈ expire time l xs := by
  fun_induction expire time l xs with
  | case1 y z xs hold ih =>
    apply ih
    rcases List.mem_cons.mp hx with rfl | hx
    · exact absurd hold (not_lt.mpr hle)
    · exact hx
  | case2 => exact hx
  | case3 => exact hx

/-- No element that stays is too old, unless it is the last one. -/
theorem le_or_last_of_mem_expire {l : τ} (hm : Monotone key time xs)
    (hx : x ∈ expire time l xs) : l ≤ time x ∨ xs.getLast? = some x := by
  fun_induction expire time l xs with
  | case1 y z xs hold ih =>
    have hrest := ih (hm.suffix (List.suffix_cons y (z :: xs))) hx
    rw [List.getLast?_cons_cons]
    exact hrest
  | case2 y z xs hkeep =>
    have hy : l ≤ time y := not_lt.mp hkeep
    rcases List.mem_cons.mp hx with rfl | hx
    · exact Or.inl hy
    · exact Or.inl (hy.trans ((List.pairwise_cons.mp hm.time_le).1 x hx))
  | case3 xs hshort =>
    cases xs with
    | nil => exact absurd hx List.not_mem_nil
    | cons y xs =>
      cases xs with
      | nil =>
        rw [List.mem_singleton.mp hx]
        exact Or.inr rfl
      | cons z xs => exact absurd rfl (hshort y z xs)

/-- Where the last element is not too old, no element that stays is. -/
theorem le_of_mem_expire {l : τ} (hm : Monotone key time xs)
    (hlast : ∀ y, xs.getLast? = some y → l ≤ time y) (hx : x ∈ expire time l xs) :
    l ≤ time x :=
  (le_or_last_of_mem_expire hm hx).elim id (hlast x)

/-- After a step the front is the new element or one that is not too old, and it is least among
these. -/
theorem front_expire_push {l : τ} {y : β} {ys : List β} (hm : Monotone key time xs)
    (hx : ∀ z ∈ xs, time z ≤ time x) (h : expire time l (push key xs x) = y :: ys) :
    (y = x ∨ y ∈ xs ∧ l ≤ time y) ∧ key y ≤ key x ∧
      ∀ z ∈ xs, l ≤ time z → key y ≤ key z := by
  have hpush : Monotone key time (push key xs x) := hm.push hx
  have hfront : ∀ z ∈ expire time l (push key xs x), key y ≤ key z := by
    have hexp := hpush.suffix (expire_suffix time l (push key xs x))
    rw [h] at hexp ⊢
    exact hexp.head_le
  have hnew : key y ≤ key x := by
    apply hfront
    apply List.mem_of_getLast?
    rw [getLast?_expire, getLast?_push]
  have hy : y ∈ expire time l (push key xs x) := h ▸ List.mem_cons_self
  refine ⟨?_, hnew, fun z hz hle => ?_⟩
  · rcases le_or_last_of_mem_expire hpush hy with hle | hlast
    · rcases List.mem_append.mp ((expire_suffix time l _).subset hy) with hold | hold
      · exact Or.inr ⟨(List.rdropWhile_prefix _ xs).subset hold, hle⟩
      · exact Or.inl (List.mem_singleton.mp hold)
    · rw [getLast?_push] at hlast
      exact Or.inl (Option.some.inj hlast).symm
  · -- an element that the new one removes is above it
    rcases lt_or_ge (key x) (key z) with hlt | hge
    · exact hnew.trans hlt.le
    · exact hfront z (mem_expire_of_le (mem_push_of_le hz hge) hle)

/-- The elements that a new one removes are covered by it. -/
theorem Covers.push (h : Covers key time s xs) (hx : ∀ y ∈ s, time y ≤ time x) :
    Covers key time (insert x s) (push key xs x) := by
  have hnew : x ∈ MonotoneDeque.push key xs x :=
    List.mem_append_right _ (List.mem_singleton.mpr rfl)
  refine ⟨?_, ?_⟩
  · intro y hy
    rcases List.mem_append.mp hy with hy | hy
    · exact Set.mem_insert_of_mem x (h.sub y ((List.rdropWhile_prefix _ xs).subset hy))
    · rw [List.mem_singleton.mp hy]
      exact Set.mem_insert x s
  · intro y hy
    rcases Set.mem_insert_iff.mp hy with rfl | hy
    · exact ⟨y, hnew, le_rfl, le_rfl⟩
    · obtain ⟨z, hz, hkey, htime⟩ := h.cover y hy
      -- `z` leaves at the back only when the new element is below it
      rcases lt_or_ge (key x) (key z) with hlt | hge
      · exact ⟨x, hnew, hlt.le.trans hkey, hx y hy⟩
      · exact ⟨z, mem_push_of_le hz hge, hkey, htime⟩

/-- What covers an element leaves no earlier than the element does. -/
theorem Covers.expire {l : τ} (h : Covers key time s xs) (hm : Monotone key time xs)
    (hlast : ∀ y, xs.getLast? = some y → l ≤ time y) :
    Covers key time {y ∈ s | l ≤ time y} (expire time l xs) := by
  refine ⟨?_, ?_⟩
  · intro y hy
    exact ⟨h.sub y ((expire_suffix time l xs).subset hy), le_of_mem_expire hm hlast hy⟩
  · intro y hy
    obtain ⟨z, hz, hkey, htime⟩ := h.cover y hy.1
    exact ⟨z, mem_expire_of_le hz (hy.2.trans htime), hkey, htime⟩

/-- The front of a monotone deque is least among all that it covers. -/
theorem Covers.head (h : Covers key time s (x :: xs)) (hm : Monotone key time (x :: xs)) :
    x ∈ s ∧ ∀ y ∈ s, key x ≤ key y := by
  refine ⟨h.sub x List.mem_cons_self, ?_⟩
  intro y hy
  obtain ⟨z, hz, hkey, _⟩ := h.cover y hy
  exact (hm.head_le z hz).trans hkey

/-! ### The history -/

theorem held_nil : held time item limit [] = ∅ := by
  apply Set.eq_empty_of_forall_notMem
  rintro x ⟨i, g, hg, _⟩
  rw [List.getElem?_nil] at hg
  cases hg

/-- A new entry puts its element in and the elements before its limit out. -/
theorem held_concat (h : List γ) {g : γ} (hg : limit g ≤ time (item g)) :
    held time item limit (h ++ [g]) =
      {x ∈ insert (item g) (held time item limit h) | limit g ≤ time x} := by
  have hnew : (h ++ [g])[h.length]? = some g := List.getElem?_concat_length
  ext x
  constructor
  · rintro ⟨i, u, hu, rfl, hlater⟩
    rcases lt_trichotomy i h.length with hlt | rfl | hgt
    · -- an element held before, and not put out by the new limit
      refine ⟨Set.mem_insert_of_mem _ ⟨i, u, ?_, rfl, ?_⟩, hlater h.length g hlt.le hnew⟩
      · rw [List.getElem?_append_left hlt] at hu
        exact hu
      · intro k v hk hv
        obtain ⟨hlen, _⟩ := List.getElem?_eq_some_iff.mp hv
        apply hlater k v hk
        rw [List.getElem?_append_left hlen]
        exact hv
    · -- the new element itself
      rw [hnew] at hu
      obtain rfl := Option.some.inj hu
      exact ⟨Set.mem_insert _ _, hg⟩
    · obtain ⟨hlen, _⟩ := List.getElem?_eq_some_iff.mp hu
      rw [List.length_append, List.length_singleton] at hlen
      omega
  · rintro ⟨hx, hle⟩
    rcases Set.mem_insert_iff.mp hx with rfl | ⟨i, u, hu, rfl, hlater⟩
    · refine ⟨h.length, g, hnew, rfl, ?_⟩
      intro k v hk hv
      obtain ⟨hlen, _⟩ := List.getElem?_eq_some_iff.mp hv
      rw [List.length_append, List.length_singleton] at hlen
      obtain rfl : k = h.length := by omega
      rw [hnew] at hv
      obtain rfl := Option.some.inj hv
      exact hg
    · obtain ⟨hlt, _⟩ := List.getElem?_eq_some_iff.mp hu
      refine ⟨i, u, by rw [List.getElem?_append_left hlt]; exact hu, rfl, ?_⟩
      -- the entries from `i` on are those before and the new one
      intro k v hk hv
      rcases lt_or_ge k h.length with hkl | hkl
      · rw [List.getElem?_append_left hkl] at hv
        exact hlater k v hk hv
      · obtain ⟨hlen, _⟩ := List.getElem?_eq_some_iff.mp hv
        rw [List.length_append, List.length_singleton] at hlen
        obtain rfl : k = h.length := by omega
        rw [hnew] at hv
        obtain rfl := Option.some.inj hv
        exact hle

theorem exists_of_mem_held {h : List γ} (hx : x ∈ held time item limit h) :
    ∃ g ∈ h, item g = x := by
  obtain ⟨i, g, hg, rfl, _⟩ := hx
  exact ⟨g, List.mem_of_getElem? hg, rfl⟩

/-- The deque stays monotone and covers what the window holds. -/
theorem covers_feed {h : List γ}
    (htimes : h.Pairwise (fun g u => time (item g) ≤ time (item u)))
    (hlimits : ∀ g ∈ h, limit g ≤ time (item g)) :
    Monotone key time (feed key time item limit h) ∧
      Covers key time (held time item limit h) (feed key time item limit h) := by
  -- by induction on the history, the newest entry last
  induction h using List.reverseRecOn with
  | nil =>
    rw [held_nil]
    exact ⟨⟨List.Pairwise.nil, List.Pairwise.nil⟩,
      ⟨fun x hx => absurd hx List.not_mem_nil, fun x hx => absurd hx (Set.notMem_empty x)⟩⟩
  | append_singleton h g ih =>
    obtain ⟨hpre, _, hlast⟩ := List.pairwise_append.mp htimes
    obtain ⟨hm, hc⟩ := ih hpre (fun u hu => hlimits u (List.mem_append_left _ hu))
    have hg : limit g ≤ time (item g) := hlimits g (by simp)
    have hafter : ∀ y ∈ held time item limit h, time y ≤ time (item g) := by
      intro y hy
      obtain ⟨u, hu, rfl⟩ := exists_of_mem_held hy
      exact hlast u hu g (List.mem_singleton.mpr rfl)
    have hm' : Monotone key time (MonotoneDeque.push key (feed key time item limit h) (item g)) :=
      hm.push fun y hy => hafter y (hc.sub y hy)
    rw [feed_concat, held_concat h hg]
    refine ⟨hm'.suffix (expire_suffix time (limit g) _), (hc.push hafter).expire hm' ?_⟩
    -- the last element of the deque is the new one, which is never too old
    intro y hy
    rw [getLast?_push] at hy
    obtain rfl := Option.some.inj hy
    exact hg

/-- With one length for all entries the window holds what is not older than it at the end. -/
theorem held_of_last {h : List γ} {g : γ} (hlast : h.getLast? = some g)
    (hlimits : ∀ u ∈ h, limit u ≤ limit g) :
    held time item limit h = {x | ∃ u ∈ h, item u = x ∧ limit g ≤ time x} := by
  ext x
  constructor
  · rintro ⟨i, u, hu, rfl, hlater⟩
    obtain ⟨hlt, _⟩ := List.getElem?_eq_some_iff.mp hu
    refine ⟨u, List.mem_of_getElem? hu, rfl, hlater (h.length-1) g (by omega) ?_⟩
    rw [← List.getLast?_eq_getElem?]
    exact hlast
  · rintro ⟨u, hu, rfl, hle⟩
    obtain ⟨i, hi⟩ := List.mem_iff_getElem?.mp hu
    refine ⟨i, u, hi, rfl, ?_⟩
    intro k v _ hv
    exact (hlimits v (List.mem_of_getElem? hv)).trans hle

end CopaNgscope.SlidingWindow
