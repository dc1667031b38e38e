import Mathlib.Data.Int.ModEq
import Mathlib.Data.List.MinMax
import Mathlib.Data.List.Nodup
import Mathlib.Tactic.Ring

/-! Forward distance on a circle of `n` positions. Within less than half the circle
it orders the positions, although the positions themselves wrap. -/
namespace CopaNgscope.CircularDistance

/-- Steps forward from `a` to `b` modulo `n`. -/
def cdist (n a b : ℕ) : ℕ := (((b:ℤ)-a)%n).toNat

theorem cdist_cast {n : ℕ} (hn : 0 < n) (a b : ℕ) : (cdist n a b : ℤ) = ((b:ℤ)-a)%n :=
  Int.toNat_of_nonneg (Int.emod_nonneg _ (by omega))

theorem cdist_lt {n : ℕ} (hn : 0 < n) (a b : ℕ) : cdist n a b < n := by
  have h := Int.emod_lt_of_pos ((b:ℤ)-a) (show (0:ℤ) < n by omega)
  rw [← cdist_cast hn] at h
  omega

@[simp] theorem cdist_self (n a : ℕ) : cdist n a a = 0 := by
  simp [cdist]

/-- Walking the distance from `a` arrives at `b`. -/
theorem add_cdist_mod {n : ℕ} (hn : 0 < n) (a b : ℕ) : (a+cdist n a b)%n = b%n := by
  have h : ((a:ℤ)+cdist n a b)%n = (b:ℤ)%n := by
    rw [cdist_cast hn, Int.add_emod_emod]
    congr 1
    ring
  exact_mod_cast h

theorem cdist_mod_right {n : ℕ} (hn : 0 < n) (a b : ℕ) : cdist n a (b%n) = cdist n a b := by
  have h : (cdist n a (b%n) : ℤ) = cdist n a b := by
    rw [cdist_cast hn, cdist_cast hn]
    push_cast
    exact Int.emod_sub_emod _ _ _
  exact_mod_cast h

theorem cdist_add_right {n : ℕ} (hn : 0 < n) (a k : ℕ) : cdist n a ((a+k)%n) = k%n := by
  have h : (cdist n a ((a+k)%n) : ℤ) = ((k%n : ℕ) : ℤ) := by
    rw [cdist_mod_right hn, cdist_cast hn]
    push_cast
    congr 1
    ring
  exact_mod_cast h

/-- A distance determines the position it leads to. -/
theorem eq_of_cdist_eq {n a b c : ℕ} (hb : b < n) (hc : c < n)
    (h : cdist n a b = cdist n a c) : b = c := by
  have hn : 0 < n := by omega
  have hb' := add_cdist_mod hn a b
  have hc' := add_cdist_mod hn a c
  rw [h, hc', Nat.mod_eq_of_lt hc, Nat.mod_eq_of_lt hb] at hb'
  exact hb'.symm

theorem cdist_eq_of_emod {n a b k : ℕ} (hk : k < n) (h : ((b:ℤ)-a)%n = (k:ℤ)%n) :
    cdist n a b = k := by
  rw [cdist, h, Int.emod_eq_of_lt (by omega) (by omega), Int.toNat_natCast]

/-- Seen from a common base, distances subtract. -/
theorem cdist_of_le {n a b c : ℕ} (hn : 0 < n) (h : cdist n a b ≤ cdist n a c) :
    cdist n b c = cdist n a c-cdist n a b := by
  have hac := cdist_lt hn a c
  apply cdist_eq_of_emod (by omega)
  calc ((c:ℤ)-b)%n = (((c:ℤ)-a)-((b:ℤ)-a))%n := by congr 1; ring
    _ = ((cdist n a c : ℤ)-cdist n a b)%n := by
      rw [cdist_cast hn, cdist_cast hn, ← Int.sub_emod]
    _ = ((cdist n a c-cdist n a b : ℕ) : ℤ)%n := by rw [Nat.cast_sub h]

/-- Behind a position seen from a common base lies nearly the whole circle. -/
theorem cdist_of_lt {n a b c : ℕ} (hn : 0 < n) (h : cdist n a c < cdist n a b) :
    cdist n b c = n-(cdist n a b-cdist n a c) := by
  have hab := cdist_lt hn a b
  apply cdist_eq_of_emod (by omega)
  calc ((c:ℤ)-b)%n = (((c:ℤ)-a)-((b:ℤ)-a))%n := by congr 1; ring
    _ = ((cdist n a c : ℤ)-cdist n a b)%n := by
      rw [cdist_cast hn, cdist_cast hn, ← Int.sub_emod]
    _ = ((cdist n a c : ℤ)-cdist n a b+n)%n := by rw [Int.add_emod_right]
    _ = ((n-(cdist n a b-cdist n a c) : ℕ) : ℤ)%n := by
      congr 1
      omega

/-- Distances that do not go round the circle add up. -/
theorem cdist_add {n a b c : ℕ} (hn : 0 < n) (h : cdist n a b+cdist n b c < n) :
    cdist n a c = cdist n a b+cdist n b c := by
  apply cdist_eq_of_emod h
  calc ((c:ℤ)-a)%n = (((b:ℤ)-a)+((c:ℤ)-b))%n := by congr 1; ring
    _ = ((cdist n a b : ℤ)+cdist n b c)%n := by
      rw [cdist_cast hn, cdist_cast hn, ← Int.add_emod]
    _ = ((cdist n a b+cdist n b c : ℕ) : ℤ)%n := by rw [Nat.cast_add]

/-- The positions from `a` forward to `b`, both included. -/
def arc (n a b : ℕ) : List ℕ := (List.range (cdist n a b+1)).map (fun k => (a+k)%n)

@[simp] theorem length_arc (n a b : ℕ) : (arc n a b).length = cdist n a b+1 := by
  simp [arc]

/-- There is a position `k` steps before any other. -/
theorem exists_cdist_eq {n k : ℕ} (hk : k < n) (t : ℕ) : ∃ e < n, cdist n e t = k := by
  have hn : 0 < n := by omega
  refine ⟨cdist n k t, cdist_lt hn k t, cdist_eq_of_emod hk ?_⟩
  calc ((t:ℤ)-cdist n k t)%n = ((t:ℤ)-((t:ℤ)-k))%n := by
        rw [cdist_cast hn, Int.sub_emod_emod]
    _ = (k:ℤ)%n := by congr 1; ring

/-- All positions lie on an arc shorter than half the circle. -/
def HalfArc (n : ℕ) (xs : List ℕ) : Prop := ∃ b, ∀ x ∈ xs, 2*cdist n b x < n

/-- `o` is one of the positions and the others are less than half the circle ahead of it. -/
def IsOldest (n : ℕ) (xs : List ℕ) (o : ℕ) : Prop := o ∈ xs ∧ ∀ x ∈ xs, 2*cdist n o x < n

/-- `t` is one of the positions and less than half the circle ahead of the others. -/
def IsNewest (n : ℕ) (xs : List ℕ) (t : ℕ) : Prop := t ∈ xs ∧ ∀ x ∈ xs, 2*cdist n x t < n

theorem exists_isOldest {n : ℕ} (hn : 0 < n) {xs : List ℕ} (hne : xs ≠ []) (h : HalfArc n xs) :
    ∃ o, IsOldest n xs o := by
  obtain ⟨b, hb⟩ := h
  obtain ⟨o, ho⟩ : ∃ o, xs.argmin (cdist n b) = some o :=
    Option.ne_none_iff_exists'.mp (fun h => hne (List.argmin_eq_none.mp h))
  refine ⟨o, List.argmin_mem ho, fun x hx => ?_⟩
  have hle := List.le_of_mem_argmin hx ho
  have hlt := hb x hx
  rw [cdist_of_le hn hle]
  omega

/-- From a base behind all positions the walk to one of them leads past the oldest. -/
theorem IsOldest.cdist_base {n b o x : ℕ} {xs : List ℕ} (ho : IsOldest n xs o)
    (hb : ∀ x ∈ xs, 2*cdist n b x < n) (hx : x ∈ xs) :
    cdist n b x = cdist n b o+cdist n o x := by
  have hox := ho.2 x hx
  have hbo := hb o ho.1
  have hn : 0 < n := by omega
  rcases Nat.lt_or_ge (cdist n b x) (cdist n b o) with hlt | hge
  · have hback := cdist_of_lt hn hlt
    omega
  · have hforth := cdist_of_le hn hge
    omega

/-- Two oldest positions are the same position. -/
theorem IsOldest.unique {n : ℕ} {xs : List ℕ} {o p : ℕ} (hlt : ∀ x ∈ xs, x < n)
    (ho : IsOldest n xs o) (hp : IsOldest n xs p) : o = p := by
  have hn : 0 < n := by have := hlt o ho.1; omega
  have hop := ho.2 p hp.1
  have hpo := hp.2 o ho.1
  have hsum : cdist n o p = 0 := by
    have hz : ((cdist n o p : ℤ)+cdist n p o)%n = 0 := by
      rw [cdist_cast hn, cdist_cast hn, ← Int.add_emod]
      simp
    rw [Int.emod_eq_of_lt (by omega) (by omega)] at hz
    omega
  exact eq_of_cdist_eq (hlt o ho.1) (hlt p hp.1) ((cdist_self n o).trans hsum.symm)

/-! ### Consecutive positions -/

/-- Positions on the circle, each the one after its predecessor. -/
structure Consecutive (n : ℕ) (xs : List ℕ) : Prop where
  lt : ∀ x ∈ xs, x < n
  next : xs.IsChain (fun a b => b = (a+1)%n)

theorem Consecutive.tail {n o : ℕ} {xs : List ℕ} (h : Consecutive n (o :: xs)) :
    Consecutive n xs :=
  ⟨fun x hx => h.lt x (List.mem_cons_of_mem o hx), h.next.of_cons⟩

theorem Consecutive.getElem_eq {n o : ℕ} {xs : List ℕ} (h : Consecutive n (o :: xs)) (i : ℕ)
    (hi : i < (o :: xs).length) : (o :: xs)[i] = (o+i)%n := by
  induction xs generalizing o i with
  | nil =>
    obtain rfl : i = 0 := by simpa using hi
    exact (Nat.mod_eq_of_lt (h.lt o List.mem_cons_self)).symm
  | cons x xs ih =>
    cases i with
    | zero => exact (Nat.mod_eq_of_lt (h.lt o List.mem_cons_self)).symm
    | succ i =>
      have hx : x = (o+1)%n := (List.isChain_cons_cons.mp h.next).1
      rw [List.getElem_cons_succ, ih h.tail i (by simpa using hi), hx, Nat.mod_add_mod,
        show o+1+i = o+(i+1) by omega]

/-- On at most a full circle an element stands at its distance from the first one. -/
theorem Consecutive.cdist_getElem {n o : ℕ} {xs : List ℕ} (h : Consecutive n (o :: xs))
    (hlen : (o :: xs).length ≤ n) (i : ℕ) (hi : i < (o :: xs).length) :
    cdist n o (o :: xs)[i] = i := by
  rw [h.getElem_eq i hi, cdist_add_right (by omega), Nat.mod_eq_of_lt (by omega)]

theorem Consecutive.mem_iff {n o t : ℕ} {xs : List ℕ} (h : Consecutive n (o :: xs))
    (hlen : (o :: xs).length ≤ n) (ht : t < n) :
    t ∈ o :: xs ↔ cdist n o t < (o :: xs).length := by
  constructor
  · intro hmem
    obtain ⟨i, hi, rfl⟩ := List.getElem_of_mem hmem
    rwa [h.cdist_getElem hlen i hi]
  · intro hlt
    have hget := h.getElem_eq (cdist n o t) hlt
    rw [add_cdist_mod (by omega), Nat.mod_eq_of_lt ht] at hget
    rw [← hget]
    exact List.getElem_mem hlt

/-- Seen from a base a little before a common element, consecutive positions are an interval. -/
theorem Consecutive.mem_iff_of_base {n k e o t : ℕ} {xs : List ℕ} (h : Consecutive n (o :: xs))
    (hlen : (o :: xs).length ≤ k+1) (hk : 2*(k+1) ≤ n) (ht : t ∈ o :: xs) (he : cdist n e t = k) :
    cdist n e o ≤ k ∧ k < cdist n e o+(o :: xs).length ∧
      ∀ x < n, x ∈ o :: xs ↔
        cdist n e o ≤ cdist n e x ∧ cdist n e x < cdist n e o+(o :: xs).length := by
  have hn : 0 < n := by omega
  have hot := (h.mem_iff (by omega) (h.lt t ht)).mp ht
  have heo := cdist_lt hn e o
  have hbase : cdist n e o ≤ k ∧ cdist n o t = k-cdist n e o := by
    rcases Nat.lt_or_ge k (cdist n e o) with hlt | hge
    · have := cdist_of_lt (b := o) hn (show cdist n e t < cdist n e o by omega)
      omega
    · have := cdist_of_le (b := o) hn (show cdist n e o ≤ cdist n e t by omega)
      omega
  refine ⟨hbase.1, by omega, fun x hx => ?_⟩
  rw [h.mem_iff (by omega) hx]
  rcases Nat.lt_or_ge (cdist n e x) (cdist n e o) with hlt | hge
  · have := cdist_of_lt hn hlt
    omega
  · have := cdist_of_le hn hge
    omega

/-! ### Positions with gaps -/

/-- Positions on the circle, each further from the first one than its predecessor. -/
structure Increasing (n : ℕ) (xs : List ℕ) : Prop where
  lt : ∀ x ∈ xs, x < n
  ordered : (xs.map (cdist n (xs.headD 0))).Pairwise (· < ·)

section
variable {n : ℕ} {xs : List ℕ} (h : Increasing n xs)
include h

theorem Increasing.cdist_lt_cdist {i j : ℕ} (hij : i < j) (hj : j < xs.length) :
    cdist n (xs.headD 0) xs[i] < cdist n (xs.headD 0) xs[j] := by
  have hpair := List.pairwise_iff_getElem.mp h.ordered i j (by simpa using hij.trans hj)
    (by simpa using hj) hij
  simpa using hpair

theorem Increasing.getElem_inj {i j : ℕ} (hi : i < xs.length) (hj : j < xs.length)
    (heq : xs[i] = xs[j]) : i = j := by
  rcases Nat.lt_trichotomy i j with hlt | rfl | hgt
  · have hdist := h.cdist_lt_cdist hlt hj
    rw [heq] at hdist
    exact absurd hdist (lt_irrefl _)
  · rfl
  · have hdist := h.cdist_lt_cdist hgt hi
    rw [heq] at hdist
    exact absurd hdist (lt_irrefl _)

/-- On the circle between two positions lie exactly those listed between them. -/
theorem Increasing.cdist_le_iff {s e j : ℕ} (hse : s ≤ e) (he : e < xs.length)
    (hj : j < xs.length) :
    cdist n xs[s] xs[j] ≤ cdist n xs[s] xs[e] ↔ s ≤ j ∧ j ≤ e := by
  have hn : 0 < n := Nat.zero_lt_of_lt (h.lt _ (List.getElem_mem hj))
  have hle {i k : ℕ} (hik : i ≤ k) (hk : k < xs.length) :
      cdist n (xs.headD 0) xs[i] ≤ cdist n (xs.headD 0) xs[k] := by
    rcases Nat.lt_or_eq_of_le hik with hlt | rfl
    · exact (h.cdist_lt_cdist hlt hk).le
    · exact le_rfl
  have hsle := hle hse he
  have helt := cdist_lt hn (xs.headD 0) xs[e]
  rw [cdist_of_le hn hsle]
  rcases Nat.lt_or_ge j s with hjs | hsj
  · -- before the first of the two the walk goes nearly all round
    have hdist := h.cdist_lt_cdist hjs (by omega)
    rw [cdist_of_lt hn hdist]
    omega
  · rw [cdist_of_le hn (hle hsj hj)]
    have hsd := hle hsj hj
    rcases Nat.lt_or_ge e j with hej | hje
    · have hdist := h.cdist_lt_cdist hej hj
      omega
    · have hdist := hle hje he
      omega

end

end CopaNgscope.CircularDistance
