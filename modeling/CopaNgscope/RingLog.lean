import Mathlib.Data.List.DropRight
import Mathlib.Logic.Function.Basic
import Mathlib.Data.List.Induction
import Mathlib.Tactic.SplitIfs

/-! A ring of fixed capacity with a wrapping write index and a saturating length
counter, and the bounded log it stands for: the last `n` elements pushed. -/
namespace CopaNgscope.RingLog

variable {α : Type*}

/-- `slots` is read below `n` only. Until the ring has filled up once, writing has
only moved forward from slot 0, so the write index is the length. -/
structure Ring (α : Type*) (n : ℕ) where
  slots : ℕ → α
  head : ℕ
  len : ℕ
  head_lt : head < n
  len_le : len ≤ n
  head_eq : len < n → head = len

namespace Ring
variable {n : ℕ}

/-- Overwrite the slot at the write index, advance the index and count up to `n`. -/
def push (r : Ring α n) (x : α) : Ring α n where
  slots := Function.update r.slots r.head x
  head := (r.head+1)%n
  len := if r.len < n then r.len+1 else r.len
  head_lt := Nat.mod_lt _ (Nat.zero_lt_of_lt r.head_lt)
  len_le := by
    have := r.len_le
    split_ifs <;> omega
  head_eq := by
    intro h
    have hlen := r.len_le
    have hhead := r.head_eq
    split_ifs at h ⊢ with hlt
    · rw [hhead hlt, Nat.mod_eq_of_lt h]
    · omega

/-- Before the first wrap the oldest element is in slot 0, after it at the write index. -/
def get (r : Ring α n) (i : ℕ) : α :=
  if r.len < n then r.slots i else r.slots ((r.head+i)%n)

/-- The stored elements, oldest first. -/
def contents (r : Ring α n) : List α := (List.range r.len).map r.get

@[simp] theorem length_contents (r : Ring α n) : r.contents.length = r.len := by
  simp [contents]

@[simp] theorem getElem_contents (r : Ring α n) (i : ℕ) (hi : i < r.contents.length) :
    r.contents[i] = r.get i := by
  simp [contents]

theorem contents_push_of_lt (r : Ring α n) (x : α) (h : r.len < n) :
    (r.push x).contents = r.contents ++ [x] := by
  have hlen : (r.push x).len = r.len+1 := if_pos h
  have hget (i : ℕ) (hi : i ≤ r.len) : (r.push x).get i = Function.update r.slots r.len x i := by
    simp only [get, push, if_pos h, r.head_eq h]
    split_ifs with hfull
    · rfl
    · have hn : r.len+1 = n := by omega
      rw [hn, Nat.mod_self, Nat.zero_add, Nat.mod_eq_of_lt (by omega)]
  apply List.ext_getElem
  · simp [hlen]
  · intro i hi hi'
    have hile : i ≤ r.len := by simpa [hlen, Nat.lt_succ_iff] using hi
    rw [getElem_contents, hget i hile, List.getElem_append]
    split_ifs with hlt
    · have hne : i ≠ r.len := by rw [length_contents] at hlt; omega
      simp [Function.update_of_ne hne, get, h]
    · have hieq : i = r.len := by rw [length_contents] at hlt; omega
      simp [hieq]

theorem contents_push_of_full (r : Ring α n) (x : α) (h : ¬ r.len < n) :
    (r.push x).contents = r.contents.tail ++ [x] := by
  have hfull : r.len = n := by have := r.len_le; omega
  have hlen : (r.push x).len = n := (if_neg h).trans hfull
  have hn : 0 < n := Nat.zero_lt_of_lt r.head_lt
  have hhead := r.head_lt
  apply List.ext_getElem
  · simp [hlen, hfull, Nat.sub_add_cancel hn]
  · intro i hi hi'
    have hin : i < n := by simpa [hlen] using hi
    have hslot : ((r.head+1)%n+i)%n = (r.head+(i+1))%n := by
      rw [Nat.mod_add_mod]
      congr 1
      omega
    have hget : (r.push x).get i =
        Function.update r.slots r.head x ((r.head+(i+1))%n) := by
      simp [get, push, hfull, hslot]
    rw [getElem_contents, hget, List.getElem_append]
    split_ifs with hlt
    · -- an older element: its slot is not the one just written
      have hne : (r.head+(i+1))%n ≠ r.head := by
        simp only [List.length_tail, length_contents] at hlt
        intro hh
        by_cases hw : r.head+(i+1) < n
        · rw [Nat.mod_eq_of_lt hw] at hh
          omega
        · rw [Nat.mod_eq_sub_mod (by omega), Nat.mod_eq_of_lt (by omega)] at hh
          omega
      simp [Function.update_of_ne hne, get, h]
    · -- the newest element, in the slot the oldest one had
      have hieq : i+1 = n := by
        simp only [List.length_tail, length_contents] at hlt
        omega
      have hself : (r.head+(i+1))%n = r.head := by
        rw [hieq, Nat.add_mod_right, Nat.mod_eq_of_lt hhead]
      simp [hself]

end Ring

theorem rtake_of_length_le {xs : List α} {n : ℕ} (h : xs.length ≤ n) : xs.rtake n = xs := by
  simp [List.rtake, Nat.sub_eq_zero_of_le h]

theorem length_rtake (xs : List α) (n : ℕ) : (xs.rtake n).length = min xs.length n := by
  simp only [List.rtake, List.length_drop]
  omega

theorem rtake_rtake_concat (xs : List α) (x : α) (n : ℕ) :
    (xs.rtake n ++ [x]).rtake n = (xs ++ [x]).rtake n := by
  cases n with
  | zero => simp
  | succ n =>
    have hdrop : (xs.rtake (n+1)).rtake n = xs.rtake n := by
      simp only [List.rtake, List.length_drop, List.drop_drop]
      congr 1
      omega
    rw [List.rtake_concat_succ, List.rtake_concat_succ, hdrop]

namespace Ring
variable {n : ℕ}

/-- One push keeps the last `n` of the old contents and the new element. -/
theorem contents_push (r : Ring α n) (x : α) :
    (r.push x).contents = (r.contents ++ [x]).rtake n := by
  by_cases h : r.len < n
  · rw [contents_push_of_lt r x h, rtake_of_length_le (by simpa using Nat.succ_le_of_lt h)]
  · have hfull : r.len = n := by have := r.len_le; omega
    have hn : 0 < n := Nat.zero_lt_of_lt r.head_lt
    have hlen : (r.contents ++ [x]).length-n = 1 := by simp [hfull]
    rw [contents_push_of_full r x h, List.rtake, hlen, List.drop_one,
      List.tail_append_of_ne_nil]
    intro hnil
    have := congrArg List.length hnil
    simp [hfull] at this
    omega

end Ring

/-- The newest element of a nonempty log is in the slot before the write index. -/
theorem Ring.get_newest {n : ℕ} (r : Ring α n) (hr : 0 < r.len) :
    r.get (r.len-1) = r.slots ((r.head+n-1)%n) := by
  have hlen := r.len_le
  have hhead := r.head_lt
  unfold Ring.get
  split_ifs with h
  · have heq := r.head_eq h
    rw [heq, show r.len+n-1 = r.len-1+n by omega, Nat.add_mod_right, Nat.mod_eq_of_lt (by omega)]
  · rw [show r.head+(r.len-1) = r.head+n-1 by omega]

end CopaNgscope.RingLog
