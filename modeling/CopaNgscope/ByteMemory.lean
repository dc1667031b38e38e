import Mathlib.Data.Option.Basic
import Mathlib.Data.List.Basic
import Mathlib.Tactic.Ring

/-! Byte memories read by index. `none` is a byte that must not be read, so a decoder
run on a memory cut off after its data shows whether it stays inside that data. -/
namespace CopaNgscope.ByteMemory

variable {α β : Type*}

abbrev ByteMem := ℕ → Option UInt8

def ofList (bytes : List UInt8) : ByteMem := fun k => bytes[k]?

/-- Memory without an end. -/
def ofFun (byte : ℕ → UInt8) : ByteMem := fun k => some (byte k)

/-- `m'` has every byte of `m`. -/
def Extends (m m' : ByteMem) : Prop := ∀ k b, m k = some b → m' k = some b

/-- The bytes `bytes` lie in `m` from `k` on. -/
def Holds (m : ByteMem) (k : ℕ) (bytes : List UInt8) : Prop :=
  ∀ i (h : i < bytes.length), m (k+i) = some bytes[i]

theorem extends_append (xs ys : List UInt8) : Extends (ofList xs) (ofList (xs ++ ys)) := by
  intro k b h
  have hk : k < xs.length := (List.getElem?_eq_some_iff.mp h).1
  exact (List.getElem?_append_left hk).trans h

theorem ofList_isSome {bytes : List UInt8} {k : ℕ} :
    (ofList bytes k).isSome ↔ k < bytes.length := by
  simp [ofList]

@[simp] theorem holds_nil (m : ByteMem) (k : ℕ) : Holds m k [] := by
  intro i h
  simp at h

theorem holds_cons {m : ByteMem} {k : ℕ} {b : UInt8} {bytes : List UInt8} :
    Holds m k (b :: bytes) ↔ m k = some b ∧ Holds m (k+1) bytes := by
  constructor
  · intro h
    refine ⟨h 0 (by simp), fun i hi => ?_⟩
    have := h (i+1) (by simpa using hi)
    rwa [List.getElem_cons_succ, ← Nat.add_assoc, Nat.add_right_comm] at this
  · rintro ⟨h0, hrest⟩ i hi
    cases i with
    | zero => exact h0
    | succ i =>
      have := hrest i (by simpa using hi)
      rwa [Nat.add_right_comm, Nat.add_assoc] at this

theorem holds_append {m : ByteMem} {k : ℕ} {xs ys : List UInt8} :
    Holds m k (xs ++ ys) ↔ Holds m k xs ∧ Holds m (k+xs.length) ys := by
  induction xs generalizing k with
  | nil => simp
  | cons x xs ih =>
    rw [List.cons_append, holds_cons, holds_cons, ih, and_assoc, List.length_cons,
      show k+1+xs.length = k+(xs.length+1) by omega]

theorem Holds.extends {m m' : ByteMem} {k : ℕ} {bytes : List UInt8}
    (h : Holds m k bytes) (hm : Extends m m') : Holds m' k bytes :=
  fun i hi => hm _ _ (h i hi)

/-- A byte list lies at the start of the memory it was written to. -/
theorem holds_ofList (bytes : List UInt8) : Holds (ofList bytes) 0 bytes := by
  intro i hi
  simp [ofList, hi]

/-! ### Multi-byte reads -/

/-- Two bytes, the low one first. -/
def readLe16 (m : ByteMem) (k : ℕ) : Option UInt16 :=
  (m k).bind fun b0 => (m (k+1)).bind fun b1 =>
    some (UInt16.ofNat (b0.toNat+2^8*b1.toNat))

/-- Four bytes, the high one first. -/
def readBe32 (m : ByteMem) (k : ℕ) : Option UInt32 :=
  (m k).bind fun b0 => (m (k+1)).bind fun b1 => (m (k+2)).bind fun b2 => (m (k+3)).bind fun b3 =>
    some (UInt32.ofNat (2^24*b0.toNat+2^16*b1.toNat+2^8*b2.toNat+b3.toNat))

def readLe16s (m : ByteMem) : ℕ → ℕ → Option (List UInt16)
  | _, 0 => some []
  | k, n+1 => (readLe16 m k).bind fun x => (readLe16s m (k+2) n).bind fun xs => some (x :: xs)

def le16Bytes (x : UInt16) : List UInt8 := [UInt8.ofNat x.toNat, UInt8.ofNat (x.toNat/2^8)]

def be32Bytes (x : UInt32) : List UInt8 :=
  [UInt8.ofNat (x.toNat/2^24), UInt8.ofNat (x.toNat/2^16), UInt8.ofNat (x.toNat/2^8),
    UInt8.ofNat x.toNat]

@[simp] theorem length_le16Bytes (x : UInt16) : (le16Bytes x).length = 2 := rfl

@[simp] theorem length_be32Bytes (x : UInt32) : (be32Bytes x).length = 4 := rfl

theorem readLe16_of_holds {m : ByteMem} {k : ℕ} {x : UInt16} (h : Holds m k (le16Bytes x)) :
    readLe16 m k = some x := by
  simp only [le16Bytes, holds_cons, holds_nil, and_true] at h
  obtain ⟨h0, h1⟩ := h
  have hx : x.toNat < 2^16 := x.toNat_lt
  have hval : x.toNat%2^8+2^8*(x.toNat/2^8%2^8) = x.toNat := by omega
  simp only [readLe16, h0, h1, Option.bind_some, UInt8.toNat_ofNat', hval, UInt16.ofNat_toNat]

theorem readBe32_of_holds {m : ByteMem} {k : ℕ} {x : UInt32} (h : Holds m k (be32Bytes x)) :
    readBe32 m k = some x := by
  simp only [be32Bytes, holds_cons, holds_nil, and_true, Nat.add_assoc, Nat.reduceAdd] at h
  obtain ⟨h0, h1, h2, h3⟩ := h
  have hx : x.toNat < 2^32 := x.toNat_lt
  have hval : 2^24*(x.toNat/2^24%2^8)+2^16*(x.toNat/2^16%2^8)+2^8*(x.toNat/2^8%2^8)+
      x.toNat%2^8 = x.toNat := by omega
  simp only [readBe32, h0, h1, h2, h3, Option.bind_some, UInt8.toNat_ofNat', hval,
    UInt32.ofNat_toNat]

theorem readLe16s_of_holds {m : ByteMem} {k : ℕ} {xs : List UInt16}
    (h : Holds m k (xs.flatMap le16Bytes)) : readLe16s m k xs.length = some xs := by
  induction xs generalizing k with
  | nil => rfl
  | cons x xs ih =>
    rw [List.flatMap_cons, holds_append, length_le16Bytes] at h
    simp only [List.length_cons, readLe16s, readLe16_of_holds h.1, ih h.2, Option.bind_some]

theorem length_of_readLe16s {m : ByteMem} {k n : ℕ} {xs : List UInt16}
    (h : readLe16s m k n = some xs) : xs.length = n := by
  induction n generalizing k xs with
  | zero => cases h; rfl
  | succ n ih =>
    simp only [readLe16s, Option.bind_eq_some_iff] at h
    obtain ⟨x, _, ys, hys, rfl⟩ : ∃ x, readLe16 m k = some x ∧
        ∃ ys, readLe16s m (k+2) n = some ys ∧ x :: ys = xs := by simpa using h
    rw [List.length_cons, ih hys]

theorem readLe16_isSome {m : ByteMem} {k : ℕ} :
    (readLe16 m k).isSome ↔ (m k).isSome ∧ (m (k+1)).isSome := by
  unfold readLe16
  cases m k <;> cases m (k+1) <;> simp

theorem readBe32_isSome {m : ByteMem} {k : ℕ} :
    (readBe32 m k).isSome ↔
      (m k).isSome ∧ (m (k+1)).isSome ∧ (m (k+2)).isSome ∧ (m (k+3)).isSome := by
  unfold readBe32
  cases m k <;> cases m (k+1) <;> cases m (k+2) <;> cases m (k+3) <;> simp

theorem readLe16s_isSome {m : ByteMem} {k n : ℕ} :
    (readLe16s m k n).isSome ↔ ∀ i < 2*n, (m (k+i)).isSome := by
  induction n generalizing k with
  | zero => simp [readLe16s]
  | succ n ih =>
    have hstep : (readLe16s m k (n+1)).isSome ↔
        (readLe16 m k).isSome ∧ (readLe16s m (k+2) n).isSome := by
      rw [readLe16s]
      cases readLe16 m k <;> cases readLe16s m (k+2) n <;> simp
    rw [hstep, readLe16_isSome, ih]
    constructor
    · rintro ⟨⟨h0, h1⟩, hrest⟩ i hi
      match i with
      | 0 => exact h0
      | 1 => exact h1
      | i+2 =>
        have := hrest i (by omega)
        rwa [show k+2+i = k+(i+2) by omega] at this
    · intro h
      refine ⟨⟨h 0 (by omega), h 1 (by omega)⟩, fun i hi => ?_⟩
      have := h (i+2) (by omega)
      rwa [show k+(i+2) = k+2+i by omega] at this

/-! ### Decoders see only the bytes they read -/

/-- A result found on a memory is found on every memory that has its bytes. -/
def Mono (f : ByteMem → Option α) : Prop :=
  ∀ ⦃m m' : ByteMem⦄, Extends m m' → ∀ a, f m = some a → f m' = some a

theorem mono_const (a : Option α) : Mono (fun _ => a) := fun _ _ _ _ h => h

theorem mono_read (k : ℕ) : Mono (fun m => m k) := fun _ _ hm b h => hm k b h

theorem mono_bind {f : ByteMem → Option α} {g : ByteMem → α → Option β} (hf : Mono f)
    (hg : ∀ a, Mono (fun m => g m a)) : Mono (fun m => (f m).bind (g m)) := by
  intro m m' hm b h
  obtain ⟨a, ha, hb⟩ := Option.bind_eq_some_iff.mp h
  exact Option.bind_eq_some_iff.mpr ⟨a, hf hm a ha, hg a hm b hb⟩

theorem mono_ite (c : Prop) [Decidable c] {f g : ByteMem → Option α} (hf : Mono f)
    (hg : Mono g) : Mono (fun m => if c then f m else g m) := by
  split_ifs <;> assumption

theorem mono_readLe16 (k : ℕ) : Mono (fun m => readLe16 m k) :=
  mono_bind (mono_read k) fun _ => mono_bind (mono_read (k+1)) fun _ => mono_const _

theorem mono_readBe32 (k : ℕ) : Mono (fun m => readBe32 m k) :=
  mono_bind (mono_read k) fun _ => mono_bind (mono_read (k+1)) fun _ =>
    mono_bind (mono_read (k+2)) fun _ => mono_bind (mono_read (k+3)) fun _ => mono_const _

theorem mono_readLe16s (k n : ℕ) : Mono (fun m => readLe16s m k n) := by
  induction n generalizing k with
  | zero => exact mono_const _
  | succ n ih =>
    exact mono_bind (mono_readLe16 k) fun _ => mono_bind (ih (k+2)) fun _ => mono_const _

end CopaNgscope.ByteMemory
