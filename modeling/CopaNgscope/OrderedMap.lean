import Mathlib.Data.List.TakeWhile
import Mathlib.Order.Lattice
import Mathlib.Tactic.SplitIfs

/-! A map whose entries are listed by increasing key, with insertion and the removal of all
entries up to a key. -/
namespace CopaNgscope

structure OrderedMap (κ ν : Type*) [LinearOrder κ] where
  entries : List (κ × ν)
  sorted : entries.Pairwise (fun x y => x.1 < y.1)

namespace OrderedMap

variable {κ ν : Type*} [LinearOrder κ]

def insertEntry (k : κ) (v : ν) : List (κ × ν) → List (κ × ν)
  | [] => [(k, v)]
  | x :: xs =>
    if k < x.1 then (k, v) :: x :: xs
    else if k = x.1 then (k, v) :: xs
    else x :: insertEntry k v xs

theorem mem_keys_insertEntry (k : κ) (v : ν) (xs : List (κ × ν)) (k' : κ) :
    k' ∈ (insertEntry k v xs).map Prod.fst ↔ k' = k ∨ k' ∈ xs.map Prod.fst := by
  induction xs with
  | nil => simp [insertEntry]
  | cons x xs ih =>
    unfold insertEntry
    split_ifs with hlt heq
    · simp
    · simp [heq]
    · rw [List.map_cons, List.mem_cons, ih, List.map_cons, List.mem_cons, or_left_comm]

theorem sorted_insertEntry (k : κ) (v : ν) {xs : List (κ × ν)}
    (h : xs.Pairwise (fun x y => x.1 < y.1)) :
    (insertEntry k v xs).Pairwise (fun x y => x.1 < y.1) := by
  induction xs with
  | nil => exact List.pairwise_singleton _ _
  | cons x xs ih =>
    obtain ⟨hx, hxs⟩ := List.pairwise_cons.mp h
    unfold insertEntry
    split_ifs with hlt heq
    · refine List.pairwise_cons.mpr ⟨fun y hy => ?_, h⟩
      rcases List.mem_cons.mp hy with rfl | hy
      · exact hlt
      · exact hlt.trans (hx y hy)
    · exact List.pairwise_cons.mpr ⟨fun y hy => heq ▸ hx y hy, hxs⟩
    · refine List.pairwise_cons.mpr ⟨fun y hy => ?_, ih hxs⟩
      have hkey := List.mem_map_of_mem (f := Prod.fst) hy
      rcases (mem_keys_insertEntry k v xs y.1).mp hkey with hyk | hyk
      · rw [hyk]
        exact lt_of_le_of_ne (not_lt.mp hlt) (Ne.symm heq)
      · obtain ⟨z, hz, hzy⟩ := List.mem_map.mp hyk
        exact hzy ▸ hx z hz

def empty : OrderedMap κ ν := ⟨[], List.Pairwise.nil⟩

def keys (m : OrderedMap κ ν) : List κ := m.entries.map Prod.fst

def size (m : OrderedMap κ ν) : ℕ := m.entries.length

def insert (m : OrderedMap κ ν) (k : κ) (v : ν) : OrderedMap κ ν :=
  ⟨insertEntry k v m.entries, sorted_insertEntry k v m.sorted⟩

/-- Remove the entries whose key is at most `k`, which stand in front. -/
def eraseLE (m : OrderedMap κ ν) (k : κ) : OrderedMap κ ν :=
  ⟨m.entries.dropWhile (fun x => x.1 ≤ k), m.sorted.sublist (List.dropWhile_sublist _)⟩

theorem mem_keys_insert (m : OrderedMap κ ν) (k : κ) (v : ν) (k' : κ) :
    k' ∈ (m.insert k v).keys ↔ k' = k ∨ k' ∈ m.keys :=
  mem_keys_insertEntry k v m.entries k'

/-- A new key makes the map larger by one. -/
theorem size_insert_of_not_mem (m : OrderedMap κ ν) {k : κ} (v : ν) (h : k ∉ m.keys) :
    (m.insert k v).size = m.size+1 := by
  obtain ⟨entries, sorted⟩ := m
  simp only [size, insert, keys] at h ⊢
  clear sorted
  induction entries with
  | nil => rfl
  | cons x xs ih =>
    rw [List.map_cons, List.mem_cons, not_or] at h
    rw [insertEntry, if_neg h.1]
    split_ifs
    · rfl
    · rw [List.length_cons, ih h.2, List.length_cons]

theorem mem_keys_eraseLE (m : OrderedMap κ ν) (k k' : κ) :
    k' ∈ (m.eraseLE k).keys ↔ k' ∈ m.keys ∧ k < k' := by
  obtain ⟨entries, sorted⟩ := m
  simp only [keys, eraseLE]
  induction entries with
  | nil => simp
  | cons x xs ih =>
    obtain ⟨hx, hxs⟩ := List.pairwise_cons.mp sorted
    rw [List.dropWhile_cons]
    split_ifs with hle
    · rw [ih hxs, List.map_cons, List.mem_cons]
      have hle' : x.1 ≤ k := by simpa using hle
      constructor
      · exact fun h => ⟨Or.inr h.1, h.2⟩
      · rintro ⟨rfl | h, hlt⟩
        · exact absurd hlt (not_lt.mpr hle')
        · exact ⟨h, hlt⟩
    · have hlt : k < x.1 := by simpa using hle
      refine ⟨fun h => ⟨h, ?_⟩, And.left⟩
      rw [List.map_cons, List.mem_cons] at h
      rcases h with rfl | h
      · exact hlt
      · obtain ⟨y, hy, rfl⟩ := List.mem_map.mp h
        exact hlt.trans (hx y hy)

/-- The entries removed and those that stay make up the map. -/
theorem length_takeWhile_add_size_eraseLE (m : OrderedMap κ ν) (k : κ) :
    (m.entries.takeWhile (fun x => x.1 ≤ k)).length+(m.eraseLE k).size = m.size := by
  have h := congrArg List.length (List.takeWhile_append_dropWhile
    (p := fun x : κ × ν => decide (x.1 ≤ k)) (l := m.entries))
  rwa [List.length_append] at h

/-! ### Other values under the same keys -/

variable {ν' : Type*}

def mapValues (f : ν → ν') (m : OrderedMap κ ν) : OrderedMap κ ν' :=
  ⟨m.entries.map (fun x => (x.1, f x.2)), List.pairwise_map.mpr m.sorted⟩

@[simp] theorem keys_mapValues (f : ν → ν') (m : OrderedMap κ ν) :
    (m.mapValues f).keys = m.keys := by
  simp [keys, mapValues, Function.comp_def]

theorem mapValues_mapValues {ν'' : Type*} (f : ν → ν') (g : ν' → ν'') (m : OrderedMap κ ν) :
    (m.mapValues f).mapValues g = m.mapValues (fun v => g (f v)) := by
  simp only [mapValues, List.map_map, Function.comp_def]

theorem insertEntry_map (f : ν → ν') (k : κ) (v : ν) (xs : List (κ × ν)) :
    (insertEntry k v xs).map (fun x => (x.1, f x.2)) =
      insertEntry k (f v) (xs.map (fun x => (x.1, f x.2))) := by
  induction xs with
  | nil => rfl
  | cons x xs ih =>
    rw [insertEntry, List.map_cons, insertEntry]
    split_ifs
    · rfl
    · rfl
    · rw [List.map_cons, ih]

theorem mapValues_insert (f : ν → ν') (m : OrderedMap κ ν) (k : κ) (v : ν) :
    (m.insert k v).mapValues f = (m.mapValues f).insert k (f v) := by
  simp only [mapValues, insert, insertEntry_map]

theorem mapValues_eraseLE (f : ν → ν') (m : OrderedMap κ ν) (k : κ) :
    (m.eraseLE k).mapValues f = (m.mapValues f).eraseLE k := by
  simp only [mapValues, eraseLE, List.dropWhile_map, Function.comp_def]

end OrderedMap

end CopaNgscope
