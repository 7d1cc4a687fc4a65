import Mathlib.Data.Finmap
import Mathlib.Data.Finset.Card

/-!
# Finite tables

A table is a finite map with a fixed value type. Its size is the number of
keys, which is what a length test on a map reads.
-/

namespace UnknownTunnel.Foundation

/-- A finite map from keys to values. -/
abbrev Table (κ α : Type*) := Finmap (fun _ : κ => α)

namespace Table

variable {κ α : Type*}

/-- The number of entries. -/
def size (m : Table κ α) : Nat := m.keys.card

@[simp] theorem size_empty : size (∅ : Table κ α) = 0 := by
  simp [size]

variable [DecidableEq κ]

/-- The size depends on which keys have a value. -/
theorem size_congr {β : Type*} {m : Table κ α} {n : Table κ β}
    (h : ∀ k, (Finmap.lookup k m).isSome = (Finmap.lookup k n).isSome) : size m = size n := by
  have hkeys : m.keys = n.keys := by
    ext k
    rw [Finmap.mem_keys, Finmap.mem_keys, ← Finmap.lookup_isSome, ← Finmap.lookup_isSome, h]
  rw [size, size, hkeys]

theorem lookup_insert_eq (m : Table κ α) (k k' : κ) (a : α) :
    Finmap.lookup k' (m.insert k a) = if k' = k then some a else Finmap.lookup k' m := by
  by_cases h : k' = k
  · subst h
    simp
  · simp [h]

theorem lookup_erase_eq (m : Table κ α) (k k' : κ) :
    Finmap.lookup k' (m.erase k) = if k' = k then none else Finmap.lookup k' m := by
  by_cases h : k' = k
  · subst h
    simp
  · simp [h]

theorem keys_insert (m : Table κ α) (k : κ) (a : α) :
    (m.insert k a).keys = insert k m.keys := by
  ext k'
  simp [Finmap.mem_keys]

theorem size_insert_le (m : Table κ α) (k : κ) (a : α) :
    size (m.insert k a) ≤ size m + 1 := by
  simp only [size, keys_insert]
  exact Finset.card_insert_le _ _

theorem size_insert_of_notMem {m : Table κ α} {k : κ} (h : k ∉ m) (a : α) :
    size (m.insert k a) = size m + 1 := by
  simp only [size, keys_insert]
  exact Finset.card_insert_of_notMem (by simpa [Finmap.mem_keys] using h)

theorem size_erase_of_mem {m : Table κ α} {k : κ} (h : k ∈ m) :
    size (m.erase k) + 1 = size m := by
  simp only [size, Finmap.keys_erase]
  exact Finset.card_erase_add_one (Finmap.mem_keys.mpr h)

theorem size_erase_le (m : Table κ α) (k : κ) : size (m.erase k) ≤ size m := by
  simp only [size, Finmap.keys_erase]
  exact Finset.card_erase_le

theorem lookup_eq_none_of_size_eq_zero {m : Table κ α} (h : size m = 0) (k : κ) :
    Finmap.lookup k m = none := by
  rw [Finmap.lookup_eq_none, ← Finmap.mem_keys, Finset.card_eq_zero.mp h]
  exact Finset.notMem_empty k

/-- The entries that pass a test. -/
def filter (p : κ → α → Bool) (m : Table κ α) : Table κ α where
  entries := m.entries.filter fun entry => p entry.1 entry.2
  nodupKeys := by
    obtain ⟨entries, nodup⟩ := m
    induction entries using Quotient.inductionOn with
    | _ list => exact List.NodupKeys.sublist List.filter_sublist nodup

theorem lookup_filter {p : κ → α → Bool} {m : Table κ α} {k : κ} {a : α} :
    Finmap.lookup k (m.filter p) = some a ↔ Finmap.lookup k m = some a ∧ p k a = true := by
  rw [Finmap.lookup_eq_some_iff, Finmap.lookup_eq_some_iff]
  exact Multiset.mem_filter

theorem lookup_filter_eq (p : κ → α → Bool) (m : Table κ α) (k : κ) :
    Finmap.lookup k (m.filter p) = (Finmap.lookup k m).filter (p k) := by
  ext a
  rw [lookup_filter, Option.filter_eq_some_iff]

end Table

end UnknownTunnel.Foundation
