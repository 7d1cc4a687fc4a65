import UnknownTunnel.Foundation.Table

/-!
# A table and its index

Objects are stored under identifiers, and an index finds the identifier of an
object by a key that the object determines. The two tables are in step if the
index lists exactly the stored objects under their own keys. Then the index
is a bijection onto the identifiers in use.
-/

namespace UnknownTunnel.Foundation

variable {κ ι α : Type*} [DecidableEq κ] [DecidableEq ι]

/-- The index lists the objects, each under its own key, and nothing else. -/
structure Indexed (keyOf : α → κ) (objects : Table ι α) (index : Table κ ι) : Prop where
  found : ∀ k i, Finmap.lookup k index = some i →
    ∃ a, Finmap.lookup i objects = some a ∧ keyOf a = k
  listed : ∀ i a, Finmap.lookup i objects = some a → Finmap.lookup (keyOf a) index = some i

namespace Indexed

variable {keyOf : α → κ} {objects : Table ι α} {index : Table κ ι}

theorem empty : Indexed keyOf (∅ : Table ι α) (∅ : Table κ ι) := by
  constructor
  · intro k i h
    rw [Finmap.lookup_empty] at h
    cases h
  · intro i a h
    rw [Finmap.lookup_empty] at h
    cases h

/-- An identifier is listed under one key only. -/
theorem key_unique (h : Indexed keyOf objects index) {k k' : κ} {i : ι}
    (hk : Finmap.lookup k index = some i) (hk' : Finmap.lookup k' index = some i) : k = k' := by
  obtain ⟨a, ha, rfl⟩ := h.found k i hk
  obtain ⟨b, hb, rfl⟩ := h.found k' i hk'
  rw [ha] at hb
  cases hb
  rfl

/-- The index is a bijection from its keys to the identifiers in use. -/
theorem bijOn (h : Indexed keyOf objects index) :
    Set.BijOn (fun k => Finmap.lookup k index) {k | k ∈ index} (some '' {i | i ∈ objects}) := by
  refine ⟨?_, ?_, ?_⟩
  · intro k hk
    obtain ⟨i, hi⟩ := Finmap.mem_iff.mp hk
    obtain ⟨a, ha, -⟩ := h.found k i hi
    exact ⟨i, Finmap.mem_iff.mpr ⟨a, ha⟩, hi.symm⟩
  · intro k hk k' _ heq
    obtain ⟨i, hi⟩ := Finmap.mem_iff.mp hk
    exact h.key_unique hi (heq.symm.trans hi)
  · rintro _ ⟨i, hi, rfl⟩
    obtain ⟨a, ha⟩ := Finmap.mem_iff.mp hi
    exact ⟨keyOf a, Finmap.mem_iff.mpr ⟨i, h.listed i a ha⟩, h.listed i a ha⟩

/-- An object is replaced by one with the same key. -/
theorem update (h : Indexed keyOf objects index) {i : ι} {a b : α}
    (ha : Finmap.lookup i objects = some a) (hkey : keyOf b = keyOf a) :
    Indexed keyOf (objects.insert i b) index := by
  constructor
  · intro k j hj
    obtain ⟨c, hc, hk⟩ := h.found k j hj
    by_cases hji : j = i
    · subst hji
      rw [ha] at hc
      cases hc
      exact ⟨b, Finmap.lookup_insert objects, hkey.trans hk⟩
    · exact ⟨c, (Finmap.lookup_insert_of_ne objects hji).trans hc, hk⟩
  · intro j c hc
    rw [Table.lookup_insert_eq] at hc
    split at hc
    · rename_i hji
      cases hc
      rw [hkey, hji]
      exact h.listed i a ha
    · exact h.listed j c hc

/-- An object is stored under a new identifier and listed under a new key. -/
theorem insert (h : Indexed keyOf objects index) {i : ι} {a : α}
    (hi : Finmap.lookup i objects = none) (hk : Finmap.lookup (keyOf a) index = none) :
    Indexed keyOf (objects.insert i a) (index.insert (keyOf a) i) := by
  constructor
  · intro k j hj
    rw [Table.lookup_insert_eq] at hj
    split at hj
    · rename_i hkey
      cases hj
      exact ⟨a, Finmap.lookup_insert objects, hkey.symm⟩
    · obtain ⟨b, hb, rfl⟩ := h.found k j hj
      have hji : j ≠ i := by
        rintro rfl
        rw [hi] at hb
        cases hb
      exact ⟨b, (Finmap.lookup_insert_of_ne objects hji).trans hb, rfl⟩
  · intro j b hb
    rw [Table.lookup_insert_eq] at hb
    split at hb
    · rename_i hji
      cases hb
      rw [hji]
      exact Finmap.lookup_insert index
    · have hlisted := h.listed j b hb
      have hne : keyOf b ≠ keyOf a := by
        intro heq
        rw [heq, hk] at hlisted
        cases hlisted
      exact (Finmap.lookup_insert_of_ne index hne).trans hlisted

/-- Objects that fail a test are removed together with their keys. -/
theorem filter (h : Indexed keyOf objects index) (p : α → Bool) (q : ι → Bool)
    (hq : ∀ i a, Finmap.lookup i objects = some a → q i = p a) :
    Indexed keyOf (Table.filter (fun _ a => p a) objects)
      (Table.filter (fun _ i => q i) index) := by
  constructor
  · intro k i hi
    obtain ⟨hi, hqi⟩ := Table.lookup_filter.mp hi
    obtain ⟨a, ha, hk⟩ := h.found k i hi
    exact ⟨a, Table.lookup_filter.mpr ⟨ha, (hq i a ha).symm.trans hqi⟩, hk⟩
  · intro i a ha
    obtain ⟨ha, hp⟩ := Table.lookup_filter.mp ha
    exact Table.lookup_filter.mpr ⟨h.listed i a ha, (hq i a ha).trans hp⟩

end Indexed

end UnknownTunnel.Foundation
