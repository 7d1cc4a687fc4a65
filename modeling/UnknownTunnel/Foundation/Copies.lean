import UnknownTunnel.Foundation.Table

/-!
# Copies of a value in a table

Under how many keys a table has a value. Entering and erasing move this number
by one for the values concerned, so that a table is one of the places in which
things can be counted.
-/

namespace UnknownTunnel.Foundation.Table

variable {κ α : Type*} [DecidableEq κ] [DecidableEq α]

/-- The number of keys under which the value is stored. -/
def copies (m : Table κ α) (a : α) : Nat :=
  (m.keys.filter fun k => Finmap.lookup k m = some a).card

@[simp] theorem copies_empty (a : α) : copies (∅ : Table κ α) a = 0 := by
  simp [copies]

/-- A value that is stored under one key at most. -/
theorem copies_eq_ite {m : Table κ α} {a : α} (k : κ)
    (h : ∀ k', Finmap.lookup k' m = some a → k' = k) :
    copies m a = if Finmap.lookup k m = some a then 1 else 0 := by
  rw [copies]
  split
  · rename_i hk
    rw [Finset.card_eq_one]
    refine ⟨k, Finset.eq_singleton_iff_unique_mem.mpr ⟨?_, ?_⟩⟩
    · exact Finset.mem_filter.mpr ⟨Finmap.mem_keys.mpr (Finmap.mem_of_lookup_eq_some hk), hk⟩
    · intro k' hk'
      exact h k' (Finset.mem_filter.mp hk').2
  · rename_i hk
    rw [Finset.card_eq_zero, Finset.filter_eq_empty_iff]
    intro k' _ hk'
    exact hk (h k' hk' ▸ hk')

theorem copies_erase (m : Table κ α) (k : κ) (a : α) :
    copies (m.erase k) a + (if Finmap.lookup k m = some a then 1 else 0) = copies m a := by
  have herase : ((m.erase k).keys.filter fun k' => Finmap.lookup k' (m.erase k) = some a) =
      (m.keys.filter fun k' => Finmap.lookup k' m = some a).erase k := by
    ext k'
    rw [Finset.mem_filter, Finset.mem_erase, Finset.mem_filter, Finmap.keys_erase,
      Finset.mem_erase, lookup_erase_eq]
    by_cases hk : k' = k <;> simp [hk]
  rw [copies, herase, copies]
  by_cases hk : Finmap.lookup k m = some a
  · have hmem : k ∈ m.keys.filter fun k' => Finmap.lookup k' m = some a :=
      Finset.mem_filter.mpr ⟨Finmap.mem_keys.mpr (Finmap.mem_of_lookup_eq_some hk), hk⟩
    rw [if_pos hk]
    exact Finset.card_erase_add_one hmem
  · rw [if_neg hk, Finset.erase_eq_of_notMem, Nat.add_zero]
    intro hmem
    exact hk (Finset.mem_filter.mp hmem).2

omit [DecidableEq α] in
/-- A table that has only lost entries is not larger. -/
theorem size_le_of_lookup {m m' : Table κ α}
    (h : ∀ k a, Finmap.lookup k m' = some a → Finmap.lookup k m = some a) :
    size m' ≤ size m := by
  refine Finset.card_le_card fun k hk => ?_
  obtain ⟨a, ha⟩ := Finmap.mem_iff.mp (Finmap.mem_keys.mp hk)
  exact Finmap.mem_keys.mpr (Finmap.mem_of_lookup_eq_some (h k a ha))

/-- An entry replaces the one that was there. -/
theorem copies_insert (m : Table κ α) (k : κ) (a b : α) :
    copies (m.insert k b) a + (if Finmap.lookup k m = some a then 1 else 0) =
      copies m a + if b = a then 1 else 0 := by
  have herase := copies_erase (m.insert k b) k a
  simp only [Finmap.lookup_insert, Option.some.injEq] at herase
  have hsame : (m.insert k b).erase k = m.erase k := by
    apply Finmap.ext_lookup
    intro k'
    rw [lookup_erase_eq, lookup_erase_eq, lookup_insert_eq]
    split <;> simp_all
  rw [hsame] at herase
  have hold := copies_erase m k a
  omega

end UnknownTunnel.Foundation.Table
