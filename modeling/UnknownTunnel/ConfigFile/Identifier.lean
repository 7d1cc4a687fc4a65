import UnknownTunnel.Foundation.Bytes

/-!
# Identifiers

The names that `Validate` accepts for nodes, peers, services and forwards.
They are short and have no byte outside a fixed alphabet, so that other bytes
can separate them from what follows.
-/

namespace UnknownTunnel.ConfigFile

open Foundation

/-- The class `[a-zA-Z0-9]`. -/
def isAlphanumeric (b : UInt8) : Bool :=
  (97 ≤ b && b ≤ 122) || (65 ≤ b && b ≤ 90) || (48 ≤ b && b ≤ 57)

/-- The class `[a-zA-Z0-9_.-]`. -/
def isSafe (b : UInt8) : Bool := isAlphanumeric b || b = 95 || b = 46 || b = 45

/-- Whether `identifierRE` matches: one alphanumeric byte and up to 63 more
from the wider class. -/
def identifierRE : Bytes → Bool
  | [] => false
  | b :: rest => isAlphanumeric b && rest.length ≤ 63 && rest.all isSafe

theorem isSafe_of_mem {id : Bytes} (h : identifierRE id = true) {b : UInt8} (hb : b ∈ id) :
    isSafe b = true := by
  cases id with
  | nil => cases h
  | cons first rest =>
      simp only [identifierRE, Bool.and_eq_true, List.all_eq_true] at h
      obtain ⟨⟨hfirst, -⟩, hrest⟩ := h
      rcases List.mem_cons.mp hb with rfl | hb
      · simp [isSafe, hfirst]
      · exact hrest b hb

theorem length_of_identifier {id : Bytes} (h : identifierRE id = true) : id.length ≤ 64 := by
  cases id with
  | nil => cases h
  | cons first rest =>
      simp only [identifierRE, Bool.and_eq_true, decide_eq_true_eq] at h
      have hrest := h.1.2
      rw [List.length_cons]
      omega

/-- A byte outside the alphabet separates identifiers from what follows. -/
theorem notMem_of_identifier {id : Bytes} (h : identifierRE id = true) {b : UInt8}
    (hb : isSafe b = false) : b ∉ id := by
  intro hmem
  rw [isSafe_of_mem h hmem] at hb
  cases hb

end UnknownTunnel.ConfigFile
