import UnknownTunnel.Foundation.Bytes

/-!
# Accesses with range checks

In a language with range checks a slice expression stops the program if its
bounds are out of order or outside the data. Bounds are signed, and a bound
that was read from the data depends on the width of the integers it was
converted to.
-/

namespace UnknownTunnel.Foundation

/-- The elements from `low` on and before `high`, if there are such places. -/
def checkedSlice {α : Type*} (data : List α) (low high : Int) : Option (List α) :=
  if 0 ≤ low ∧ low ≤ high ∧ high ≤ data.length then
    some ((data.take high.toNat).drop low.toNat)
  else none

theorem checkedSlice_of_le {data : Bytes} (low high : Nat) (h : low ≤ high)
    (hlen : high ≤ data.length) :
    checkedSlice data low high = some (Bytes.slice low high data) := by
  rw [checkedSlice, if_pos (by omega), Bytes.slice, Int.toNat_natCast, Int.toNat_natCast]

theorem getElem?_eq_some_getD {data : Bytes} {i : Nat} (h : i < data.length) :
    data[i]? = some (data.getD i 0) := by
  rw [List.getD_eq_getElem?_getD, List.getElem?_eq_getElem h, Option.getD_some]

/-- The widths of the signed integers that a program is built for. -/
inductive IntSize
  | bits32
  | bits64
  deriving DecidableEq

namespace IntSize

def bits : IntSize → Nat
  | bits32 => 32
  | bits64 => 64

/-- The signed integer that an unsigned number is converted to. -/
def ofUnsigned (size : IntSize) (n : Nat) : Int := Int.bmod n (2 ^ size.bits)

theorem ofUnsigned_of_lt (size : IntSize) {n : Nat} (h : n < 2 ^ 31) :
    size.ofUnsigned n = n := by
  cases size <;> simp only [ofUnsigned, bits, Int.bmod] <;> omega

theorem ofUnsigned_bits64 {n : Nat} (h : n < 2 ^ 32) : bits64.ofUnsigned n = n := by
  simp only [ofUnsigned, bits, Int.bmod]
  omega

theorem ofUnsigned_bits32 {n : Nat} (h : 2 ^ 31 ≤ n) (hn : n < 2 ^ 32) :
    bits32.ofUnsigned n = n - 2 ^ 32 := by
  simp only [ofUnsigned, bits, Int.bmod]
  omega

end IntSize

end UnknownTunnel.Foundation
