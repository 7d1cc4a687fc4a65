import Mathlib.Data.Nat.Digits.Defs
import UnknownTunnel.Foundation.Bytes

/-!
# Codecs

A codec writes values as bytes and reads each of them back from the beginning of
any input, leaving the rest of the input. Codecs are put together along the
structure of the values.
-/

namespace UnknownTunnel.Foundation

/-- Values are read back from what was written for them. -/
structure Codec (α : Type) where
  write : α → Bytes
  read : Bytes → Option (α × Bytes)
  read_write : ∀ a rest, read (write a ++ rest) = some (a, rest)

namespace Codec

variable {α β : Type}

def readCount : Bytes → Option (Nat × Bytes)
  | [] => none
  | b :: rest => if b = 0 then some (0, rest) else (readCount rest).map fun p => (p.1 + 1, p.2)

/-- A number in unary, ended by a zero. -/
def count : Codec Nat where
  write n := List.replicate n 1 ++ [0]
  read := readCount
  read_write := by
    intro n rest
    induction n with
    | zero => rfl
    | succ n ih =>
        rw [List.replicate_succ, List.cons_append, List.cons_append, readCount,
          if_neg (by decide), ih]
        rfl

/-- A string after its length. -/
def bytes : Codec Bytes where
  write s := count.write s.length ++ s
  read data := (count.read data).bind fun p =>
    if p.1 ≤ p.2.length then some (p.2.take p.1, p.2.drop p.1) else none
  read_write := by
    intro s rest
    rw [List.append_assoc, count.read_write, Option.bind_some, if_pos (by simp)]
    simp

def pair (A : Codec α) (B : Codec β) : Codec (α × β) where
  write p := A.write p.1 ++ B.write p.2
  read data := (A.read data).bind fun p => (B.read p.2).map fun q => ((p.1, q.1), q.2)
  read_write := by
    rintro ⟨a, b⟩ rest
    rw [List.append_assoc, A.read_write, Option.bind_some, B.read_write]
    rfl

def readMany (A : Codec α) : Nat → Bytes → Option (List α × Bytes)
  | 0, data => some ([], data)
  | n + 1, data => (A.read data).bind fun p =>
      (readMany A n p.2).map fun q => (p.1 :: q.1, q.2)

theorem readMany_flatMap (A : Codec α) (l : List α) (rest : Bytes) :
    readMany A l.length (l.flatMap A.write ++ rest) = some (l, rest) := by
  induction l with
  | nil => rfl
  | cons a l ih =>
      rw [List.length_cons, List.flatMap_cons, List.append_assoc, readMany, A.read_write,
        Option.bind_some, ih]
      rfl

/-- The elements of a list after their number. -/
def list (A : Codec α) : Codec (List α) where
  write l := count.write l.length ++ l.flatMap A.write
  read data := (count.read data).bind fun p => readMany A p.1 p.2
  read_write := by
    intro l rest
    rw [List.append_assoc, count.read_write, Option.bind_some, readMany_flatMap]

/-- Values that are written as others. -/
def via (A : Codec α) (f : β → α) (g : α → Option β) (h : ∀ b, g (f b) = some b) :
    Codec β where
  write b := A.write (f b)
  read data := (A.read data).bind fun p => (g p.1).map fun b => (b, p.2)
  read_write := by
    intro b rest
    rw [A.read_write, Option.bind_some, h]
    rfl

def bool : Codec Bool :=
  count.via Bool.toNat (fun n => some (n != 0)) fun b => by cases b <;> rfl

theorem map_toNat_ofNat {l : List Nat} (h : ∀ d ∈ l, d < 256) :
    (l.map UInt8.ofNat).map UInt8.toNat = l := by
  rw [List.map_map]
  refine (List.map_congr_left fun d hd => ?_).trans l.map_id
  exact UInt8.toNat_ofNat_of_lt' (h d hd)

/-- A number by its digits, for numbers that are too large for `count`. -/
def nat : Codec Nat :=
  bytes.via (fun n => (Nat.digits 256 n).map UInt8.ofNat)
    (fun s => some (Nat.ofDigits 256 (s.map UInt8.toNat))) fun n => by
      rw [map_toNat_ofNat fun d hd => Nat.digits_lt_base (by decide) hd, Nat.ofDigits_digits]

/-- An integer as a difference. -/
def int : Codec Int :=
  (nat.pair nat).via (fun n => (n.toNat, (-n).toNat)) (fun p => some (p.1 - p.2)) fun n =>
    congrArg some (Int.toNat_sub_toNat_neg n)

/-- A value on a line of its own. -/
def readLine (A : Codec α) (data : Bytes) : Option α :=
  (A.read data).bind fun p => if p.2 = [10] then some p.1 else none

theorem readLine_write (A : Codec α) (a : α) : A.readLine (A.write a ++ [10]) = some a := by
  rw [readLine, A.read_write, Option.bind_some, if_pos rfl]

end Codec

end UnknownTunnel.Foundation
