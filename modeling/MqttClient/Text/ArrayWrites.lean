import Mathlib.Algebra.BigOperators.Group.List.Basic
import Mathlib.Algebra.Order.Ring.Int
import Mathlib.Data.List.TakeWhile

/-! # Writes into arrays of characters

What a function copies is a list of writes into arrays, of which each has its size. A write is
inside if it does not go past the end. The arrays are told apart by the values of a type.
-/

namespace Text

/-- Bytes that are written into an array, from an offset on. -/
structure ArrayWrite (α : Type) where
  array : α
  offset : Nat
  bytes : List UInt8

variable {α : Type} (size : α → Nat)

def ArrayWrite.IsInside (write : ArrayWrite α) : Prop :=
  write.offset + write.bytes.length ≤ size write.array

/-- The C string with which these bytes start. -/
def cString (bytes : List UInt8) : List UInt8 := bytes.takeWhile (· ≠ 0)

theorem cString_isPrefix (bytes : List UInt8) : cString bytes <+: bytes := List.takeWhile_prefix _

theorem cString_of_forall {bytes : List UInt8} (h : ∀ b ∈ bytes, b ≠ 0) : cString bytes = bytes :=
  List.takeWhile_eq_self_iff.mpr fun b hb => decide_eq_true (h b hb)

/-- The writes of `sprintf(dest, "%s", src)`, or of its form with a precision. -/
def sprintf (dest : α) (src : List UInt8) : List (ArrayWrite α) := [⟨dest, 0, cString src ++ [0]⟩]

/-- The writes of a `strcpy`, if nothing is there yet, and of `strcat` after `strcat`. -/
def strcat (dest : α) : Nat → List (List UInt8) → List (ArrayWrite α)
  | _, [] => []
  | n, s :: ss => ⟨dest, n, cString s ++ [0]⟩ :: strcat dest (n + (cString s).length) ss

/-- The characters of strings that are put together. -/
def joinedLength (ss : List (List UInt8)) : Nat := (ss.map fun s => (cString s).length).sum

variable {size}

theorem isInside_sprintf {dest : α} {src : List UInt8} :
    (∀ write ∈ sprintf dest src, write.IsInside size) ↔ (cString src).length < size dest := by
  rw [sprintf, List.forall_mem_singleton, ArrayWrite.IsInside, List.length_append,
    List.length_singleton]
  dsimp only
  omega

/-- Strings are put together inside the array just when they leave room for the terminator. -/
theorem isInside_strcat {dest : α} {n : Nat} {s : List UInt8} {ss : List (List UInt8)} :
    (∀ write ∈ strcat dest n (s :: ss), write.IsInside size) ↔
      n + joinedLength (s :: ss) < size dest := by
  induction ss generalizing n s with
  | nil =>
      rw [strcat, List.forall_mem_cons, ArrayWrite.IsInside, List.length_append,
        List.length_singleton, joinedLength, List.map_singleton, List.sum_singleton, strcat]
      simp only [List.not_mem_nil, false_imp_iff, implies_true, and_true]
      omega
  | cons s' ss ih =>
      rw [strcat, List.forall_mem_cons, ih, ArrayWrite.IsInside, List.length_append,
        List.length_singleton]
      simp only [joinedLength, List.map_cons, List.sum_cons]
      omega

end Text
