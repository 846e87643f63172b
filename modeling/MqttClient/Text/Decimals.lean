import Mathlib.Algebra.Order.Ring.Int
import Mathlib.Data.List.Basic
import Mathlib.Tactic.IntervalCases

/-! # Decimal numbers

Numbers as texts of decimal digits: how they are written, and how they are read
where something follows that is no digit.
-/

namespace Text

def isDigit (b : UInt8) : Bool := 48 ≤ b && b ≤ 57

def digits (n : Nat) : List UInt8 := (Nat.toDigits 10 n).map fun c => UInt8.ofNat c.toNat

/-- The decimal text of a number. -/
def decimal : Int → List UInt8
  | .ofNat n => digits n
  | .negSucc n => 45 :: digits (n + 1)

def digitsNumber (ds : List UInt8) : Nat := ds.foldl (fun n b => n * 10 + (b.toNat - 48)) 0

/-- The digits with which a text starts, as a number, and what is behind them. A number of
several digits does not start with a zero. -/
def readDigits (s : List UInt8) : Option (Nat × List UInt8) :=
  let ds := s.takeWhile isDigit
  if ds = [] ∨ (ds.head? = some 48 ∧ 1 < ds.length) then none
  else some (digitsNumber ds, s.dropWhile isDigit)

/-- A number, which may have a minus, and what is behind it. -/
def readNumber : List UInt8 → Option (Int × List UInt8)
  | 45 :: s => (readDigits s).map fun (n, s) => (-n, s)
  | s => (readDigits s).map fun (n, s) => (n, s)

theorem digits_of_lt {n : Nat} (h : n < 10) : digits n = [UInt8.ofNat (48 + n)] := by
  rw [digits, Nat.toDigits_of_lt_base h]
  interval_cases n <;> rfl

theorem digits_of_le {n : Nat} (h : 10 ≤ n) :
    digits n = digits (n / 10) ++ [UInt8.ofNat (48 + n % 10)] := by
  rw [digits, Nat.toDigits_of_base_le (by decide) h, List.map_append, ← digits,
    ← digits_of_lt (Nat.mod_lt n (by decide)), digits, digits,
    Nat.toDigits_of_lt_base (Nat.mod_lt n (by decide))]

/-- Induction on a number along its digits. -/
theorem digits_induction {p : Nat → Prop} (hlt : ∀ n, n < 10 → p n)
    (hle : ∀ n, 10 ≤ n → p (n / 10) → p n) (n : Nat) : p n := by
  induction n using Nat.strong_induction_on with
  | _ n ih =>
      by_cases h : n < 10
      · exact hlt n h
      · exact hle n (Nat.not_lt.mp h) (ih (n / 10) (by omega))

theorem toNat_digit {d : Nat} (h : d < 10) : (UInt8.ofNat (48 + d)).toNat = 48 + d := by
  rw [UInt8.toNat_ofNat']
  omega

theorem isDigit_ofNat {d : Nat} (h : d < 10) : isDigit (UInt8.ofNat (48 + d)) = true := by
  interval_cases d <;> rfl

theorem isDigit_of_mem_digits {n : Nat} : ∀ b ∈ digits n, isDigit b = true := by
  induction n using digits_induction with
  | hlt n h =>
      rw [digits_of_lt h, List.forall_mem_singleton]
      exact isDigit_ofNat h
  | hle n h ih =>
      rw [digits_of_le h, List.forall_mem_append, List.forall_mem_singleton]
      exact ⟨ih, isDigit_ofNat (Nat.mod_lt n (by decide))⟩

theorem digits_ne_nil (n : Nat) : digits n ≠ [] := by
  induction n using digits_induction with
  | hlt n h =>
      rw [digits_of_lt h]
      exact List.cons_ne_nil _ _
  | hle n h ih =>
      rw [digits_of_le h]
      exact List.append_ne_nil_of_left_ne_nil ih _

theorem digitsNumber_append (ds : List UInt8) (b : UInt8) :
    digitsNumber (ds ++ [b]) = digitsNumber ds * 10 + (b.toNat - 48) := by
  rw [digitsNumber, List.foldl_append, ← digitsNumber]
  rfl

theorem digitsNumber_digits (n : Nat) : digitsNumber (digits n) = n := by
  induction n using digits_induction with
  | hlt n h =>
      rw [digits_of_lt h]
      change 0 * 10 + ((UInt8.ofNat (48 + n)).toNat - 48) = n
      rw [toNat_digit h]
      omega
  | hle n h ih =>
      rw [digits_of_le h, digitsNumber_append, ih, toNat_digit (Nat.mod_lt n (by decide))]
      omega

/-- Only zero is written with a zero in front. -/
theorem head_digits {n : Nat} (h : 0 < n) : (digits n).head? ≠ some 48 := by
  induction n using digits_induction with
  | hlt n hlt =>
      rw [digits_of_lt hlt]
      interval_cases n <;> decide
  | hle n hle ih =>
      rw [digits_of_le hle, List.head?_append_of_ne_nil _ (digits_ne_nil _)]
      exact ih (by omega)

/-- What a text starts with is no digit. -/
def StopsDigits (s : List UInt8) : Prop := ∀ b ∈ s.head?, isDigit b = false

theorem takeWhile_digits {ds s : List UInt8} (hds : ∀ b ∈ ds, isDigit b = true)
    (hs : StopsDigits s) :
    (ds ++ s).takeWhile isDigit = ds ∧ (ds ++ s).dropWhile isDigit = s := by
  have hrest : s.takeWhile isDigit = [] ∧ s.dropWhile isDigit = s := by
    cases s with
    | nil => exact ⟨rfl, rfl⟩
    | cons b s =>
        have hb := Bool.eq_false_iff.mp (hs b rfl)
        exact ⟨List.takeWhile_cons_of_neg hb, List.dropWhile_cons_of_neg hb⟩
  rw [List.takeWhile_append_of_pos hds, List.dropWhile_append_of_pos hds, hrest.1, hrest.2]
  exact ⟨List.append_nil ds, rfl⟩

theorem readDigits_digits (n : Nat) {s : List UInt8} (hs : StopsDigits s) :
    readDigits (digits n ++ s) = some (n, s) := by
  obtain ⟨htake, hdrop⟩ := takeWhile_digits (fun b hb => isDigit_of_mem_digits b hb) hs
  have hfront : ¬ (digits n = [] ∨ ((digits n).head? = some 48 ∧ 1 < (digits n).length)) := by
    rintro (hnil | ⟨hzero, hlen⟩)
    · exact digits_ne_nil n hnil
    · rcases Nat.eq_zero_or_pos n with rfl | hpos
      · exact absurd hlen (by decide)
      · exact head_digits hpos hzero
  unfold readDigits
  rw [htake, hdrop, if_neg hfront, digitsNumber_digits]

theorem readNumber_decimal (n : Int) {s : List UInt8} (hs : StopsDigits s) :
    readNumber (decimal n ++ s) = some (n, s) := by
  cases n with
  | ofNat n =>
      have hne : ∀ t, digits n ++ s ≠ 45 :: t := by
        intro t heq
        cases hds : digits n with
        | nil => exact digits_ne_nil n hds
        | cons b ds =>
            rw [hds] at heq
            have hb := isDigit_of_mem_digits b (hds ▸ List.mem_cons_self)
            rw [(List.cons.inj heq).1] at hb
            cases hb
      rw [decimal]
      unfold readNumber
      split
      next t heq => exact absurd heq (hne t)
      · rw [readDigits_digits n hs]
        rfl
  | negSucc n =>
      rw [decimal, List.cons_append, readNumber, readDigits_digits (n + 1) hs]
      rfl

end Text
