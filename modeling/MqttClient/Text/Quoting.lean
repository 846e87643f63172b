import Mathlib.Algebra.Order.Ring.Int
import Mathlib.Data.List.Basic

/-! # Quoted texts

A text between delimiters is read unit by unit: a unit is some characters that stand for
others, such as a doubled delimiter. What is written as it is can be read as something else,
and even end somewhere else; but if what is read is just what was meant to be written, then
every unit has stood for itself.
-/

namespace Text

variable {α : Type}

/-- How characters between two delimiters are written. The special characters are those that
cannot always stand for themselves; every unit keeps the number of the others. -/
structure Quoting (α : Type) where
  delimiter : α
  isSpecial : α → Bool
  /-- A unit, and what it stands for. -/
  IsUnit : List α → List α → Prop
  isSpecial_delimiter : isSpecial delimiter = true
  countP_eq : ∀ {a b}, IsUnit a b → a.countP (!isSpecial ·) = b.countP (!isSpecial ·)
  length_le : ∀ {a b}, IsUnit a b → b.length ≤ a.length
  eq_of_length : ∀ {a b}, IsUnit a b → b.length = a.length → a = b

namespace Quoting

variable {q : Quoting α} {r m v rest rest' : List α}

/-- What a sequence of units stands for. -/
inductive Spells (q : Quoting α) : List α → List α → Prop
  | nil : Spells q [] []
  | cons {a b r m : List α} (h : q.IsUnit a b) (hrest : Spells q r m) : Spells q (a ++ r) (b ++ m)

theorem Spells.length_le (h : q.Spells r m) : m.length ≤ r.length := by
  induction h with
  | nil => exact Nat.le_refl 0
  | cons h _ ih =>
      have hunit := q.length_le h
      simp only [List.length_append]
      omega

theorem Spells.countP_eq (h : q.Spells r m) :
    r.countP (!q.isSpecial ·) = m.countP (!q.isSpecial ·) := by
  induction h with
  | nil => rfl
  | cons h _ ih => rw [List.countP_append, List.countP_append, q.countP_eq h, ih]

/-- What is as long as what it stands for stands for itself. -/
theorem Spells.eq_of_length (h : q.Spells r m) (hlength : m.length = r.length) : r = m := by
  induction h with
  | nil => rfl
  | cons h hrest ih =>
      have hunit := q.length_le h
      have hle := hrest.length_le
      simp only [List.length_append] at hlength
      rw [q.eq_of_length h (by omega), ih (by omega)]

/-- What is read up to the first delimiter that ends it is what was written up to the intended
one, if the one is read as the other and no special character follows. -/
theorem Spells.eq_of_closed (h : q.Spells r v)
    (heq : r ++ q.delimiter :: rest' = v ++ q.delimiter :: rest)
    (hrest : ∀ b ∈ rest.head?, q.isSpecial b = false) : r = v ∧ rest' = rest := by
  have hle := h.length_le
  obtain ⟨d, hd⟩ := Nat.exists_eq_add_of_le hle
  have hr : r = (v ++ q.delimiter :: rest).take r.length := by rw [← heq, List.take_left]
  cases d with
  | zero =>
      obtain rfl := h.eq_of_length hd.symm
      exact ⟨rfl, (List.cons.inj (List.append_cancel_left heq)).2⟩
  | succ d =>
      -- what was read reaches behind the intended delimiter, over special characters only
      have hr' : r = v ++ q.delimiter :: rest.take d := by
        rw [hr, hd, List.take_length_add_append, List.take_succ_cons]
      have hspecial : (rest.take d).countP (!q.isSpecial ·) = 0 := by
        have hcount := h.countP_eq
        rw [hr', List.countP_append, List.countP_cons, q.isSpecial_delimiter] at hcount
        simpa using hcount
      rw [hr', List.append_assoc] at heq
      have hbehind := (List.cons.inj (List.append_cancel_left heq)).2
      cases rest with
      | nil => simp at hbehind
      | cons b rest =>
          have hb := hrest b rfl
          cases d with
          | zero =>
              have hdelimiter := (List.cons.inj hbehind).1
              rw [← hdelimiter, q.isSpecial_delimiter] at hb
              cases hb
          | succ d => simp [hb] at hspecial

end Quoting

end Text
