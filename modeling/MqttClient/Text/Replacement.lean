import Mathlib.Algebra.Order.Ring.Int
import Mathlib.Data.List.Infix

/-! # Replacing the occurrences of a pattern

The leftmost occurrence of the pattern is replaced, then the leftmost one behind
it, and so on. A text has just one replacement.
-/

namespace Text

variable {α : Type}

/-- `text'` is `text` with its leftmost non-overlapping occurrences of `old`
replaced by `new`, and nothing else changed. -/
inductive Replaced (old new : List α) : List α → List α → Prop
  | unchanged {text : List α} (h : ∀ i, ¬ old <+: text.drop i) : Replaced old new text text
  | replaced {before after after' : List α}
      (hfirst : ∀ i < before.length, ¬ old <+: (before ++ (old ++ after)).drop i)
      (h : Replaced old new after after') :
      Replaced old new (before ++ (old ++ after)) (before ++ (new ++ after'))

section Replaced

variable {old new text text' : List α}

theorem Replaced.pattern (h : Replaced old new text text') :
    Replaced old new (old ++ text) (new ++ text') := by
  have hfirst : ∀ i < ([] : List α).length, ¬ old <+: ([] ++ (old ++ text)).drop i := nofun
  exact .replaced hfirst h

theorem Replaced.cons {c : α} (hc : ¬ old <+: c :: text) (h : Replaced old new text text') :
    Replaced old new (c :: text) (c :: text') := by
  cases h with
  | unchanged h =>
      apply Replaced.unchanged
      intro i
      cases i with
      | zero => exact hc
      | succ i => exact h i
  | @replaced before after after' hfirst h =>
      have hfirst' :
        ∀ i < (c :: before).length, ¬ old <+: (c :: before ++ (old ++ after)).drop i := by
        intro i hi
        cases i with
        | zero => exact hc
        | succ i => exact hfirst i (Nat.lt_of_succ_lt_succ hi)
      exact .replaced hfirst' h

/-- The pattern stands behind what is in front of it. -/
theorem stands_behind (before old after : List α) :
    old <+: (before ++ (old ++ after)).drop before.length := by
  rw [List.drop_left]
  exact List.prefix_append old after

/-- Where the first occurrence is does not depend on how the text is taken apart. -/
theorem length_le_of_first {before after before' after' : List α}
    (heq : before ++ (old ++ after) = before' ++ (old ++ after'))
    (hfirst : ∀ i < before.length, ¬ old <+: (before ++ (old ++ after)).drop i) :
    before.length ≤ before'.length := by
  by_contra hlt
  apply hfirst before'.length (Nat.not_le.mp hlt)
  rw [heq]
  exact stands_behind before' old after'

/-- A text has one replacement only. -/
theorem Replaced.unique {text'' : List α} (h : Replaced old new text text')
    (h' : Replaced old new text text'') : text' = text'' := by
  induction h generalizing text'' with
  | unchanged hno =>
      cases h' with
      | unchanged => rfl
      | @replaced before after after' => exact absurd (stands_behind before old after) (hno _)
  | @replaced before after after' hfirst h ih =>
      generalize htext : before ++ (old ++ after) = text at h'
      cases h' with
      | unchanged hno =>
          subst htext
          exact absurd (stands_behind before old after) (hno _)
      | @replaced before' other other' hfirst' h' =>
          have hlength : before.length = before'.length :=
            Nat.le_antisymm (length_le_of_first htext hfirst)
              (length_le_of_first htext.symm hfirst')
          obtain ⟨rfl, hrest⟩ := List.append_inj htext hlength
          obtain rfl := List.append_cancel_left hrest
          rw [ih h']

end Replaced

end Text
