import MqttClient.Measurement.Results
import MqttClient.Text.Replacement

/-! # The loop of `stringReplace`

`CTool::stringReplace` changes the string that it searches: it goes on behind
what it has put in. What it has passed is final, what is left gets shorter with
every turn, and the two together are the string.
-/

namespace MqttClient.Measurement

open Text Shadow

/-- `str.find(s, pos)`. -/
def find (str s : List UInt8) (pos : Nat) : Option Nat :=
  (List.range' pos (str.length + 1 - pos)).find? fun i => s.isPrefixOf (str.drop i)

/-- `str.replace(pos, len, s)`. -/
def replace (str : List UInt8) (pos len : Nat) (s : List UInt8) : List UInt8 :=
  str.take pos ++ s ++ str.drop (pos + len)

/-- The loop of `CTool::stringReplace`, as it is written: `none` if it is not done after this many
turns. -/
def stringReplaceLoop (oldStr newStr : List UInt8) : Nat → List UInt8 → Nat → Option (List UInt8)
  | 0, _, _ => none
  | turns + 1, str, pos =>
      match find str oldStr pos with
      | none => some str
      | some pos =>
          stringReplaceLoop oldStr newStr turns (replace str pos oldStr.length newStr)
            (pos + newStr.length)

/-! ## One turn -/

section Find

variable {front str s : List UInt8}

/-- What is passed does not matter for what is behind it. -/
theorem drop_front (front str : List UInt8) (i : Nat) :
    (front ++ str).drop (front.length + i) = str.drop i := by
  rw [← List.drop_drop, List.drop_left]

theorem find_eq_none (hs : s ≠ []) (h : find (front ++ str) s front.length = none) (i : Nat) :
    ¬ s <+: str.drop i := by
  rw [find, List.find?_range'_eq_none] at h
  by_cases hi : i ≤ str.length
  · have hno := h (front.length + i) (Nat.le_add_right _ _) (by rw [List.length_append]; omega)
    simpa only [drop_front, Bool.not_eq_true', ← Bool.not_eq_true, List.isPrefixOf_iff_prefix]
      using hno
  · rw [List.drop_eq_nil_of_le (by omega), List.prefix_nil]
    exact hs

/-- What is found behind `front` is the first occurrence there. -/
theorem find_eq_some {pos : Nat} (h : find (front ++ str) s front.length = some pos) :
    ∃ before after, str = before ++ (s ++ after) ∧ pos = front.length + before.length ∧
      ∀ i < before.length, ¬ s <+: str.drop i := by
  rw [find, List.find?_range'_eq_some] at h
  obtain ⟨hstands, hmem, hfirst⟩ := h
  obtain ⟨hle, hlt⟩ := List.mem_range'_1.mp hmem
  rw [List.length_append] at hlt
  obtain ⟨i, rfl⟩ := Nat.exists_eq_add_of_le hle
  rw [drop_front, List.isPrefixOf_iff_prefix] at hstands
  obtain ⟨after, hafter⟩ := hstands
  have hlength : (str.take i).length = i := by
    rw [List.length_take]
    omega
  refine ⟨str.take i, after, ?_, ?_, ?_⟩
  · rw [hafter, List.take_append_drop]
  · rw [hlength]
  · intro j hj
    rw [hlength] at hj
    have hno := hfirst (front.length + j) (Nat.le_add_right _ _) (Nat.add_lt_add_left hj _)
    simpa only [drop_front, Bool.not_eq_true', ← Bool.not_eq_true, List.isPrefixOf_iff_prefix]
      using hno

end Find

/-- The occurrence is replaced, and what is around it stays. -/
theorem replace_occurrence (front before oldStr after newStr : List UInt8) :
    replace (front ++ (before ++ (oldStr ++ after))) (front.length + before.length) oldStr.length
      newStr = front ++ before ++ newStr ++ after := by
  have hpos : front.length + before.length = (front ++ before).length := List.length_append.symm
  rw [replace, hpos, ← List.append_assoc front, List.take_left, drop_front, List.drop_left]

/-! ## The whole loop -/

section Loop

variable {oldStr newStr : List UInt8}

/-- What is in front of the position stays; what is left is replaced, and as every turn
takes an occurrence from it the loop comes to an end. -/
theorem stringReplaceLoop_front (hold : oldStr ≠ []) {turns : Nat} (front : List UInt8)
    {rest : List UInt8} (hturns : rest.length < turns) :
    ∃ rest', stringReplaceLoop oldStr newStr turns (front ++ rest) front.length =
        some (front ++ rest') ∧ Replaced oldStr newStr rest rest' := by
  induction turns generalizing front rest with
  | zero => exact absurd hturns (Nat.not_lt_zero _)
  | succ turns ih =>
      rw [stringReplaceLoop]
      cases hfind : find (front ++ rest) oldStr front.length with
      | none => exact ⟨rest, rfl, .unchanged (find_eq_none hold hfind)⟩
      | some pos =>
          obtain ⟨before, after, rfl, rfl, hfirst⟩ := find_eq_some hfind
          have hlength : after.length < turns := by
            have := List.length_pos_iff.mpr hold
            simp only [List.length_append] at hturns
            omega
          obtain ⟨after', hloop, hafter⟩ := ih (front ++ before ++ newStr) hlength
          refine ⟨before ++ (newStr ++ after'), ?_, .replaced hfirst hafter⟩
          have hpos : front.length + before.length + newStr.length =
              (front ++ before ++ newStr).length := by
            simp only [List.length_append]
          simp only
          rw [replace_occurrence, hpos, hloop]
          simp only [List.append_assoc]

theorem replaceFrom_skip (skip str : List UInt8) :
    replaceFrom oldStr newStr skip.length (skip ++ str) = replaceFrom oldStr newStr 0 str := by
  induction skip with
  | nil => rfl
  | cons c skip ih => exact ih

/-- The scan from left to right replaces the same occurrences. -/
theorem replaced_stringReplace (hold : oldStr ≠ []) (str : List UInt8) :
    Replaced oldStr newStr str (stringReplace str oldStr newStr) := by
  induction hn : str.length using Nat.strong_induction_on generalizing str with
  | h n ih =>
      cases str with
      | nil =>
          apply Replaced.unchanged
          intro i
          rw [List.drop_nil, List.prefix_nil]
          exact hold
      | cons c str =>
          rw [stringReplace, replaceFrom]
          split
          next hstands =>
            obtain ⟨after, hafter⟩ := List.isPrefixOf_iff_prefix.mp hstands
            obtain ⟨d, oldTail, rfl⟩ := List.exists_cons_of_ne_nil hold
            rw [List.cons_append] at hafter
            obtain ⟨rfl, rfl⟩ := List.cons.inj hafter
            have hlength : after.length < n := by
              rw [← hn, List.length_cons, List.length_append]
              omega
            rw [List.length_cons, Nat.add_sub_cancel, replaceFrom_skip]
            exact (ih after.length hlength after rfl).pattern
          next hno =>
            have hlength : str.length < n := by
              rw [← hn]
              exact Nat.lt_succ_self _
            rw [List.isPrefixOf_iff_prefix] at hno
            exact (ih str.length hlength str rfl).cons hno

/-- The loop ends, and the string is then the replacement of the string that it was given. -/
theorem stringReplaceLoop_eq (hold : oldStr ≠ []) {str : List UInt8} {turns : Nat}
    (hturns : str.length < turns) :
    stringReplaceLoop oldStr newStr turns str 0 = some (stringReplace str oldStr newStr) := by
  obtain ⟨str', hloop, hreplaced⟩ := stringReplaceLoop_front hold [] hturns
  rw [hreplaced.unique (replaced_stringReplace hold str)] at hloop
  exact hloop

end Loop

/-! ## The five replacements of a value -/

/-- The replacements of `mapToJSON`, each a loop of at most so many turns. -/
def escapeValueLoops (turns : Nat) (value : List UInt8) : Option (List UInt8) := do
  let value ← stringReplaceLoop [10] (ascii "\\n") turns value 0
  let value ← stringReplaceLoop [13] (ascii "\\r") turns value 0
  let value ← stringReplaceLoop [8] (ascii "\\b") turns value 0
  let value ← stringReplaceLoop [9] (ascii "\\t") turns value 0
  stringReplaceLoop [12] (ascii "\\f") turns value 0

theorem escapeValueLoops_eq (value : List UInt8) :
    ∃ n, ∀ turns ≥ n, escapeValueLoops turns value = some (escapeValue value) := by
  let value₁ := stringReplace value [10] (ascii "\\n")
  let value₂ := stringReplace value₁ [13] (ascii "\\r")
  let value₃ := stringReplace value₂ [8] (ascii "\\b")
  let value₄ := stringReplace value₃ [9] (ascii "\\t")
  refine ⟨value.length + value₁.length + value₂.length + value₃.length + value₄.length + 1, ?_⟩
  intro turns hturns
  have hchar (c : UInt8) : [c] ≠ [] := List.cons_ne_nil c []
  have h₁ : stringReplaceLoop [10] (ascii "\\n") turns value 0 = some value₁ :=
    stringReplaceLoop_eq (hchar 10) (by omega)
  have h₂ : stringReplaceLoop [13] (ascii "\\r") turns value₁ 0 = some value₂ :=
    stringReplaceLoop_eq (hchar 13) (by omega)
  have h₃ : stringReplaceLoop [8] (ascii "\\b") turns value₂ 0 = some value₃ :=
    stringReplaceLoop_eq (hchar 8) (by omega)
  have h₄ : stringReplaceLoop [9] (ascii "\\t") turns value₃ 0 = some value₄ :=
    stringReplaceLoop_eq (hchar 9) (by omega)
  have h₅ : stringReplaceLoop [12] (ascii "\\f") turns value₄ 0 = some (escapeValue value) :=
    stringReplaceLoop_eq (hchar 12) (by omega)
  simp only [escapeValueLoops, h₁, h₂, h₃, h₄, h₅, Option.bind_eq_bind, Option.bind_some]

/-- `stringReplace` ends and replaces the leftmost non-overlapping occurrences, whatever it
puts in; so the chain of five makes of every character of a value what is put in for it. -/
theorem stringReplace_spec :
    (∀ str oldStr newStr : List UInt8, oldStr ≠ [] → ∃ str',
      (∀ turns > str.length, stringReplaceLoop oldStr newStr turns str 0 = some str') ∧
        ∀ text, Replaced oldStr newStr str text ↔ text = str') ∧
      ∀ value : List UInt8,
        (∃ n, ∀ turns ≥ n, escapeValueLoops turns value = some (escapeValue value)) ∧
          escapeValue value = value.flatMap escapeChar := by
  refine ⟨fun str oldStr newStr hold => ?_, fun value => ?_⟩
  · have hreplaced : Replaced oldStr newStr str (stringReplace str oldStr newStr) :=
      replaced_stringReplace hold str
    refine ⟨stringReplace str oldStr newStr,
      fun turns hturns => stringReplaceLoop_eq hold hturns, ?_⟩
    intro text
    constructor
    · exact fun h => h.unique hreplaced
    · rintro rfl
      exact hreplaced
  · exact ⟨escapeValueLoops_eq value, escapeValue_eq_flatMap value⟩

/-- A text put in that contains what it is put in for. -/
theorem stringReplace_spec_growing :
    ∃ str', (∀ turns > 4, stringReplaceLoop [97] [97, 97] turns [97, 98, 97, 97] 0 = some str') ∧
      ∀ text, Replaced [97] [97, 97] [97, 98, 97, 97] text ↔ text = str' :=
  stringReplace_spec.1 [97, 98, 97, 97] [97] [97, 97] (List.cons_ne_nil 97 [])

example : stringReplaceLoop [97] [97, 97] 5 [97, 98, 97, 97] 0 =
    some [97, 97, 98, 97, 97, 97, 97] := by decide

end MqttClient.Measurement
