import Mathlib.Algebra.Order.Ring.Int
import MqttClient.Text.ArrayWrites

/-! # Strings of the measurement application

`CTool::stringReplace` and the conversion `%s` of `sprintf`, with which the
application builds its texts.
-/

namespace MqttClient.Measurement

open Text

/-- The loop of `stringReplace`: `skip` characters of an occurrence are still to be
passed over. An occurrence is sought behind the last replacement. -/
def replaceFrom (oldStr newStr : List UInt8) : Nat → List UInt8 → List UInt8
  | _, [] => []
  | skip + 1, _ :: str => replaceFrom oldStr newStr skip str
  | 0, c :: str =>
      if oldStr.isPrefixOf (c :: str) then
        newStr ++ replaceFrom oldStr newStr (oldStr.length - 1) str
      else c :: replaceFrom oldStr newStr 0 str

/-- `CTool::stringReplace`, for an `oldStr` that is not empty. -/
def stringReplace (str oldStr newStr : List UInt8) : List UInt8 := replaceFrom oldStr newStr 0 str

/-- A single character is replaced wherever it stands. -/
theorem stringReplace_singleton (str : List UInt8) (old : UInt8) (newStr : List UInt8) :
    stringReplace str [old] newStr = str.flatMap fun c => if c = old then newStr else [c] := by
  induction str with
  | nil => rfl
  | cons c str ih =>
      rw [List.flatMap_cons, ← ih]
      by_cases h : c = old
      · subst h
        rw [if_pos rfl, stringReplace, replaceFrom, if_pos (by simp)]
        rfl
      · rw [if_neg h, stringReplace, replaceFrom, if_neg (by simpa using Ne.symm h)]
        rfl

/-- `sprintf(dest, "%s", src)` and its form with a precision, for a `dest` of
`capacity` bytes: the string that is in it afterwards. There is none where the
characters and the terminator go past the end. -/
def sprintfString (capacity : Nat) (src : List UInt8) : Option (List UInt8) :=
  if (cString src).length < capacity then some (cString src) else none

end MqttClient.Measurement
