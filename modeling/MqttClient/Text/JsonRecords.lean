import Mathlib.Algebra.Order.Ring.Int
import Mathlib.Data.List.Basic
import Mathlib.Algebra.BigOperators.Group.List.Basic
import Mathlib.Algebra.Order.BigOperators.Group.List
import Mathlib.Algebra.Order.Group.Nat

/-! # Records in JSON

An array of objects whose members are strings: which bytes are such a text and
what it denotes, the least room that it takes, and how a text is read back whose
characters are spelled in one of the ways that the grammar allows.
-/

namespace Text

/-! ## UTF-8 -/

/-- The ranges of the bytes that are still missing after the first byte of a character. -/
def continuation (b : UInt8) : Option (List (UInt8 × UInt8)) :=
  if b < 0x80 then some []
  else if b < 0xC2 then none
  else if b < 0xE0 then some [(0x80, 0xBF)]
  else if b = 0xE0 then some [(0xA0, 0xBF), (0x80, 0xBF)]
  else if b = 0xED then some [(0x80, 0x9F), (0x80, 0xBF)]
  else if b < 0xF0 then some [(0x80, 0xBF), (0x80, 0xBF)]
  else if b = 0xF0 then some [(0x90, 0xBF), (0x80, 0xBF), (0x80, 0xBF)]
  else if b < 0xF4 then some [(0x80, 0xBF), (0x80, 0xBF), (0x80, 0xBF)]
  else if b = 0xF4 then some [(0x80, 0x8F), (0x80, 0xBF), (0x80, 0xBF)]
  else none

/-- What is missing after one more byte. -/
def nextMissing : List (UInt8 × UInt8) → UInt8 → Option (List (UInt8 × UInt8))
  | [], b => continuation b
  | (low, high) :: missing, b => if 0x80 ≤ b ∧ low ≤ b ∧ b ≤ high then some missing else none

def missingAfter : List (UInt8 × UInt8) → List UInt8 → Option (List (UInt8 × UInt8))
  | missing, [] => some missing
  | missing, b :: s => (nextMissing missing b).bind fun missing => missingAfter missing s

/-- The bytes are whole characters. -/
def IsUtf8 (s : List UInt8) : Prop := missingAfter [] s = some []

instance (s : List UInt8) : Decidable (IsUtf8 s) := inferInstanceAs (Decidable (_ = _))

/-- What a text leaves open is taken up by the text behind it. -/
theorem missingAfter_append (missing : List (UInt8 × UInt8)) (s t : List UInt8) :
    missingAfter missing (s ++ t) =
      (missingAfter missing s).bind fun missing => missingAfter missing t := by
  induction s generalizing missing with
  | nil => rfl
  | cons b s ih => simp only [List.cons_append, missingAfter, Option.bind_assoc, ih]

/-- A byte of its own comes between characters and ends none. -/
theorem nextMissing_of_lt {b : UInt8} (h : b < 0x80) (missing : List (UInt8 × UInt8)) :
    nextMissing missing b = if missing = [] then some [] else none := by
  cases missing with
  | nil => rw [nextMissing, continuation, if_pos h, if_pos rfl]
  | cons range missing =>
      obtain ⟨low, high⟩ := range
      rw [nextMissing, if_neg fun hrange => absurd hrange.1 (UInt8.not_le.mpr h),
        if_neg (List.cons_ne_nil _ _)]

theorem isUtf8_nil : IsUtf8 [] := rfl

theorem IsUtf8.append {s t : List UInt8} (hs : IsUtf8 s) (ht : IsUtf8 t) : IsUtf8 (s ++ t) := by
  rw [IsUtf8, missingAfter_append, hs]
  exact ht

/-- A byte below 128 is a character by itself. -/
theorem isUtf8_cons {b : UInt8} (h : b < 0x80) {s : List UInt8} :
    IsUtf8 (b :: s) ↔ IsUtf8 s := by
  rw [IsUtf8, missingAfter, nextMissing_of_lt h, if_pos rfl, Option.bind_some, IsUtf8]

/-- A text falls into whole characters where there is a byte of its own. -/
theorem isUtf8_append_cons {b : UInt8} (h : b < 0x80) {s t : List UInt8} :
    IsUtf8 (s ++ b :: t) ↔ IsUtf8 s ∧ IsUtf8 t := by
  constructor
  · intro hst
    rw [IsUtf8, missingAfter_append] at hst
    obtain ⟨missing, hs, ht⟩ := Option.bind_eq_some_iff.mp hst
    rw [missingAfter, nextMissing_of_lt h] at ht
    rcases eq_or_ne missing [] with rfl | hmissing
    · rw [if_pos rfl, Option.bind_some] at ht
      exact ⟨hs, ht⟩
    · rw [if_neg hmissing] at ht
      cases ht
  · rintro ⟨hs, ht⟩
    exact hs.append ((isUtf8_cons h).mpr ht)

/-! ## Tokens -/

/-- The blanks that may stand around a token. -/
def isBlank (b : UInt8) : Bool := b = 32 || b = 9 || b = 10 || b = 13

/-- What is behind a token, if it comes next. -/
def expect (token : UInt8) (s : List UInt8) : Option (List UInt8) :=
  match s.dropWhile isBlank with
  | [] => none
  | b :: s => if b = token then some s else none

/-- A token that is there is taken. -/
@[simp] theorem expect_cons {token : UInt8} (h : isBlank token = false) (s : List UInt8) :
    expect token (token :: s) = some s := by
  rw [expect, List.dropWhile_cons_of_neg (by rw [h]; exact Bool.false_ne_true)]
  exact if_pos rfl

/-- Another one in its place is an error. -/
theorem expect_cons_of_ne {token b : UInt8} (h : isBlank b = false) (hne : b ≠ token)
    (s : List UInt8) : expect token (b :: s) = none := by
  rw [expect, List.dropWhile_cons_of_neg (by rw [h]; exact Bool.false_ne_true)]
  exact if_neg hne

/-- A token takes up a byte at least. -/
theorem length_of_expect {token : UInt8} {s r : List UInt8} (h : expect token s = some r) :
    1 + r.length ≤ s.length := by
  rw [expect] at h
  have hdrop := (List.dropWhile_suffix (l := s) isBlank).length_le
  split at h
  · cases h
  next b s' heq =>
      split at h
      · cases h
        rw [heq] at hdrop
        rw [List.length_cons] at hdrop
        omega
      · cases h

/-! ## Strings -/

/-- A character that cannot stand for itself in a string. -/
def isSpecial (b : UInt8) : Bool := b = 34 || b = 92 || b < 32

/-- The characters that have an escape of two characters, and its second one. -/
def shortEscapes : List (UInt8 × UInt8) :=
  [(34, 34), (92, 92), (47, 47), (98, 8), (102, 12), (110, 10), (114, 13), (116, 9)]

def hexDigit (b : UInt8) : Option Nat :=
  if 48 ≤ b ∧ b ≤ 57 then some (b.toNat - 48)
  else if 97 ≤ b ∧ b ≤ 102 then some (b.toNat - 87)
  else if 65 ≤ b ∧ b ≤ 70 then some (b.toNat - 55)
  else none

/-- The number that so many hexadecimal digits denote, and what is behind them. -/
def readHex : Nat → Nat → List UInt8 → Option (Nat × List UInt8)
  | 0, v, s => some (v, s)
  | _ + 1, _, [] => none
  | n + 1, v, b :: s => (hexDigit b).bind fun d => readHex n (16 * v + d) s

/-- The character behind `\u`. One outside the basic plane takes two such escapes;
half of one denotes nothing. -/
def readUnicode (s : List UInt8) : Option (List UInt8 × List UInt8) :=
  (readHex 4 0 s).bind fun (u, s) =>
    if 0xD800 ≤ u ∧ u < 0xDC00 then
      match s with
      | 92 :: 117 :: s =>
          (readHex 4 0 s).bind fun (l, s) =>
            if 0xDC00 ≤ l ∧ l < 0xE000 then
              let c := 0x10000 + (u - 0xD800) * 0x400 + (l - 0xDC00)
              some (String.utf8EncodeChar (Char.ofNat c), s)
            else none
      | _ => none
    else if 0xDC00 ≤ u ∧ u < 0xE000 then none
    else some (String.utf8EncodeChar (Char.ofNat u), s)

/-- The character that an escape denotes, behind its backslash. -/
def readEscape : List UInt8 → Option (List UInt8 × List UInt8)
  | [] => none
  | b :: s =>
      if b = 117 then readUnicode s
      else (shortEscapes.lookup b).map fun c => ([c], s)

/-- A string behind its opening quotation mark, and what is behind it. -/
def readChars : Nat → List UInt8 → Option (List UInt8 × List UInt8)
  | 0, _ => none
  | _ + 1, [] => none
  | n + 1, b :: s =>
      if b = 34 then some ([], s)
      else if b = 92 then
        (readEscape s).bind fun (c, s) => (readChars n s).map fun (cs, s) => (c ++ cs, s)
      else if b < 32 then none
      else (readChars n s).map fun (cs, s) => (b :: cs, s)

def readString (s : List UInt8) : Option (List UInt8 × List UInt8) :=
  (expect 34 s).bind fun s => readChars s.length s

/-! ## Members and objects -/

/-- Items that follow an item, each behind a comma, and the end of the sequence. -/
def readFollowing {α : Type} (item : List UInt8 → Option (α × List UInt8)) (close : UInt8) :
    Nat → List UInt8 → Option (List α × List UInt8)
  | 0, _ => none
  | n + 1, s =>
      match expect close s with
      | some s => some ([], s)
      | none =>
          (expect 44 s).bind fun s => (item s).bind fun (a, s) =>
            (readFollowing item close n s).map fun (as, s) => (a :: as, s)

/-- Items between an opening and a closing token, with commas between them. -/
def readSequence {α : Type} (item : List UInt8 → Option (α × List UInt8)) (opening close : UInt8)
    (s : List UInt8) : Option (List α × List UInt8) :=
  (expect opening s).bind fun s =>
    match expect close s with
    | some s => some ([], s)
    | none =>
        (item s).bind fun (a, s) =>
          (readFollowing item close s.length s).map fun (as, s) => (a :: as, s)

/-- A member of a record: its name and its value. -/
abbrev Member := List UInt8 × List UInt8

def readMember (s : List UInt8) : Option (Member × List UInt8) :=
  (readString s).bind fun (name, s) => (expect 58 s).bind fun s =>
    (readString s).map fun (value, s) => ((name, value), s)

def readObject : List UInt8 → Option (List Member × List UInt8) :=
  readSequence readMember 123 125

/-- The records that a text denotes, with their members in the text's order. -/
def readRecords (s : List UInt8) : Option (List (List Member)) :=
  if IsUtf8 s then
    (readSequence readObject 91 93 s).bind fun (records, s) =>
      if s.all isBlank then some records else none
  else none

/-! ## The room that a text takes -/

/-- The least room for the characters of a string. -/
def stringSize (s : List UInt8) : Nat := s.length + s.countP isSpecial

/-- The least room for items of these sizes. -/
def sequenceSize (sizes : List Nat) : Nat := 2 + sizes.sum + (sizes.length - 1)

def memberSize (member : Member) : Nat := 5 + stringSize member.1 + stringSize member.2

def recordsSize (records : List (List Member)) : Nat :=
  sequenceSize (records.map fun record => sequenceSize (record.map memberSize))

/-- A byte that has to be escaped takes up two. -/
theorem stringSize_cons (b : UInt8) (s : List UInt8) :
    stringSize (b :: s) = 1 + (if isSpecial b then 1 else 0) + stringSize s := by
  rw [stringSize, stringSize, List.length_cons, List.countP_cons]
  omega

theorem stringSize_append (s t : List UInt8) :
    stringSize (s ++ t) = stringSize s + stringSize t := by
  rw [stringSize, stringSize, stringSize, List.length_append, List.countP_append]
  omega

/-- So no text takes up more than twice its length. -/
theorem stringSize_le (s : List UInt8) : stringSize s ≤ 2 * s.length := by
  have := List.countP_le_length (p := isSpecial) (l := s)
  rw [stringSize]
  omega

/-- As many digits are read as were asked for, and they bound the number. -/
theorem length_of_readHex {n v u : Nat} {s r : List UInt8} (h : readHex n v s = some (u, r)) :
    n + r.length = s.length ∧ u < 16 ^ n * (v + 1) := by
  induction n generalizing v s with
  | zero =>
      cases h
      exact ⟨by omega, by omega⟩
  | succ n ih =>
      cases s with
      | nil => cases h
      | cons b s =>
          obtain ⟨d, hd, h⟩ := Option.bind_eq_some_iff.mp h
          obtain ⟨hlen, hlt⟩ := ih h
          have hdigit : d < 16 := by
            rw [hexDigit] at hd
            split_ifs at hd with h1 h2 h3
            all_goals
              cases hd
              simp only [UInt8.le_iff_toNat_le] at *
              simp at *
              omega
          refine ⟨by rw [List.length_cons]; omega, hlt.trans_le ?_⟩
          calc 16 ^ n * (16 * v + d + 1) ≤ 16 ^ n * (16 * (v + 1)) :=
                Nat.mul_le_mul_left _ (by omega)
            _ = 16 ^ (n + 1) * (v + 1) := by rw [Nat.pow_succ, Nat.mul_assoc]

/-- A character that four digits name takes three bytes at most. -/
theorem length_utf8EncodeChar_le {u : Nat} (h : u < 0x10000) :
    (String.utf8EncodeChar (Char.ofNat u)).length ≤ 3 := by
  have hval : (Char.ofNat u).val.toNat < 0x10000 := by
    by_cases hvalid : u.isValidChar
    · rw [Char.ofNat, dif_pos hvalid]
      exact h
    · rw [Char.ofNat, dif_neg hvalid]
      decide
  rw [String.length_utf8EncodeChar, Char.utf8Size]
  split_ifs with h1 h2 h3
  · omega
  · omega
  · omega
  · exact absurd (UInt32.le_iff_toNat_le.mpr (Nat.le_of_lt_succ hval)) h3

/-- No character takes up more than eight bytes, escapes included. -/
theorem size_utf8EncodeChar_le (c : Char) : stringSize (String.utf8EncodeChar c) ≤ 8 := by
  have := stringSize_le (String.utf8EncodeChar c)
  rw [String.length_utf8EncodeChar] at this
  have := Char.utf8Size_le_four c
  omega

/-- An escape is never shorter than what it denotes. -/
theorem size_of_readEscape {s c r : List UInt8} (h : readEscape s = some (c, r)) :
    stringSize c + r.length ≤ 1 + s.length := by
  cases s with
  | nil => cases h
  | cons b s =>
      rw [readEscape] at h
      split at h
      · obtain ⟨⟨u, s₁⟩, hhex, h⟩ := Option.bind_eq_some_iff.mp h
        obtain ⟨hlen, hlt⟩ := length_of_readHex hhex
        rw [List.length_cons]
        simp only at h
        split_ifs at h with hhigh hlow
        · split at h
          next s₂ =>
              obtain ⟨⟨l, s₃⟩, hhex', h⟩ := Option.bind_eq_some_iff.mp h
              obtain ⟨hlen', -⟩ := length_of_readHex hhex'
              simp only at h
              split_ifs at h
              obtain ⟨rfl, rfl⟩ := Prod.mk.inj (Option.some.inj h)
              refine (Nat.add_le_add_right (size_utf8EncodeChar_le _) _).trans ?_
              simp only [List.length_cons] at hlen
              omega
          · cases h
        · cases h
          have := stringSize_le (String.utf8EncodeChar (Char.ofNat u))
          have := length_utf8EncodeChar_le (u := u) (by omega)
          omega
      · obtain ⟨c', -, h⟩ := Option.map_eq_some_iff.mp h
        cases h
        have := stringSize_le [c']
        rw [List.length_cons]
        rw [List.length_singleton] at this
        omega

/-- The characters of a string take no more room than they are read from. -/
theorem size_of_readChars {n : Nat} {s cs r : List UInt8} (h : readChars n s = some (cs, r)) :
    stringSize cs + 1 + r.length ≤ s.length := by
  induction n generalizing s cs with
  | zero => cases h
  | succ n ih =>
      cases s with
      | nil => cases h
      | cons b s =>
          rw [readChars] at h
          rw [List.length_cons]
          split_ifs at h with hquote hescape hcontrol
          · cases h
            exact Nat.le_of_eq (by rw [stringSize, List.length_nil, List.countP_nil]; omega)
          · obtain ⟨⟨c, s₁⟩, hc, h⟩ := Option.bind_eq_some_iff.mp h
            obtain ⟨⟨cs', r'⟩, hcs, h⟩ := Option.map_eq_some_iff.mp h
            cases h
            have := size_of_readEscape hc
            have := ih hcs
            rw [stringSize_append]
            omega
          · obtain ⟨⟨cs', r'⟩, hcs, h⟩ := Option.map_eq_some_iff.mp h
            cases h
            have := ih hcs
            rw [stringSize_cons, if_neg (by simp [isSpecial, hquote, hescape, hcontrol])]
            omega

/-- Nor does the string with its quotes. -/
theorem size_of_readString {s cs r : List UInt8} (h : readString s = some (cs, r)) :
    2 + stringSize cs + r.length ≤ s.length := by
  obtain ⟨s₁, hopen, h⟩ := Option.bind_eq_some_iff.mp h
  have := length_of_expect hopen
  have := size_of_readChars h
  omega

/-- Nor does a member. -/
theorem size_of_readMember {s r : List UInt8} {member : Member}
    (h : readMember s = some (member, r)) : memberSize member + r.length ≤ s.length := by
  obtain ⟨⟨name, s₁⟩, hname, h⟩ := Option.bind_eq_some_iff.mp h
  obtain ⟨s₂, hcolon, h⟩ := Option.bind_eq_some_iff.mp h
  obtain ⟨⟨value, s₃⟩, hvalue, h⟩ := Option.map_eq_some_iff.mp h
  cases h
  have := size_of_readString hname
  have := length_of_expect hcolon
  have := size_of_readString hvalue
  change 5 + stringSize name + stringSize value + r.length ≤ s.length
  omega

section Sequences

variable {α : Type} {item : List UInt8 → Option (α × List UInt8)} {size : α → Nat}
  (hitem : ∀ s a r, item s = some (a, r) → size a + r.length ≤ s.length)
include hitem

/-- Nor do the items behind the first; by induction on the items that are left. -/
theorem size_of_readFollowing {close : UInt8} {n : Nat} {s r : List UInt8} {as : List α}
    (h : readFollowing item close n s = some (as, r)) :
    (as.map size).sum + as.length + 1 + r.length ≤ s.length := by
  induction n generalizing s as with
  | zero => cases h
  | succ n ih =>
      rw [readFollowing] at h
      split at h
      next s₁ hclose =>
          cases h
          have := length_of_expect hclose
          simp only [List.map_nil, List.sum_nil, List.length_nil]
          omega
      · obtain ⟨s₁, hcomma, h⟩ := Option.bind_eq_some_iff.mp h
        obtain ⟨⟨a, s₂⟩, ha, h⟩ := Option.bind_eq_some_iff.mp h
        obtain ⟨⟨as', r'⟩, has, h⟩ := Option.map_eq_some_iff.mp h
        cases h
        have := length_of_expect hcomma
        have := hitem _ _ _ ha
        have := ih has
        rw [List.map_cons, List.sum_cons, List.length_cons]
        omega

/-- Nor does a sequence with its brackets and commas. -/
theorem size_of_readSequence {opening close : UInt8} {s r : List UInt8} {as : List α}
    (h : readSequence item opening close s = some (as, r)) :
    sequenceSize (as.map size) + r.length ≤ s.length := by
  obtain ⟨s₁, hopen, h⟩ := Option.bind_eq_some_iff.mp h
  have := length_of_expect hopen
  rw [sequenceSize, List.length_map]
  split at h
  next s₂ hclose =>
      cases h
      have := length_of_expect hclose
      simp only [List.map_nil, List.sum_nil, List.length_nil]
      omega
  · obtain ⟨⟨a, s₂⟩, ha, h⟩ := Option.bind_eq_some_iff.mp h
    obtain ⟨⟨as', r'⟩, has, h⟩ := Option.map_eq_some_iff.mp h
    cases h
    have := hitem _ _ _ ha
    have := size_of_readFollowing hitem has
    rw [List.map_cons, List.sum_cons, List.length_cons]
    omega

end Sequences

/-- No text that denotes these records is shorter than their size. -/
theorem size_of_readRecords {s : List UInt8} {records : List (List Member)}
    (h : readRecords s = some records) : recordsSize records ≤ s.length := by
  rw [readRecords] at h
  split_ifs at h
  obtain ⟨⟨records', r⟩, hread, h⟩ := Option.bind_eq_some_iff.mp h
  simp only at h
  split_ifs at h
  cases h
  exact Nat.le_of_add_right_le (size_of_readSequence
    (fun _ _ _ h => size_of_readSequence (fun _ _ _ h => size_of_readMember h) h) hread)

/-! ## Writing -/

/-- How the characters of a string are written: as they are or, where they may not
stand for themselves, as an escape. -/
structure Spelling where
  spell : UInt8 → List UInt8
  sound : ∀ b, spell b = [b] ∨
    isSpecial b = true ∧ ∃ l, spell b = [92, l] ∧ shortEscapes.lookup l = some b

namespace Spelling

/-- The character is written as it is although it cannot stand for itself. -/
def isBare (e : Spelling) (b : UInt8) : Bool := isSpecial b && e.spell b = [b]

/-- The string's text denotes it. -/
def Writes (e : Spelling) (s : List UInt8) : Prop := IsUtf8 s ∧ ∀ b ∈ s, e.isBare b = false

instance (e : Spelling) (s : List UInt8) : Decidable (e.Writes s) :=
  inferInstanceAs (Decidable (_ ∧ _))

def write (e : Spelling) (s : List UInt8) : List UInt8 := 34 :: s.flatMap e.spell ++ [34]

/-- Every escape of the table and the character it denotes are ASCII. -/
theorem lt_of_lookup {l b : UInt8} (h : shortEscapes.lookup l = some b) :
    l < 0x80 ∧ b < 0x80 ∧ l ≠ 117 := by
  have hall : (shortEscapes.all fun pair => pair.1 < 0x80 && pair.2 < 0x80 && pair.1 ≠ 117) =
      true := rfl
  obtain ⟨before, after, hsplit, -⟩ := List.lookup_eq_some_iff.mp h
  have hpair := List.all_eq_true.mp hall (l, b) (by
    rw [hsplit]
    exact List.mem_append_right _ List.mem_cons_self)
  simpa only [Bool.and_eq_true, decide_eq_true_eq, and_assoc] using hpair

variable (e : Spelling)

/-- A text falls short of the least size by the characters that should have been escaped. -/
theorem length_flatMap (s : List UInt8) :
    (s.flatMap e.spell).length + s.countP e.isBare = stringSize s := by
  induction s with
  | nil => rfl
  | cons b s ih =>
      rw [List.flatMap_cons, List.length_append, List.countP_cons, stringSize_cons, ← ih, isBare]
      rcases e.sound b with hb | ⟨hspecial, l, hb, -⟩
      · rw [hb, decide_eq_true rfl, Bool.and_true, List.length_singleton]
        omega
      · rw [hb, hspecial, decide_eq_false (by simp), List.length_cons, List.length_singleton]
        simp only [Bool.and_false, Bool.false_eq_true, if_false, if_true]
        omega

/-- Escapes are plain characters, so they leave open what the text leaves open. -/
theorem missingAfter_flatMap (missing : List (UInt8 × UInt8)) (s : List UInt8) :
    missingAfter missing (s.flatMap e.spell) = missingAfter missing s := by
  induction s generalizing missing with
  | nil => rfl
  | cons b s ih =>
      rw [List.flatMap_cons, missingAfter_append]
      have hb : missingAfter missing (e.spell b) = nextMissing missing b := by
        rcases e.sound b with hb | ⟨-, l, hb, hl⟩
        · rw [hb, missingAfter]
          exact Option.bind_fun_some (nextMissing missing b)
        · -- the backslash, its letter and the character all ask for nothing to be missing
          obtain ⟨hl, hlt, -⟩ := lt_of_lookup hl
          rw [hb, missingAfter, nextMissing_of_lt (by decide), nextMissing_of_lt hlt]
          split_ifs
          · rw [Option.bind_some, missingAfter, nextMissing_of_lt hl, if_pos rfl]
            rfl
          · rfl
      rw [hb, missingAfter]
      exact congrArg _ (funext fun missing => ih missing)

/-- A text is UTF-8 exactly if it is so with its escapes. -/
theorem isUtf8_flatMap {s : List UInt8} : IsUtf8 (s.flatMap e.spell) ↔ IsUtf8 s := by
  rw [IsUtf8, missingAfter_flatMap, IsUtf8]

/-- A string in which nothing is left bare has no terminator in its text. -/
theorem ne_zero_of_mem_write {s : List UInt8} (h : ∀ b ∈ s, e.isBare b = false) :
    ∀ b ∈ e.write s, b ≠ 0 := by
  intro b hb
  rw [write, List.mem_append, List.mem_cons, List.mem_singleton] at hb
  rcases hb with (rfl | hb) | rfl
  · decide
  · obtain ⟨c, hc, hb⟩ := List.mem_flatMap.mp hb
    rcases e.sound c with hspell | ⟨-, l, hspell, hl⟩
    · rw [hspell, List.mem_singleton] at hb
      subst hb
      rintro rfl
      simpa [isBare, hspell, isSpecial] using h 0 hc
    · rw [hspell, List.mem_cons, List.mem_singleton] at hb
      rcases hb with rfl | rfl
      · decide
      · rintro rfl
        cases hl
  · decide

/-- The escaped text is read back up to its quote. -/
theorem readChars_flatMap {s : List UInt8} (h : ∀ b ∈ s, e.isBare b = false) (t : List UInt8)
    {n : Nat} (hn : s.length < n) :
    readChars n (s.flatMap e.spell ++ 34 :: t) = some (s, t) := by
  induction s generalizing n with
  | nil =>
      obtain ⟨n, rfl⟩ : ∃ k, n = k + 1 := ⟨n - 1, by omega⟩
      rfl
  | cons b s ih =>
      obtain ⟨n, rfl⟩ : ∃ k, n = k + 1 := ⟨n - 1, by omega⟩
      have hs := ih (fun c hc => h c (List.mem_cons_of_mem _ hc))
        (Nat.lt_of_succ_lt_succ hn)
      rw [List.flatMap_cons, List.append_assoc]
      rcases e.sound b with hb | ⟨-, l, hb, hl⟩
      · have hspecial : isSpecial b = false := by
          simpa [isBare, hb] using h b List.mem_cons_self
        rw [isSpecial, Bool.or_eq_false_iff, Bool.or_eq_false_iff] at hspecial
        obtain ⟨⟨hquote, hescape⟩, hcontrol⟩ := hspecial
        rw [hb, List.singleton_append, readChars, if_neg (of_decide_eq_false hquote),
          if_neg (of_decide_eq_false hescape), if_neg (of_decide_eq_false hcontrol), hs]
        rfl
      · rw [hb, List.cons_append, List.singleton_append, readChars, if_neg (by decide),
          if_pos rfl, readEscape, if_neg (lt_of_lookup hl).2.2, hl]
        simp only [Option.map_some, Option.bind_some, hs]
        rfl

/-- A string that is written is read back. -/
theorem readString_write {s : List UInt8} (h : ∀ b ∈ s, e.isBare b = false) (t : List UInt8) :
    readString (e.write s ++ t) = some (s, t) := by
  have hlen := e.length_flatMap s
  have hcount : s.countP e.isBare = 0 :=
    List.countP_eq_zero.mpr fun b hb => Bool.eq_false_iff.mp (h b hb)
  rw [write, List.append_assoc, List.cons_append, readString, expect_cons (by decide),
    Option.bind_some, List.singleton_append]
  refine e.readChars_flatMap h t ?_
  rw [List.length_append, List.length_cons]
  rw [hcount, stringSize] at hlen
  omega

end Spelling

/-- Nothing is escaped. -/
def bareSpelling : Spelling where
  spell b := [b]
  sound _ := .inl rfl

/-- Without any escapes, just the special bytes stand bare. -/
theorem isBare_bareSpelling (b : UInt8) : bareSpelling.isBare b = isSpecial b := by
  rw [Spelling.isBare, bareSpelling, decide_eq_true rfl, Bool.and_true]

/-- Items with commas between them. -/
def commaList : List (List UInt8) → List UInt8
  | [] => []
  | text :: texts => text ++ texts.flatMap fun text => 44 :: text

def writeSequence (opening close : UInt8) (texts : List (List UInt8)) : List UInt8 :=
  opening :: commaList texts ++ [close]

/-- Commas behind the items are commas before the items that follow, and one more. -/
theorem append_flatMap_comma (text : List UInt8) (texts : List (List UInt8)) :
    text ++ 44 :: texts.flatMap (· ++ [44]) = commaList (text :: texts) ++ [44] := by
  induction texts generalizing text with
  | nil => rw [commaList, List.flatMap_nil, List.flatMap_nil, List.append_nil]
  | cons next texts ih =>
      rw [List.flatMap_cons, List.append_assoc, List.singleton_append, ih, commaList, commaList,
        List.flatMap_cons, List.append_assoc, List.append_assoc, List.append_assoc]
      rfl

/-- Items that each leave a comma behind them, less the last comma. -/
theorem dropLast_flatMap_comma {texts : List (List UInt8)} (h : texts ≠ []) :
    (texts.flatMap (· ++ [44])).dropLast = commaList texts := by
  cases texts with
  | nil => exact absurd rfl h
  | cons text texts =>
      rw [List.flatMap_cons, List.append_assoc, List.singleton_append, append_flatMap_comma,
        List.dropLast_concat]

theorem length_following (texts : List (List UInt8)) :
    (texts.flatMap fun text => 44 :: text).length =
      (texts.map List.length).sum + texts.length := by
  induction texts with
  | nil => rfl
  | cons text texts ih =>
      rw [List.flatMap_cons, List.length_append, ih, List.map_cons, List.sum_cons,
        List.length_cons, List.length_cons]
      omega

/-- A sequence takes the room of its items, commas and brackets. -/
theorem length_writeSequence (opening close : UInt8) (texts : List (List UInt8)) :
    (writeSequence opening close texts).length = sequenceSize (texts.map List.length) := by
  rw [writeSequence, List.length_append, List.length_cons, List.length_singleton, sequenceSize]
  cases texts with
  | nil => rfl
  | cons text texts =>
      rw [commaList, List.length_append, length_following, List.map_cons, List.sum_cons,
        List.length_cons, List.length_map]
      omega

/-- What holds of brackets, commas and items holds of the sequence. -/
theorem forall_mem_writeSequence {p : UInt8 → Prop} {opening close : UInt8} (ho : p opening)
    (hc : p close) (hcomma : p 44) {texts : List (List UInt8)}
    (h : ∀ text ∈ texts, ∀ b ∈ text, p b) : ∀ b ∈ writeSequence opening close texts, p b := by
  have hlist : ∀ b ∈ commaList texts, p b := by
    cases texts with
    | nil => exact nofun
    | cons text texts =>
        rw [List.forall_mem_cons] at h
        intro b hb
        rcases List.mem_append.mp hb with hb | hb
        · exact h.1 b hb
        · obtain ⟨text', htext, hb⟩ := List.mem_flatMap.mp hb
          rcases List.mem_cons.mp hb with rfl | hb
          · exact hcomma
          · exact h.2 text' htext b hb
  intro b hb
  rcases List.mem_append.mp hb with hb | hb
  · rcases List.mem_cons.mp hb with rfl | hb
    · exact ho
    · exact hlist b hb
  · rw [List.mem_singleton.mp hb]
    exact hc

theorem isUtf8_following {close : UInt8} (h : close < 0x80) {texts : List (List UInt8)}
    {s : List UInt8} :
    IsUtf8 ((texts.flatMap fun text => 44 :: text) ++ close :: s) ↔
      (∀ text ∈ texts, IsUtf8 text) ∧ IsUtf8 s := by
  induction texts with
  | nil => simp [isUtf8_cons h]
  | cons text texts ih =>
      rw [List.flatMap_cons, List.append_assoc, List.cons_append, isUtf8_cons (by decide),
        List.forall_mem_cons, and_assoc, ← ih]
      cases texts with
      | nil => rw [List.flatMap_nil, List.nil_append, isUtf8_append_cons h, isUtf8_cons h]
      | cons text' texts =>
          rw [List.flatMap_cons, List.cons_append, List.cons_append,
            isUtf8_append_cons (by decide), isUtf8_cons (by decide)]

/-- A sequence is UTF-8 exactly if its items are. -/
theorem isUtf8_writeSequence {opening close : UInt8} (ho : opening < 0x80) (hc : close < 0x80)
    {texts : List (List UInt8)} :
    IsUtf8 (writeSequence opening close texts) ↔ ∀ text ∈ texts, IsUtf8 text := by
  rw [writeSequence, List.cons_append, isUtf8_cons ho]
  cases texts with
  | nil => exact iff_of_true ((isUtf8_cons hc).mpr isUtf8_nil) nofun
  | cons text texts =>
      have h := @isUtf8_following close hc (text :: texts) []
      rw [List.flatMap_cons, List.cons_append, List.cons_append, isUtf8_cons (by decide)] at h
      rw [commaList, h]
      exact and_iff_left isUtf8_nil

section Sequences

variable {α : Type} {item : List UInt8 → Option (α × List UInt8)} {write : α → List UInt8}
  {close : UInt8}

/-- An item is read back where a comma or the end of the sequence follows. -/
def ReadsBack (item : List UInt8 → Option (α × List UInt8)) (write : α → List UInt8)
    (close : UInt8) (a : α) : Prop :=
  ∀ b s, b = 44 ∨ b = close → item (write a ++ b :: s) = some (a, b :: s)

theorem following_cons (texts : List (List UInt8)) {b : UInt8} (hb : b = 44 ∨ b = close)
    (s : List UInt8) : ∃ b' t, (texts.flatMap fun text => 44 :: text) ++ b :: s = b' :: t ∧
      (b' = 44 ∨ b' = close) := by
  cases texts with
  | nil => exact ⟨b, s, rfl, hb⟩
  | cons text texts => exact ⟨44, _, rfl, .inl rfl⟩

/-- One turn of the reader that finds an item. -/
theorem readFollowing_item {a : α} (hread : ReadsBack item write close a)
    (hne : (44 : UInt8) ≠ close) (n : Nat) {b : UInt8} {s : List UInt8} (hb : b = 44 ∨ b = close) :
    readFollowing item close (n + 1) (44 :: (write a ++ b :: s)) =
      (readFollowing item close n (b :: s)).map fun (as, s) => (a :: as, s) := by
  rw [readFollowing, expect_cons_of_ne (by decide) hne]
  simp only [@expect_cons 44 (by decide), Option.bind_some, hread b s hb]

/-- Items behind commas are read back; by induction on the items. -/
theorem readFollowing_flatMap {as : List α} (hread : ∀ a ∈ as, ReadsBack item write close a)
    (hclose : isBlank close = false) (hne : (44 : UInt8) ≠ close) (s : List UInt8) {n : Nat}
    (hn : as.length < n) :
    readFollowing item close n (((as.map write).flatMap fun text => 44 :: text) ++ close :: s) =
      some (as, s) := by
  induction as generalizing n with
  | nil =>
      obtain ⟨n, rfl⟩ : ∃ k, n = k + 1 := ⟨n - 1, by omega⟩
      rw [List.map_nil, List.flatMap_nil, List.nil_append, readFollowing, expect_cons hclose]
  | cons a as ih =>
      obtain ⟨n, rfl⟩ : ∃ k, n = k + 1 := ⟨n - 1, by omega⟩
      have hrest := ih (fun b hb => hread b (List.mem_cons_of_mem _ hb)) (Nat.lt_of_succ_lt_succ hn)
      obtain ⟨b, t, heq, hb⟩ := following_cons (as.map write) (.inr (Eq.refl close)) s
      rw [heq] at hrest
      rw [List.map_cons, List.flatMap_cons, List.append_assoc, heq, List.cons_append,
        readFollowing_item (hread a List.mem_cons_self) hne n hb, hrest]
      rfl

/-- A text that is no item ends the reading, whatever has been read before. -/
theorem readFollowing_eq_none {as : List α} (hread : ∀ a ∈ as, ReadsBack item write close a)
    (hne : (44 : UInt8) ≠ close) {bad : List UInt8} (hbad : item bad = none) (n : Nat) :
    readFollowing item close n (((as.map write).flatMap fun text => 44 :: text) ++ 44 :: bad) =
      none := by
  induction as generalizing n with
  | nil =>
      cases n with
      | zero => rfl
      | succ n =>
          rw [List.map_nil, List.flatMap_nil, List.nil_append, readFollowing,
            expect_cons_of_ne (by decide) hne]
          simp only [@expect_cons 44 (by decide), Option.bind_some, hbad, Option.bind_none]
  | cons a as ih =>
      cases n with
      | zero => rfl
      | succ n =>
          have hrest := ih (fun b hb => hread b (List.mem_cons_of_mem _ hb)) n
          obtain ⟨b, t, heq, hb⟩ := @following_cons close (as.map write) 44 (.inl rfl) bad
          rw [heq] at hrest
          rw [List.map_cons, List.flatMap_cons, List.append_assoc, heq, List.cons_append,
            readFollowing_item (hread a List.mem_cons_self) hne n hb, hrest]
          rfl

section Sequence

variable {opening : UInt8} {as : List α} (hread : ∀ a ∈ as, ReadsBack item write close a)
  (hstart : ∀ a s, expect close (write a ++ s) = none) (hopening : isBlank opening = false)
  (hne : (44 : UInt8) ≠ close)
include hread hstart hopening hne

/-- A sequence that is written is read back. -/
theorem readSequence_writeSequence (hclose : isBlank close = false) (s : List UInt8) :
    readSequence item opening close (writeSequence opening close (as.map write) ++ s) =
      some (as, s) := by
  rw [writeSequence, List.append_assoc, List.cons_append, readSequence, expect_cons hopening,
    Option.bind_some, List.singleton_append]
  cases as with
  | nil => rw [List.map_nil, commaList, List.nil_append, expect_cons hclose]
  | cons a as =>
      obtain ⟨b, t, heq, hb⟩ := following_cons (as.map write) (.inr (Eq.refl close)) s
      rw [List.map_cons, commaList, List.append_assoc, hstart, heq]
      simp only [hread a List.mem_cons_self b t hb, Option.bind_some]
      rw [← heq, readFollowing_flatMap (fun b hb => hread b (List.mem_cons_of_mem _ hb)) hclose hne]
      · rfl
      · rw [List.length_append, length_following, List.length_cons, List.length_map]
        omega

/-- A sequence cannot be read if one of its texts is no item. -/
theorem readSequence_eq_none {bad : List UInt8} (hbad : ∀ s, item (bad ++ s) = none)
    (hstartBad : ∀ s, expect close (bad ++ s) = none) (texts : List (List UInt8))
    (s : List UInt8) :
    readSequence item opening close
      (opening :: (commaList (as.map write ++ bad :: texts) ++ s)) = none := by
  rw [readSequence, expect_cons hopening, Option.bind_some]
  cases as with
  | nil =>
      rw [List.map_nil, List.nil_append, commaList, List.append_assoc, hstartBad]
      simp only [hbad, Option.bind_none]
  | cons a as =>
      obtain ⟨b, t, heq, hb⟩ := @following_cons close (as.map write) 44 (.inl rfl)
        (bad ++ ((texts.flatMap fun text => 44 :: text) ++ s))
      rw [List.map_cons, List.cons_append, commaList, List.append_assoc, hstart,
        List.flatMap_append, List.flatMap_cons, List.append_assoc, List.append_assoc,
        List.cons_append, heq]
      simp only [hread a List.mem_cons_self b t hb, Option.bind_some]
      rw [← heq, readFollowing_eq_none (fun b hb => hread b (List.mem_cons_of_mem _ hb)) hne
        (hbad _)]
      rfl

end Sequence

end Sequences

section Records

variable (names values : Spelling)

def writeMember (member : Member) : List UInt8 :=
  names.write member.1 ++ 58 :: values.write member.2

def writeRecords (records : List (List Member)) : List UInt8 :=
  writeSequence 91 93 (records.map fun record =>
    writeSequence 123 125 (record.map (writeMember names values)))

/-- The number of characters of a member that are not escaped although they should be. -/
def bareCount (member : Member) : Nat :=
  member.1.countP names.isBare + member.2.countP values.isBare

/-- A member takes the room that its text asks for, less a byte for each that stands bare. -/
theorem length_writeMember (member : Member) :
    (writeMember names values member).length + bareCount names values member =
      memberSize member := by
  have hname := names.length_flatMap member.1
  have hvalue := values.length_flatMap member.2
  simp only [writeMember, Spelling.write, List.length_append, List.length_cons, List.length_nil,
    bareCount, memberSize]
  omega

/-- Sums whose terms add up add up themselves. -/
theorem sum_map_add {α : Type} (f g h : α → Nat) (heq : ∀ a, f a + g a = h a) (as : List α) :
    (as.map f).sum + (as.map g).sum = (as.map h).sum := by
  rw [← List.sum_map_add]
  exact congrArg List.sum (List.map_congr_left fun a _ => heq a)

/-- So do all records together. -/
theorem length_writeRecords (records : List (List Member)) :
    (writeRecords names values records).length +
        (records.map fun record => (record.map (bareCount names values)).sum).sum =
      recordsSize records := by
  have hrecord : ∀ record : List Member,
      (writeSequence 123 125 (record.map (writeMember names values))).length +
          (record.map (bareCount names values)).sum =
        sequenceSize (record.map memberSize) := by
    intro record
    have := sum_map_add _ _ _ (length_writeMember names values) record
    rw [length_writeSequence, sequenceSize, sequenceSize]
    simp only [List.map_map, Function.comp_def, List.length_map] at this ⊢
    omega
  have := sum_map_add _ _ _ hrecord records
  rw [writeRecords, length_writeSequence, recordsSize, sequenceSize, sequenceSize]
  simp only [List.map_map, Function.comp_def, List.length_map] at this ⊢
  omega

/-- Records that are read back contain no terminator. -/
theorem ne_zero_of_mem_writeRecords {records : List (List Member)}
    (h : ∀ record ∈ records, ∀ member ∈ record,
      (∀ b ∈ member.1, names.isBare b = false) ∧ ∀ b ∈ member.2, values.isBare b = false) :
    ∀ b ∈ writeRecords names values records, b ≠ 0 := by
  apply forall_mem_writeSequence (p := (· ≠ 0)) (by decide) (by decide) (by decide)
  rw [List.forall_mem_map]
  intro record hrecord
  apply forall_mem_writeSequence (p := (· ≠ 0)) (by decide) (by decide) (by decide)
  rw [List.forall_mem_map]
  intro member hmember b hb
  obtain ⟨hname, hvalue⟩ := h record hrecord member hmember
  rcases List.mem_append.mp hb with hb | hb
  · exact names.ne_zero_of_mem_write hname b hb
  · rcases List.mem_cons.mp hb with rfl | hb
    · decide
    · exact values.ne_zero_of_mem_write hvalue b hb

/-- Records whose size a text does not exceed have no character that is wrongly left as it is. -/
theorem isBare_of_readRecords {records : List (List Member)} {s : List UInt8}
    (hle : s.length ≤ (writeRecords names values records).length)
    (h : readRecords s = some records) {record : List Member} (hrecord : record ∈ records)
    {member : Member} (hmember : member ∈ record) :
    (∀ b ∈ member.1, names.isBare b = false) ∧ ∀ b ∈ member.2, values.isBare b = false := by
  have hsize := size_of_readRecords h
  have hlen := length_writeRecords names values records
  have hzero : (records.map fun record => (record.map (bareCount names values)).sum).sum = 0 := by
    omega
  have hrecordZero := List.sum_eq_zero_iff.mp hzero _ (List.mem_map_of_mem hrecord)
  have hmemberZero := List.sum_eq_zero_iff.mp hrecordZero _ (List.mem_map_of_mem hmember)
  obtain ⟨hname, hvalue⟩ := Nat.add_eq_zero_iff.mp hmemberZero
  exact ⟨fun b hb => Bool.eq_false_iff.mpr (List.countP_eq_zero.mp hname b hb),
    fun b hb => Bool.eq_false_iff.mpr (List.countP_eq_zero.mp hvalue b hb)⟩

/-- A member is UTF-8 exactly if its name and its value are. -/
theorem isUtf8_writeMember {member : Member} :
    IsUtf8 (writeMember names values member) ↔ IsUtf8 member.1 ∧ IsUtf8 member.2 := by
  have hname := names.isUtf8_flatMap (s := member.1)
  have hvalue := values.isUtf8_flatMap (s := member.2)
  rw [writeMember, isUtf8_append_cons (by decide)]
  simp only [Spelling.write, List.cons_append]
  rw [isUtf8_cons (by decide), isUtf8_cons (by decide), isUtf8_append_cons (by decide),
    isUtf8_append_cons (by decide), hname, hvalue, and_iff_left isUtf8_nil,
    and_iff_left isUtf8_nil]

/-- Records are UTF-8 exactly if all names and values in them are. -/
theorem isUtf8_writeRecords {records : List (List Member)} :
    IsUtf8 (writeRecords names values records) ↔
      ∀ record ∈ records, ∀ member ∈ record, IsUtf8 member.1 ∧ IsUtf8 member.2 := by
  rw [writeRecords, isUtf8_writeSequence (by decide) (by decide)]
  simp only [List.forall_mem_map, @isUtf8_writeSequence 123 125 (by decide)
    (by decide), isUtf8_writeMember]

/-- A member that is written is read back. -/
theorem readMember_writeMember {member : Member}
    (hname : ∀ b ∈ member.1, names.isBare b = false)
    (hvalue : ∀ b ∈ member.2, values.isBare b = false) (s : List UInt8) :
    readMember (writeMember names values member ++ s) = some (member, s) := by
  rw [readMember, writeMember, List.append_assoc, names.readString_write hname]
  simp only [Option.bind_some, List.cons_append]
  rw [expect_cons (by decide)]
  simp only [Option.bind_some]
  rw [values.readString_write hvalue]
  rfl

/-- The text of records denotes them just when that of every name and value does. -/
theorem readRecords_writeRecords_iff {records : List (List Member)} :
    readRecords (writeRecords names values records) = some records ↔
      ∀ record ∈ records, ∀ member ∈ record,
        names.Writes member.1 ∧ values.Writes member.2 := by
  constructor
  · intro h record hrecord member hmember
    have hbare := isBare_of_readRecords names values le_rfl h hrecord hmember
    rw [readRecords] at h
    split_ifs at h with hutf8
    have hutf8 := (isUtf8_writeRecords names values).mp hutf8 record hrecord member hmember
    exact ⟨⟨hutf8.1, hbare.1⟩, ⟨hutf8.2, hbare.2⟩⟩
  · intro h
    rw [readRecords, if_pos ((isUtf8_writeRecords names values).mpr fun record hrecord member hm =>
      ⟨(h record hrecord member hm).1.1, (h record hrecord member hm).2.1⟩)]
    have hread : readSequence readObject 91 93 (writeRecords names values records ++ []) =
        some (records, []) := by
      apply readSequence_writeSequence ?_ ?_ (by decide) (by decide) (by decide)
      · intro record hrecord b s _
        apply readSequence_writeSequence
        · intro member hmember b s _
          obtain ⟨hname, hvalue⟩ := h record hrecord member hmember
          exact readMember_writeMember names values hname.2 hvalue.2 _
        · intro member s
          exact expect_cons_of_ne (by decide) (by decide) _
        all_goals decide
      · intro record s
        exact expect_cons_of_ne (by decide) (by decide) _
    rw [List.append_nil] at hread
    rw [hread]
    rfl

end Records

end Text
