import MqttClient.Text.Decimals
import MqttClient.Text.JsonRecords

/-! # Scalars in JSON

Objects whose members are numbers, truth values or strings, and named sections of
such members. What is written here is written without blanks and escapes.
-/

namespace Text

/-- A value that is neither an object nor an array. -/
inductive Scalar where
  | number (n : Int)
  | bool (b : Bool)
  | string (s : List UInt8)
  deriving DecidableEq

def wordTrue : List UInt8 := [116, 114, 117, 101]
def wordFalse : List UInt8 := [102, 97, 108, 115, 101]

/-- What is behind a word, if the text starts with it. -/
def readWord (word s : List UInt8) : Option (List UInt8) :=
  if word.isPrefixOf s then some (s.drop word.length) else none

def readScalar (s : List UInt8) : Option (Scalar × List UInt8) :=
  match expect 34 s with
  | some s => (readChars s.length s).map fun (cs, s) => (.string cs, s)
  | none =>
      let s := s.dropWhile isBlank
      match readWord wordTrue s, readWord wordFalse s with
      | some s, _ => some (.bool true, s)
      | none, some s => some (.bool false, s)
      | none, none => (readNumber s).map fun (n, s) => (.number n, s)

/-- The characters of a string stand for themselves. -/
def IsVerbatim (s : List UInt8) : Prop := IsUtf8 s ∧ ∀ b ∈ s, isSpecial b = false

instance (s : List UInt8) : Decidable (IsVerbatim s) :=
  @instDecidableAnd _ _ inferInstance (List.decidableBAll _ _)

theorem IsVerbatim.append {s t : List UInt8} (hs : IsVerbatim s) (ht : IsVerbatim t) :
    IsVerbatim (s ++ t) :=
  ⟨hs.1.append ht.1, List.forall_mem_append.mpr ⟨hs.2, ht.2⟩⟩

/-- A string between quotation marks. -/
def quoted (s : List UInt8) : List UInt8 := 34 :: s ++ [34]

theorem write_bareSpelling (s : List UInt8) : bareSpelling.write s = quoted s := by
  rw [Spelling.write, bareSpelling, List.flatMap_singleton', quoted]

theorem readString_quoted {s : List UInt8} (h : IsVerbatim s) (t : List UInt8) :
    readString (quoted s ++ t) = some (s, t) := by
  rw [← write_bareSpelling]
  exact bareSpelling.readString_write (fun b hb => (isBare_bareSpelling b).trans (h.2 b hb)) t

namespace Scalar

def write : Scalar → List UInt8
  | .number n => decimal n
  | .bool true => wordTrue
  | .bool false => wordFalse
  | .string s => quoted s

/-- A string among the values needs no escape. -/
def NeedsNoEscape : Scalar → Prop
  | .string s => IsVerbatim s
  | _ => True

end Scalar

theorem readWord_append (word s : List UInt8) : readWord word (word ++ s) = some s := by
  rw [readWord, if_pos (List.isPrefixOf_iff_prefix.mpr (List.prefix_append word s)),
    List.drop_left]

theorem readWord_cons_of_ne {b c : UInt8} (h : b ≠ c) (word s : List UInt8) :
    readWord (b :: word) (c :: s) = none := by
  rw [readWord, List.isPrefixOf_cons_cons, beq_false_of_ne h, Bool.false_and]
  exact if_neg Bool.false_ne_true

/-- A number starts with a minus or a digit. -/
theorem decimal_cons (n : Int) : ∃ b t, decimal n = b :: t ∧ (b = 45 ∨ isDigit b = true) := by
  cases n with
  | ofNat n =>
      cases hds : digits n with
      | nil => exact absurd hds (digits_ne_nil n)
      | cons b t => exact ⟨b, t, hds, .inr (isDigit_of_mem_digits b (hds ▸ List.mem_cons_self))⟩
  | negSucc n => exact ⟨45, _, rfl, .inl rfl⟩

theorem ne_of_numeric {b : UInt8} (h : b = 45 ∨ isDigit b = true) :
    isBlank b = false ∧ b ≠ 34 ∧ (116 : UInt8) ≠ b ∧ (102 : UInt8) ≠ b := by
  have hrange : 45 ≤ b.toNat ∧ b.toNat ≤ 57 := by
    rcases h with rfl | h
    · decide
    · rw [isDigit, Bool.and_eq_true, decide_eq_true_eq, decide_eq_true_eq, UInt8.le_iff_toNat_le,
        UInt8.le_iff_toNat_le] at h
      simp only [UInt8.reduceToNat] at h
      omega
  have hne : ∀ c : UInt8, c.toNat < 45 ∨ 57 < c.toNat → b ≠ c := by
    rintro c hc rfl
    omega
  refine ⟨?_, hne 34 (by decide), (hne 116 (by decide)).symm, (hne 102 (by decide)).symm⟩
  simp only [isBlank, Bool.or_eq_false_iff, decide_eq_false_iff_not]
  exact ⟨⟨⟨hne 32 (by decide), hne 9 (by decide)⟩, hne 10 (by decide)⟩, hne 13 (by decide)⟩

/-- A scalar is read back where no digit follows. -/
theorem readScalar_write {v : Scalar} (h : v.NeedsNoEscape) {s : List UInt8} (hs : StopsDigits s) :
    readScalar (v.write ++ s) = some (v, s) := by
  cases v with
  | number n =>
      obtain ⟨b, t, heq, hb⟩ := decimal_cons n
      obtain ⟨hblank, hquote, htrue, hfalse⟩ := ne_of_numeric hb
      have hread := readNumber_decimal n hs
      rw [heq, List.cons_append] at hread
      rw [Scalar.write, heq, List.cons_append, readScalar, expect_cons_of_ne hblank hquote]
      simp only [List.dropWhile_cons_of_neg (Bool.eq_false_iff.mp hblank), wordTrue, wordFalse,
        readWord_cons_of_ne htrue, readWord_cons_of_ne hfalse, hread, Option.map_some]
  | bool b =>
      cases b with
      | true =>
          have hword := readWord_append wordTrue s
          rw [Scalar.write, readScalar, wordTrue, List.cons_append,
            expect_cons_of_ne (by decide) (by decide)]
          simp only [List.dropWhile_cons_of_neg (show ¬ isBlank 116 = true by decide)]
          rw [wordTrue, List.cons_append] at hword
          rw [hword]
      | false =>
          have hword := readWord_append wordFalse s
          rw [Scalar.write, readScalar, wordFalse, List.cons_append,
            expect_cons_of_ne (by decide) (by decide)]
          simp only [List.dropWhile_cons_of_neg (show ¬ isBlank 102 = true by decide)]
          rw [wordFalse, List.cons_append] at hword
          rw [hword, wordTrue, readWord_cons_of_ne (by decide)]
  | string cs =>
      have hread := readString_quoted h s
      rw [Scalar.write, readScalar, quoted, List.cons_append, List.cons_append,
        expect_cons (by decide)]
      rw [readString, quoted, List.cons_append, List.cons_append, expect_cons (by decide),
        Option.bind_some] at hread
      simp only [hread, Option.map_some]

/-! ## Sections -/

/-- A named scalar. -/
abbrev Entry := List UInt8 × Scalar

/-- A named object of scalars. -/
abbrev Section := List UInt8 × List Entry

def readEntry (s : List UInt8) : Option (Entry × List UInt8) :=
  (readString s).bind fun (key, s) => (expect 58 s).bind fun s =>
    (readScalar s).map fun (value, s) => ((key, value), s)

def readSection (s : List UInt8) : Option (Section × List UInt8) :=
  (readString s).bind fun (name, s) => (expect 58 s).bind fun s =>
    (readSequence readEntry 123 125 s).map fun (entries, s) => ((name, entries), s)

def writeEntry (entry : Entry) : List UInt8 := quoted entry.1 ++ 58 :: entry.2.write

def writeSection (sec : Section) : List UInt8 :=
  quoted sec.1 ++ 58 :: writeSequence 123 125 (sec.2.map writeEntry)

def Entry.NeedsNoEscape (entry : Entry) : Prop := IsVerbatim entry.1 ∧ entry.2.NeedsNoEscape

def Section.NeedsNoEscape (sec : Section) : Prop :=
  IsVerbatim sec.1 ∧ ∀ entry ∈ sec.2, Entry.NeedsNoEscape entry

theorem expect_quoted {close : UInt8} (hne : (34 : UInt8) ≠ close) (s t : List UInt8) :
    expect close (quoted s ++ t) = none :=
  expect_cons_of_ne (by decide) hne _

theorem readsBack_writeEntry {entry : Entry} (h : Entry.NeedsNoEscape entry) :
    ReadsBack readEntry writeEntry 125 entry := by
  intro b s hb
  have hstops : StopsDigits (b :: s) := by
    intro c hc
    cases hc
    rcases hb with rfl | rfl <;> decide
  rw [readEntry, writeEntry, List.append_assoc, readString_quoted h.1]
  simp only [Option.bind_some, List.cons_append]
  rw [expect_cons (by decide), Option.bind_some, readScalar_write h.2 hstops]
  rfl

theorem readsBack_writeSection {sec : Section} (h : Section.NeedsNoEscape sec) :
    ReadsBack readSection writeSection 125 sec := by
  intro b s _
  have hentries : readSequence readEntry 123 125
      (writeSequence 123 125 (sec.2.map writeEntry) ++ b :: s) = some (sec.2, b :: s) := by
    apply readSequence_writeSequence (fun entry hentry => readsBack_writeEntry (h.2 entry hentry))
    · intro entry s
      rw [writeEntry, List.append_assoc]
      exact expect_quoted (by decide) _ _
    all_goals decide
  rw [readSection, writeSection, List.append_assoc, readString_quoted h.1]
  simp only [Option.bind_some, List.cons_append]
  rw [expect_cons (by decide), Option.bind_some, hentries]
  rfl

/-- There is no section where the object is not opened. -/
theorem readSection_eq_none {name : List UInt8} (h : IsVerbatim name) (s : List UInt8) :
    readSection (quoted name ++ 58 :: 125 :: s) = none := by
  rw [readSection, readString_quoted h]
  simp only [Option.bind_some]
  rw [expect_cons (by decide), Option.bind_some, readSequence,
    expect_cons_of_ne (by decide) (by decide)]
  rfl

/-! ## Their texts are UTF-8 -/

theorem isUtf8_of_forall_lt {s : List UInt8} (h : ∀ b ∈ s, b < 0x80) : IsUtf8 s := by
  induction s with
  | nil => exact isUtf8_nil
  | cons b s ih =>
      exact (isUtf8_cons (h b List.mem_cons_self)).mpr
        (ih fun c hc => h c (List.mem_cons_of_mem _ hc))

theorem isUtf8_quoted {s : List UInt8} (h : IsUtf8 s) : IsUtf8 (quoted s) := by
  rw [quoted, List.cons_append, isUtf8_cons (by decide)]
  exact h.append (isUtf8_of_forall_lt (List.forall_mem_singleton.mpr (by decide)))

theorem isUtf8_digits (n : Nat) : IsUtf8 (digits n) := by
  apply isUtf8_of_forall_lt
  intro b hb
  have hdigit := isDigit_of_mem_digits b hb
  rw [isDigit, Bool.and_eq_true, decide_eq_true_eq, decide_eq_true_eq] at hdigit
  exact UInt8.lt_of_le_of_lt hdigit.2 (by decide)

theorem isUtf8_decimal (n : Int) : IsUtf8 (decimal n) := by
  cases n with
  | ofNat n => exact isUtf8_digits n
  | negSucc n => exact (isUtf8_cons (by decide)).mpr (isUtf8_digits _)

theorem isSpecial_of_isDigit {b : UInt8} (h : isDigit b = true) : isSpecial b = false := by
  rw [isDigit, Bool.and_eq_true, decide_eq_true_eq, decide_eq_true_eq, UInt8.le_iff_toNat_le,
    UInt8.le_iff_toNat_le] at h
  simp only [UInt8.reduceToNat] at h
  have hne : ∀ c : UInt8, c.toNat < 48 ∨ 57 < c.toNat → b ≠ c := by
    rintro c hc rfl
    omega
  simp only [isSpecial, Bool.or_eq_false_iff, decide_eq_false_iff_not, UInt8.lt_iff_toNat_lt,
    UInt8.reduceToNat]
  exact ⟨⟨hne 34 (by decide), hne 92 (by decide)⟩, by omega⟩

theorem isVerbatim_decimal (n : Int) : IsVerbatim (decimal n) := by
  refine ⟨isUtf8_decimal n, ?_⟩
  have hdigits : ∀ n, ∀ b ∈ digits n, isSpecial b = false :=
    fun n b hb => isSpecial_of_isDigit (isDigit_of_mem_digits b hb)
  cases n with
  | ofNat n => exact hdigits n
  | negSucc n => exact List.forall_mem_cons.mpr ⟨by decide, hdigits (n + 1)⟩

theorem Scalar.isUtf8_write {v : Scalar} (h : v.NeedsNoEscape) : IsUtf8 v.write := by
  cases v with
  | number n => exact isUtf8_decimal n
  | bool b => cases b <;> decide
  | string s => exact isUtf8_quoted h.1

theorem isUtf8_writeSection {sec : Section} (h : Section.NeedsNoEscape sec) :
    IsUtf8 (writeSection sec) := by
  apply (isUtf8_quoted h.1.1).append
  rw [isUtf8_cons (by decide), isUtf8_writeSequence (by decide) (by decide), List.forall_mem_map]
  intro entry hentry
  apply (isUtf8_quoted (h.2 entry hentry).1.1).append
  exact (isUtf8_cons (by decide)).mpr (Scalar.isUtf8_write (h.2 entry hentry).2)

end Text
