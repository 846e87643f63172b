import MqttClient.Measurement.Strings
import MqttClient.Text.JsonRecords
import MqttClient.Shadow.Jsmn

/-! # The published results

The rows of a result table leave the application as one JSON text. Their values
are escaped by replacing five control characters one after the other; names are
not escaped at all.
-/

namespace MqttClient.Measurement

open Text Shadow

/-- A `map<string, string>`: the columns in the order of their names. -/
structure Row where
  columns : List Member
  sorted : columns.Pairwise fun a b => a.1 < b.1

/-- The columns that `mapToJSON` filters out. -/
def isTableId (name : List UInt8) : Bool :=
  name = ascii "binaryRun_id" || name = ascii "jobRun_id" || name = ascii "result_id" ||
    name = ascii "BinaryRun_timestamp_id" || name = ascii "JobRun_timestamp_id" ||
    name = ascii "binary_id" || name = ascii "groupJob_id" || name = ascii "job_id" ||
    name = ascii "unit"

/-- The five replacements on a value. -/
def escapeValue (value : List UInt8) : List UInt8 :=
  let value := stringReplace value [10] (ascii "\\n")
  let value := stringReplace value [13] (ascii "\\r")
  let value := stringReplace value [8] (ascii "\\b")
  let value := stringReplace value [9] (ascii "\\t")
  stringReplace value [12] (ascii "\\f")

/-- The loop of `mapToJSON`: what it appends from here on. -/
def appendColumns : Bool → List Member → List UInt8
  | _, [] => []
  | first, (name, value) :: columns =>
      if isTableId name then appendColumns first columns
      else (if first then [] else ascii ",") ++
        (ascii "\"" ++ name ++ ascii "\":") ++
        (ascii "\"" ++ escapeValue value ++ ascii "\"") ++ appendColumns false columns

def mapToJSON (myMap : Row) : List UInt8 :=
  ascii "\x7b" ++ appendColumns true myMap.columns ++ ascii "\x7d"

/-- The loop of `runCommand` over the rows. -/
def appendRows : Bool → List Row → List UInt8
  | _, [] => []
  | firstResult, row :: rows =>
      (if firstResult then [] else ascii ",") ++ mapToJSON row ++ appendRows false rows

def resultJSON (rows : List Row) : List UInt8 := ascii "[" ++ appendRows true rows ++ ascii "]"

/-- What `runCommand` publishes: the C string that it prints into `cPayload`, if it
fits. -/
def publishedResults (rows : List Row) : Option (List UInt8) :=
  sprintfString 131000 (resultJSON rows)

/-- A row without the filtered columns. -/
def Row.kept (row : Row) : List Member := row.columns.filter fun column => !isTableId column.1

/-- A text is published and denotes the rows without the filtered columns. -/
def IsRecovered (rows : List Row) : Prop :=
  (publishedResults rows).bind readRecords = some (rows.map Row.kept)

instance (rows : List Row) : Decidable (IsRecovered rows) := inferInstanceAs (Decidable (_ = _))

/-! ## The text as records -/

/-- What the five replacements make of a character. -/
def escapeChar (c : UInt8) : List UInt8 :=
  if c = 10 then [92, 110] else if c = 13 then [92, 114] else if c = 8 then [92, 98]
  else if c = 9 then [92, 116] else if c = 12 then [92, 102] else [c]

/-- No replacement touches what another one has put in. -/
theorem escapeValue_eq_flatMap (value : List UInt8) :
    escapeValue value = value.flatMap escapeChar := by
  simp only [escapeValue, stringReplace_singleton, List.flatMap_assoc]
  congr 1
  funext c
  rw [escapeChar]
  split_ifs with h1 h2 h3 h4 h5
  all_goals first | (subst c; rfl) | simp [*]

/-- Names are written as they are, values in this way. -/
def valueSpelling : Spelling where
  spell := escapeChar
  sound b := by
    rw [escapeChar]
    split_ifs with h1 h2 h3 h4 h5
    case neg => exact .inl rfl
    all_goals
      subst b
      exact .inr ⟨rfl, _, rfl, rfl⟩

/-- The special characters of values that the replacements leave out. -/
theorem isBare_valueSpelling {b : UInt8} :
    valueSpelling.isBare b = false ↔ (isSpecial b = true → b ∈ [10, 13, 8, 9, 12]) := by
  rw [Spelling.isBare, Bool.and_eq_false_imp]
  refine imp_congr_right fun _ => ?_
  rw [valueSpelling]
  simp only [escapeChar, List.mem_cons, List.not_mem_nil, or_false]
  split_ifs with h1 h2 h3 h4 h5
  all_goals simp [*]

theorem appendColumns_eq (columns : List Member) :
    appendColumns false columns =
        (((columns.filter fun column => !isTableId column.1).map
          (writeMember bareSpelling valueSpelling)).flatMap fun text => 44 :: text) ∧
      appendColumns true columns =
        commaList ((columns.filter fun column => !isTableId column.1).map
          (writeMember bareSpelling valueSpelling)) := by
  induction columns with
  | nil => exact ⟨rfl, rfl⟩
  | cons column columns ih =>
      obtain ⟨name, value⟩ := column
      rw [appendColumns, appendColumns]
      by_cases h : isTableId name
      · rw [if_pos h, if_pos h, List.filter_cons_of_neg (by simp [h])]
        exact ih
      · have hmember : ascii "\"" ++ name ++ ascii "\":" ++
            (ascii "\"" ++ escapeValue value ++ ascii "\"") =
              writeMember bareSpelling valueSpelling (name, value) := by
          rw [escapeValue_eq_flatMap]
          simp [writeMember, Spelling.write, bareSpelling, valueSpelling, ascii]
        rw [if_neg h, if_neg h, List.filter_cons_of_pos (by simp [h]), List.map_cons,
          List.flatMap_cons, commaList, ← ih.1, ← hmember]
        constructor
        · simp [ascii]
        · simp

theorem mapToJSON_eq (row : Row) :
    mapToJSON row =
      writeSequence 123 125 (row.kept.map (writeMember bareSpelling valueSpelling)) := by
  rw [mapToJSON, (appendColumns_eq row.columns).2]
  rfl

theorem appendRows_eq (rows : List Row) :
    appendRows false rows = ((rows.map mapToJSON).flatMap fun text => 44 :: text) ∧
      appendRows true rows = commaList (rows.map mapToJSON) := by
  induction rows with
  | nil => exact ⟨rfl, rfl⟩
  | cons row rows ih =>
      rw [appendRows, appendRows, List.map_cons, List.flatMap_cons, commaList, ← ih.1]
      exact ⟨rfl, rfl⟩

theorem resultJSON_eq (rows : List Row) :
    resultJSON rows = writeRecords bareSpelling valueSpelling (rows.map Row.kept) := by
  rw [resultJSON, (appendRows_eq rows).2, writeRecords, List.map_map]
  have hrow : (rows.map mapToJSON) = rows.map ((fun record => writeSequence 123 125
      (record.map (writeMember bareSpelling valueSpelling))) ∘ Row.kept) :=
    List.map_congr_left fun row _ => mapToJSON_eq row
  rw [hrow]
  rfl

/-! ## Recovery -/

/-- A column whose name needs no escape and whose value needs only those that there are. -/
structure IsPlain (column : Member) : Prop where
  utf8Name : IsUtf8 column.1
  utf8Value : IsUtf8 column.2
  name : ∀ b ∈ column.1, isSpecial b = false
  value : ∀ b ∈ column.2, isSpecial b = true → b ∈ [10, 13, 8, 9, 12]

theorem isPlain_iff {column : Member} :
    IsPlain column ↔ bareSpelling.Writes column.1 ∧ valueSpelling.Writes column.2 := by
  simp only [Spelling.Writes, isBare_bareSpelling, isBare_valueSpelling]
  constructor
  · intro h
    exact ⟨⟨h.utf8Name, h.name⟩, ⟨h.utf8Value, h.value⟩⟩
  · rintro ⟨⟨h1, h2⟩, ⟨h3, h4⟩⟩
    exact ⟨h1, h3, h2, h4⟩

/-- The published text recovers the rows just when their columns are plain and the
text fits into the buffer. -/
theorem isRecovered_iff (rows : List Row) :
    IsRecovered rows ↔
      (∀ row ∈ rows, ∀ column ∈ row.kept, IsPlain column) ∧
        recordsSize (rows.map Row.kept) < 131000 := by
  have hlen := length_writeRecords bareSpelling valueSpelling (rows.map Row.kept)
  have hplain : (∀ row ∈ rows, ∀ column ∈ row.kept, IsPlain column) ↔
      readRecords (resultJSON rows) = some (rows.map Row.kept) := by
    rw [resultJSON_eq, readRecords_writeRecords_iff]
    simp only [List.forall_mem_map, isPlain_iff]
  rw [hplain, IsRecovered, Option.bind_eq_some_iff]
  constructor
  · rintro ⟨text, htext, hread⟩
    rw [publishedResults, sprintfString] at htext
    split_ifs at htext with hfits
    cases htext
    have hsize := size_of_readRecords hread
    -- a text cut off at a terminator would be shorter than the records' size
    have hwhole : cString (resultJSON rows) = resultJSON rows :=
      (cString_isPrefix _).eq_of_length_le (by rw [resultJSON_eq] at hsize ⊢; omega)
    rw [hwhole] at hread
    exact ⟨hread, hsize.trans_lt hfits⟩
  · rintro ⟨hread, hsize⟩
    have hbare := readRecords_writeRecords_iff bareSpelling valueSpelling |>.mp
      (resultJSON_eq rows ▸ hread)
    have hwhole : cString (resultJSON rows) = resultJSON rows := by
      rw [resultJSON_eq]
      apply cString_of_forall
      apply ne_zero_of_mem_writeRecords
      intro record hrecord member hmember
      exact ⟨(hbare record hrecord member hmember).1.2, (hbare record hrecord member hmember).2.2⟩
    refine ⟨resultJSON rows, ?_, hread⟩
    rw [publishedResults, sprintfString, hwhole, if_pos]
    rw [resultJSON_eq]
    omega

/-- A row with a measured value and a remark of two lines. -/
def speedRow : Row where
  columns :=
    [(ascii "job_id", ascii "7"), (ascii "note", ascii "a\nb"), (ascii "value", ascii "42")]
  sorted := by decide

example : IsRecovered [speedRow, speedRow] := by decide

/-- A row with a quotation mark in a value. -/
def quotedRow : Row where
  columns := [(ascii "note", ascii "5\"")]
  sorted := by decide

theorem not_isRecovered_quotedRow : ¬ IsRecovered [quotedRow] := by decide

end MqttClient.Measurement
