import MqttClient.Shadow.Builder
import MqttClient.Shadow.Recognition
import MqttClient.Shadow.Members

/-! # What is built can be read

A document that the builder has printed is the text of a tree, the tokenizer lists the
tree's nodes, and the lookup of a key comes upon the first string that equals it, be that
a key or not. Where it is the member's own key, the value that the member was built from is
what the lookup stores.
-/

open Text

namespace MqttClient.Shadow

/-! ## The tree of a document -/

/-- The members of an object, one after the other. -/
def membersOf : List (List UInt8 × JsonValue) → JsonMembers
  | [] => .nil
  | (key, value) :: rest => .cons key value (membersOf rest)

def scalarValue : Scalar → JsonValue
  | .number n => .primitive (decimal n)
  | .bool true => .primitive wordTrue
  | .bool false => .primitive wordFalse
  | .string s => .string s

def entriesValue (entries : List Entry) : JsonValue :=
  .object (membersOf (entries.map fun entry => (entry.1, scalarValue entry.2)))

def sectionsValue (sections : List Section) : JsonValue :=
  .object (membersOf (sections.map fun sec => (sec.1, entriesValue sec.2)))

/-- A document with these sections and this token. -/
def documentMembers (sections : List Section) (token : List UInt8) : JsonMembers :=
  membersOf [(ascii "state", sectionsValue sections), (shadowClientTokenString, .string token)]

section Spelling

/-- Members that are written in turn, with commas between them, spell the object. -/
theorem spells_membersOf {α : Type} {items : List α} {key text : α → List UInt8}
    {value : α → JsonValue}
    (h : ∀ a ∈ items, IsStringText (key a) ∧ (value a).Spells (text a)) :
    (membersOf (items.map fun a => (key a, value a))).Spells
      (commaList (items.map fun a => quoted (key a) ++ 58 :: text a)) := by
  induction items with
  | nil => exact spells_nil
  | cons a items ih =>
      obtain ⟨⟨hkey, hvalue⟩, hitems⟩ := List.forall_mem_cons.mp h
      have hrest := ih hitems
      have hspells := spells_cons [] nofun hkey hvalue hrest
      cases items with
      | nil => simpa [membersOf, JsonMembers.comma, commaList] using hspells
      | cons b items => simpa [membersOf, JsonMembers.comma, commaList] using hspells

/-- A text without special characters may stand in a string. -/
theorem isStringText_of_verbatim {s : List UInt8} (h : IsVerbatim s) : IsStringText s :=
  isStringText_of_isVerbatim h.2

/-- A digit or a minus. -/
theorem printable_of_numeric {c : UInt8} (h : c = 45 ∨ isDigit c = true) :
    isPrimitiveEnd c = false ∧ 32 ≤ c ∧ c < 127 := by
  rcases h with rfl | h
  · decide
  · simp only [isDigit, Bool.and_eq_true, decide_eq_true_eq, UInt8.le_iff_toNat_le,
      UInt8.reduceToNat] at h
    refine ⟨?_, UInt8.le_iff_toNat_le.mpr ?_, UInt8.lt_iff_toNat_lt.mpr ?_⟩
    · have hne : ∀ d : UInt8, d.toNat < 48 ∨ 57 < d.toNat → c ≠ d := by
        rintro d hd rfl
        omega
      simp only [isPrimitiveEnd, Bool.or_eq_false_iff, decide_eq_false_iff_not]
      exact ⟨⟨⟨⟨⟨⟨⟨hne 58 (by decide), hne 9 (by decide)⟩, hne 13 (by decide)⟩, hne 10 (by decide)⟩,
        hne 32 (by decide)⟩, hne 44 (by decide)⟩, hne 93 (by decide)⟩, hne 125 (by decide)⟩
    · simp only [UInt8.reduceToNat]
      omega
    · simp only [UInt8.reduceToNat]
      omega

/-- A decimal consists of digits and perhaps a minus sign. -/
theorem numeric_of_mem_decimal {n : Int} {c : UInt8} (h : c ∈ decimal n) :
    c = 45 ∨ isDigit c = true := by
  cases n with
  | ofNat n => exact .inr (isDigit_of_mem_digits c h)
  | negSucc n =>
      rcases List.mem_cons.mp h with rfl | hmem
      · exact .inl rfl
      · exact .inr (isDigit_of_mem_digits c hmem)

/-- So it can be read as a primitive. -/
theorem isPrimitiveText_decimal (n : Int) : IsPrimitiveText (decimal n) := by
  obtain ⟨c, t, heq, hc⟩ := decimal_cons n
  refine ⟨?_, ?_, ?_⟩
  · rw [heq]
    exact List.cons_ne_nil c t
  · exact scanPrimitive_of_printable fun c hmem =>
      printable_of_numeric (numeric_of_mem_decimal hmem)
  · intro d hd
    rw [heq] at hd
    cases hd
    rcases hc with rfl | hc
    · decide
    · refine ⟨?_, ?_, (ne_of_numeric (.inr hc)).2.1⟩ <;> rintro rfl <;> cases hc

/-- What is written for a value spells it. -/
theorem spells_scalarValue {v : Scalar} (h : v.NeedsNoEscape) : (scalarValue v).Spells v.write := by
  cases v with
  | number n => exact spells_primitive (isPrimitiveText_decimal n)
  | bool b =>
      cases b with
      | true =>
          refine spells_primitive ⟨List.cons_ne_nil _ _, rfl, fun c hc => ?_⟩
          cases hc
          decide
      | false =>
          refine spells_primitive ⟨List.cons_ne_nil _ _, rfl, fun c hc => ?_⟩
          cases hc
          decide
  | string s => exact spells_string (isStringText_of_verbatim h)

/-- So does what is written for a section. -/
theorem spells_entriesValue {entries : List Entry} (h : ∀ e ∈ entries, Entry.NeedsNoEscape e) :
    (entriesValue entries).Spells (writeSequence 123 125 (entries.map writeEntry)) := by
  apply spells_object
  apply spells_membersOf
  intro e he
  exact ⟨isStringText_of_verbatim (h e he).1, spells_scalarValue (h e he).2⟩

/-- So does what is written for all sections. -/
theorem spells_sectionsValue {sections : List Section}
    (h : ∀ sec ∈ sections, Section.NeedsNoEscape sec) :
    (sectionsValue sections).Spells (writeSequence 123 125 (sections.map writeSection)) := by
  apply spells_object
  apply spells_membersOf
  intro sec hsec
  exact ⟨isStringText_of_verbatim (h sec hsec).1, spells_entriesValue (h sec hsec).2⟩

/-- The text of a built document is one of its tree. -/
theorem isDocument_builtText {calls : List AddCall} {token : List UInt8}
    (hsimple : ∀ call ∈ calls, ∀ field ∈ call.fields, field.IsSimple) (hne : calls ≠ [])
    (hfields : ∀ call ∈ calls, call.fields ≠ []) (htoken : IsVerbatim token) :
    (documentMembers (calls.map AddCall.intended) token).IsDocument (builtText calls token) := by
  have hsections : (sectionsValue (calls.map AddCall.intended)).Spells
      (123 :: (commaList (calls.map AddCall.text) ++ [125])) := by
    rw [map_text_eq hsimple hfields]
    apply spells_sectionsValue
    rw [List.forall_mem_map]
    exact fun call hcall => AddCall.needsNoEscape_intended (hsimple call hcall)
  have hblank : IsBlanks [32] := List.forall_mem_singleton.mpr rfl
  have htokens : (JsonMembers.cons shadowClientTokenString (.string token) .nil).Spells
      ([32] ++ (quoted shadowClientTokenString ++ ([58] ++ (quoted token ++ ([] ++ []))))) :=
    spells_cons [32] hblank rfl (spells_string (isStringText_of_verbatim htoken)) spells_nil
  have hstate : IsStringText (ascii "state") := rfl
  have hmembers := spells_cons [] nofun hstate hsections htokens
  apply JsonMembers.isDocument_of_spells hmembers
  rw [builtText_of_ne_nil hne, closing]
  simp only [quoted, List.append_assoc, List.cons_append, List.nil_append, List.append_nil,
    JsonMembers.comma]
  rfl

end Spelling

/-! ## Its nodes -/

def scalarStrings : Scalar → List (List UInt8)
  | .string s => [s]
  | _ => []

/-- The strings of a document as they follow each other: the names, the keys, and the
strings among the values. -/
def entryStrings (entry : Entry) : List (List UInt8) := entry.1 :: scalarStrings entry.2

def sectionStrings (sec : Section) : List (List UInt8) := sec.1 :: sec.2.flatMap entryStrings

def documentStrings (sections : List Section) (token : List UInt8) : List (List UInt8) :=
  ascii "state" :: (sections.flatMap sectionStrings ++ [shadowClientTokenString, token])

def entryNodes (entry : Entry) : List JsonNode :=
  [.string entry.1, (scalarValue entry.2).node]

def sectionNodes (sec : Section) : List JsonNode :=
  .string sec.1 :: .object :: sec.2.flatMap entryNodes

def documentNodes (sections : List Section) (token : List UInt8) : List JsonNode :=
  .object :: .string (ascii "state") :: .object ::
    (sections.flatMap sectionNodes ++ [.string shadowClientTokenString, .string token])

section Nodes

/-- The nodes of an object's members, in order: each name and the nodes of its value. -/
theorem nodes_membersOf (items : List (List UInt8 × JsonValue)) :
    (membersOf items).nodes = items.flatMap fun item => .string item.1 :: item.2.nodes := by
  induction items with
  | nil => rw [membersOf, JsonMembers.nodes, List.flatMap_nil]
  | cons item items ih =>
      obtain ⟨key, value⟩ := item
      rw [membersOf, JsonMembers.nodes, ih, List.flatMap_cons, List.cons_append]

theorem nodes_scalarValue (v : Scalar) : (scalarValue v).nodes = [(scalarValue v).node] := by
  rcases v with n | (_ | _) | s <;> rw [scalarValue, JsonValue.nodes, JsonValue.node]

theorem nodes_entriesValue (entries : List Entry) :
    (entriesValue entries).nodes = .object :: entries.flatMap entryNodes := by
  rw [entriesValue, JsonValue.nodes, nodes_membersOf, List.flatMap_map]
  simp only [nodes_scalarValue]
  rfl

theorem nodes_sectionsValue (sections : List Section) :
    (sectionsValue sections).nodes = .object :: sections.flatMap sectionNodes := by
  rw [sectionsValue, JsonValue.nodes, nodes_membersOf, List.flatMap_map]
  simp only [nodes_entriesValue]
  rfl

theorem nodes_documentMembers (sections : List Section) (token : List UInt8) :
    (JsonValue.object (documentMembers sections token)).nodes = documentNodes sections token := by
  rw [JsonValue.nodes, documentMembers, nodes_membersOf]
  simp only [List.flatMap_cons, List.flatMap_nil, nodes_sectionsValue, JsonValue.nodes,
    List.append_nil]
  rfl

variable {key : List UInt8}

/-- A string among the nodes of an entry is its key or its value. -/
theorem mem_entryNodes {entry : Entry} (h : .string key ∈ entryNodes entry) :
    key ∈ entryStrings entry := by
  obtain ⟨name, value⟩ := entry
  rcases value with n | (_ | _) | s <;>
    simpa [entryNodes, entryStrings, scalarStrings, scalarValue, JsonValue.node] using h

theorem mem_entries {entries : List Entry} (h : .string key ∈ entries.flatMap entryNodes) :
    key ∈ entries.flatMap entryStrings := by
  obtain ⟨entry, hentry, hkey⟩ := List.mem_flatMap.mp h
  exact List.mem_flatMap.mpr ⟨entry, hentry, mem_entryNodes hkey⟩

theorem mem_sections {sections : List Section} (h : .string key ∈ sections.flatMap sectionNodes) :
    key ∈ sections.flatMap sectionStrings := by
  obtain ⟨sec, hsec, hkey⟩ := List.mem_flatMap.mp h
  refine List.mem_flatMap.mpr ⟨sec, hsec, ?_⟩
  simp only [sectionNodes, List.mem_cons, JsonNode.string.injEq, reduceCtorEq, false_or] at hkey
  rcases hkey with rfl | hkey
  · exact List.mem_cons_self
  · exact List.mem_cons_of_mem _ (mem_entries hkey)

/-- The strings among the nodes of a document are those that were put into it. -/
theorem mem_documentNodes {sections : List Section} {token : List UInt8}
    (h : .string key ∈ documentNodes sections token) : key ∈ documentStrings sections token := by
  simp only [documentNodes, List.mem_cons, List.mem_append, JsonNode.string.injEq, reduceCtorEq,
    false_or, List.not_mem_nil, or_false] at h
  simp only [documentStrings, List.mem_cons, List.mem_append, List.not_mem_nil, or_false]
  rcases h with h | h | h
  · exact .inl h
  · exact .inr (.inl (mem_sections h))
  · exact .inr (.inr h)

end Nodes

/-! ## Looking a key up -/

section Keys

variable {json : Document} {tokens : JsonTokens} {s key : List UInt8} {nodes : List JsonNode}
  {type : JsonPrimitiveType}

/-- The first token for which the search has a result. -/
theorem findToken_eq_some {α : Type} {tokenCount i : Nat} {f : Nat → Option α} {a : α}
    (hpos : 1 ≤ i) (hlt : i < tokenCount) (hbefore : ∀ j, 1 ≤ j → j < i → f j = none)
    (hi : f i = some a) : findToken tokenCount f = some a := by
  have hsplit : List.range' 1 (tokenCount - 1) =
      List.range' 1 (i - 1) ++ i :: List.range' (i + 1) (tokenCount - 1 - i) := by
    have hlength : tokenCount - 1 = (i - 1) + ((tokenCount - 1 - i) + 1) := by omega
    have hstart : 1 + 1 * (i - 1) = i := by omega
    rw [hlength, ← List.range'_append, List.range'_succ, hstart]
    congr 3
    omega
  have hnone : (List.range' 1 (i - 1)).findSome? f = none := by
    rw [List.findSome?_eq_none_iff]
    intro j hj
    have hrange := List.mem_range'_1.mp hj
    exact hbefore j hrange.1 (by omega)
  rw [findToken, hsplit, List.findSome?_append, hnone, Option.none_or, List.findSome?_cons, hi]

/-- The lookup of a key comes upon the first string that equals it. -/
theorem keyIndex_eq_some (hdoc : json.Holds s) (hzero : 0 ∉ key)
    (hmarks : TokensMark s nodes tokens) {front rest : List JsonNode}
    (hnodes : nodes = front ++ .string key :: rest) (hne : front ≠ [])
    (hfront : .string key ∉ front) :
    keyIndex json tokens nodes.length key = some front.length := by
  have hlength : front.length < nodes.length := by
    rw [hnodes, List.length_append, List.length_cons]
    omega
  apply findToken_eq_some (List.length_pos_of_ne_nil hne) hlength
  · intro j _ hj
    have hnode : nodes[j]? = some front[j] := by
      rw [hnodes, List.getElem?_append_left hj, List.getElem?_eq_getElem hj]
    rw [jsoneq_of_marks hdoc (hmarks j _ hnode) hzero, decide_eq_false]
    · rfl
    · intro heq
      exact hfront (heq ▸ List.getElem_mem hj)
  · have hnode : nodes[front.length]? = some (.string key) := by
      rw [hnodes, List.getElem?_append_right le_rfl, Nat.sub_self, List.getElem?_cons_zero]
    rw [jsoneq_of_marks hdoc (hmarks _ _ hnode) hzero, decide_eq_true rfl]
    rfl

/-- A key that is no string of the document is not found. -/
theorem keyIndex_eq_none (hdoc : json.Holds s) (hzero : 0 ∉ key)
    (hmarks : TokensMark s nodes tokens) (hkey : .string key ∉ nodes) :
    keyIndex json tokens nodes.length key = none := by
  rw [keyIndex, findToken, List.findSome?_eq_none_iff]
  intro j hj
  have hrange := List.mem_range'_1.mp hj
  have hlt : j < nodes.length := by omega
  have hnode : nodes[j]? = some nodes[j] := List.getElem?_eq_getElem hlt
  rw [jsoneq_of_marks hdoc (hmarks j _ hnode) hzero, decide_eq_false]
  · rfl
  · intro heq
    exact hkey (heq ▸ List.getElem_mem hlt)

end Keys

/-! ## Converting a value -/

/-- The characters of a scalar between the quotation marks, if it has any. -/
def scalarChars : Scalar → List UInt8
  | .number n => decimal n
  | .bool true => wordTrue
  | .bool false => wordFalse
  | .string s => s

/-- A string whose length 16 bits can count. -/
def IsShort (v : Scalar) : Prop := ∀ s, v = .string s → s.length < 2 ^ 16

section Values

variable {json : Document} {s : List UInt8} {tok : JsmnTok}

/-- A decimal is the literal of its number. -/
theorem integerLiteral_decimal (n : Int) : integerLiteral (decimal n) = some n := by
  have hread : readNumber (decimal n ++ []) = some (n, []) := readNumber_decimal n nofun
  rw [List.append_nil] at hread
  unfold integerLiteral
  rw [hread]

/-- A number is converted back, where the type holds it. -/
theorem parse_decimal (type : IntegerType) {n : Int} (hdoc : json.Holds s)
    (hmarks : (JsonNode.primitive (decimal n)).Marks s tok) (hn : type.Holds n) :
    type.parse json tok = .ok n := by
  have hprimitive := isPrimitive_of_marks hdoc hmarks
  have hblank := notBlank_of_isPrimitive hprimitive
  have hliteral := integerLiteral_decimal n
  have hstarts : type.starts (decimal n) = true := by
    rcases IntegerType.starts_of_literal hblank hliteral hn with hstarts | ⟨htext, -⟩
    · exact hstarts
    · -- no number is written as a zero with a minus
      rw [htext] at hliteral
      obtain rfl : (0 : Int) = n := Option.some.inj hliteral
      cases htext
  rw [IntegerType.parse_eq hprimitive, IntegerType.scan_of_literal hblank hliteral hn hstarts]
  exact congrArg Except.ok (IntegerType.store_of_holds hn)

theorem toOption_of_map {α : Type} {f : α → Int} (hf : Function.Injective f)
    {r : Except IotError α} {a : α} (h : r.map f = .ok (f a)) : r.toOption = some a := by
  cases r with
  | error rc => cases h
  | ok b => exact congrArg some (hf (Except.ok.inj h))

/-- A boolean is read as it was written. -/
theorem parseBooleanValue_of_marks {b : Bool} (hdoc : json.Holds s)
    (hmarks : (scalarValue (.bool b)).node.Marks s tok) : parseBooleanValue json tok = .ok b := by
  have hload {word : List UInt8} {n : Nat} (hword : (JsonNode.primitive word).Marks s tok)
      (hn : n ≤ word.length) : json.bytes.load tok.start n = word.take n := by
    obtain ⟨-, -, -, rest, hdrop, -⟩ := hword
    have hlength := congrArg List.length hdrop
    rw [List.length_drop, List.length_append] at hlength
    by_cases hstart : tok.start ≤ s.length
    · rw [hdoc.load_eq_take (by omega), hdrop, List.take_append_of_le_length hn]
    · have hzero : n = 0 := by omega
      rw [hzero, List.take_zero]
      rfl
  unfold parseBooleanValue
  rw [if_neg (by cases b <;> exact not_not.mpr hmarks.1)]
  cases b with
  | true =>
      rw [hload (n := 4) hmarks (by decide), if_pos (by decide)]
  | false =>
      rw [hload (n := 4) hmarks (by decide), hload (n := 5) hmarks (by decide), if_neg (by decide),
        if_pos (by decide)]

/-- So is a string that is short enough for the length's type. -/
theorem parseStringValue_of_marks {chars : List UInt8} (hdoc : json.Holds s)
    (hmarks : (JsonNode.string chars).Marks s tok) (hshort : chars.length < 2 ^ 16) :
    parseStringValue json tok = .ok chars := by
  obtain ⟨htype, hstop, rest, hdrop⟩ := hmarks
  have hlength := congrArg List.length hdrop
  rw [List.length_drop, List.length_append, List.length_cons] at hlength
  have hsize : ((tok.stop - tok.start) % 65536).toNat = chars.length := by omega
  unfold parseStringValue
  rw [if_neg (not_not.mpr htype), hsize, hdoc.load_eq_take (by omega), hdrop, List.take_left]

/-- What was printed of a variable is converted back to it. -/
theorem updateValue_of_marks {type : JsonPrimitiveType} {data : type.Data} {v : Scalar}
    (hdoc : json.Holds s) (hscalar : scalarOf type data = some v) (hshort : IsShort v)
    (hmarks : (scalarValue v).node.Marks s tok) :
    updateValueIfNoObject json type tok = some data := by
  cases type with
  | int32 =>
      cases hscalar
      -- the integer types read what the decimal of a number in their range denotes
      have hn : IntegerType.int32.Holds (Int32.toInt data) :=
        ⟨Int32.le_toInt data, Int32.toInt_lt data⟩
      exact toOption_of_map (fun _ _ h => Int32.toInt_inj.mp h)
        (parse_decimal .int32 hdoc hmarks hn)
  | int16 =>
      cases hscalar
      have hn : IntegerType.int16.Holds (Int16.toInt data) :=
        ⟨Int16.le_toInt data, Int16.toInt_lt data⟩
      exact toOption_of_map (fun _ _ h => Int16.toInt_inj.mp h)
        (parse_decimal .int16 hdoc hmarks hn)
  | int8 =>
      cases hscalar
      have hn : IntegerType.int8.Holds (Int8.toInt data) :=
        ⟨Int8.le_toInt data, Int8.toInt_lt data⟩
      exact toOption_of_map (fun _ _ h => Int8.toInt_inj.mp h) (parse_decimal .int8 hdoc hmarks hn)
  | uint32 =>
      cases hscalar
      have hn : IntegerType.uint32.Holds (UInt32.toNat data) :=
        ⟨Int.natCast_nonneg _, Int.ofNat_lt.mpr (UInt32.toNat_lt data)⟩
      exact toOption_of_map (fun _ _ h => UInt32.toNat.inj (Int.ofNat.inj h))
        (parse_decimal .uint32 hdoc hmarks hn)
  | uint16 =>
      cases hscalar
      have hn : IntegerType.uint16.Holds (UInt16.toNat data) :=
        ⟨Int.natCast_nonneg _, Int.ofNat_lt.mpr (UInt16.toNat_lt data)⟩
      exact toOption_of_map (fun _ _ h => UInt16.toNat.inj (Int.ofNat.inj h))
        (parse_decimal .uint16 hdoc hmarks hn)
  | uint8 =>
      cases hscalar
      have hn : IntegerType.uint8.Holds (UInt8.toNat data) :=
        ⟨Int.natCast_nonneg _, Int.ofNat_lt.mpr (UInt8.toNat_lt data)⟩
      exact toOption_of_map (fun _ _ h => UInt8.toNat.inj (Int.ofNat.inj h))
        (parse_decimal .uint8 hdoc hmarks hn)
  | bool =>
      cases hscalar
      exact congrArg Except.toOption (parseBooleanValue_of_marks hdoc hmarks)
  | string =>
      cases hscalar
      exact congrArg Except.toOption (parseStringValue_of_marks hdoc hmarks (hshort _ rfl))
  | float => cases hscalar
  | double => cases hscalar
  | object => cases hscalar

/-- A number of 32 bits takes up eleven characters at most. -/
theorem length_decimal_le {n : Int} (hlow : -2 ^ 32 ≤ n) (hhigh : n < 2 ^ 32) :
    (decimal n).length ≤ 11 := by
  have hdigits {k : Nat} (hk : k < 10 ^ 10) : (digits k).length ≤ 10 := by
    rw [digits, List.length_map]
    exact (Nat.length_toDigits_le_iff (by decide) (by decide)).mpr hk
  cases n with
  | ofNat k =>
      have hk : (k : Int) < 2 ^ 32 := hhigh
      exact Nat.le_succ_of_le (hdigits (by omega))
  | negSucc k => exact Nat.succ_le_succ (hdigits (by omega))

/-- The characters of a variable's value can be counted in 32 bits. -/
theorem length_scalarChars_lt {type : JsonPrimitiveType} {data : type.Data} {v : Scalar}
    (hscalar : scalarOf type data = some v) (hshort : IsShort v) :
    (scalarChars v).length < 2 ^ 32 := by
  have hnumber {n : Int} (hlow : -2 ^ 32 ≤ n) (hhigh : n < 2 ^ 32) :
      (scalarChars (.number n)).length < 2 ^ 32 := by
    have hle := length_decimal_le hlow hhigh
    simp only [scalarChars]
    omega
  cases type with
  -- a number has few digits
  | int32 =>
      cases hscalar
      have hlow := Int32.le_toInt data
      have hhigh := Int32.toInt_lt data
      exact hnumber (by omega) (by omega)
  | int16 =>
      cases hscalar
      have hlow := Int16.le_toInt data
      have hhigh := Int16.toInt_lt data
      exact hnumber (by omega) (by omega)
  | int8 =>
      cases hscalar
      have hlow := Int8.le_toInt data
      have hhigh := Int8.toInt_lt data
      exact hnumber (by omega) (by omega)
  | uint32 =>
      cases hscalar
      have hhigh := UInt32.toNat_lt data
      exact hnumber (by omega) (by omega)
  | uint16 =>
      cases hscalar
      have hhigh := UInt16.toNat_lt data
      exact hnumber (by omega) (by omega)
  | uint8 =>
      cases hscalar
      have hhigh := UInt8.toNat_lt data
      exact hnumber (by omega) (by omega)
  | bool =>
      cases hscalar
      cases data <;> decide
  | string =>
      cases hscalar
      exact Nat.lt_trans (hshort _ rfl) (by decide)
  | float | double | object => cases hscalar

/-- A token of a scalar stands for its characters. -/
theorem load_of_marks {v : Scalar} (hdoc : json.Holds s) (hlength : (scalarChars v).length < 2 ^ 32)
    (hmarks : (scalarValue v).node.Marks s tok) :
    json.bytes.load tok.start (UInt32.ofInt (tok.stop - tok.start)).toNat = scalarChars v := by
  obtain ⟨hstop, rest, hdrop⟩ : tok.stop = tok.start + (scalarChars v).length ∧
      ∃ rest, s.drop tok.start = scalarChars v ++ rest := by
    rcases v with n | (_ | _) | chars
    · exact ⟨hmarks.2.1, hmarks.2.2.2.imp fun rest hrest => hrest.1⟩
    · exact ⟨hmarks.2.1, hmarks.2.2.2.imp fun rest hrest => hrest.1⟩
    · exact ⟨hmarks.2.1, hmarks.2.2.2.imp fun rest hrest => hrest.1⟩
    · obtain ⟨rest, hrest⟩ := hmarks.2.2
      exact ⟨hmarks.2.1, 34 :: rest, hrest⟩
  have hsize : (UInt32.ofInt (tok.stop - tok.start)).toNat = (scalarChars v).length := by
    rw [UInt32.ofInt, UInt32.toNat_ofNat']
    omega
  have htotal := congrArg List.length hdrop
  rw [List.length_drop, List.length_append] at htotal
  by_cases hstart : tok.start ≤ s.length
  · rw [hsize, hdoc.load_eq_take (by omega), hdrop, List.take_left]
  · have hnil : scalarChars v = [] := List.eq_nil_of_length_eq_zero (by omega)
    rw [hsize, hnil]
    rfl

end Values

/-! ## Documents -/

/-- In front of the field's key no string of the document equals it. -/
def IsReached (calls : List AddCall) (field : Field) : Prop :=
  ∃ before call after fields rest, calls = before ++ call :: after ∧
    call.fields = fields ++ field :: rest ∧
      field.key ∉ ascii "state" :: ((before.map AddCall.intended).flatMap sectionStrings ++
        call.name :: (fields.filterMap Field.entry).flatMap entryStrings)

/-- The lookup of the field's key stores what the field was built from, and passes on the text
that was printed for it. -/
def Recovers (json : Document) (tokens : JsonTokens) (tokenCount : Nat) (field : Field) : Prop :=
  ∃ r, isJsonKeyMatchingAndUpdateValue json tokens tokenCount field.key field.type = some r ∧
    r.stored = some field.data ∧
      ∀ v, scalarOf field.type field.data = some v →
        json.bytes.load r.dataPosition r.dataLength.toNat = scalarChars v

section Documents

variable {calls : List AddCall} {field : Field} {token key : List UInt8}

/-- A text without special characters has no zero byte. -/
theorem zero_not_mem_of_isVerbatim (h : IsVerbatim key) : 0 ∉ key := by
  intro hzero
  have hspecial := h.2 0 hzero
  cases hspecial

/-- The nodes of a document around those of a field. -/
theorem exists_nodes (token : List UInt8) (hreached : IsReached calls field) {v : Scalar}
    (hentry : field.entry = some (field.key, v)) :
    ∃ front rest, documentNodes (calls.map AddCall.intended) token =
        front ++ .string field.key :: (scalarValue v).node :: rest ∧
      front ≠ [] ∧ .string field.key ∉ front := by
  obtain ⟨before, call, after, fields, others, rfl, hfields, hkey⟩ := hreached
  refine ⟨.object :: .string (ascii "state") :: .object ::
      ((before.map AddCall.intended).flatMap sectionNodes ++ .string call.name :: .object ::
        (fields.filterMap Field.entry).flatMap entryNodes),
    (others.filterMap Field.entry).flatMap entryNodes ++
      ((after.map AddCall.intended).flatMap sectionNodes ++
        [.string shadowClientTokenString, .string token]), ?_, List.cons_ne_nil _ _, ?_⟩
  · have hentries : call.fields.filterMap Field.entry = fields.filterMap Field.entry ++
        (field.key, v) :: others.filterMap Field.entry := by
      rw [hfields, List.filterMap_append, List.filterMap_cons_some hentry]
    simp only [documentNodes, List.map_append, List.map_cons, List.flatMap_append,
      List.flatMap_cons, AddCall.intended, sectionNodes, hentries, entryNodes, List.cons_append,
      List.append_assoc, List.nil_append]
  · intro hmem
    apply hkey
    simp only [List.mem_cons, List.mem_append, JsonNode.string.injEq, reduceCtorEq, false_or]
      at hmem ⊢
    rcases hmem with hstate | hbefore | hname | hfield
    · exact .inl hstate
    · exact .inr (.inl (mem_sections hbefore))
    · exact .inr (.inr (.inl hname))
    · exact .inr (.inr (.inr (mem_entries hfield)))

/-- A document that was built from numbers, truth values and strings is parsed. The lookup of
a field's key recovers the field, if no string in front of the key equals it; the lookup of a
key that equals no string of the document finds nothing. -/
theorem recovers_of_buildDocument {fuel maxSizeOfJsonDocument : Nat} {text : List UInt8}
    {json : Document} {tokens : JsonTokens}
    (hsimple : ∀ call ∈ calls, ∀ field ∈ call.fields, field.IsSimple) (hne : calls ≠ [])
    (hfields : ∀ call ∈ calls, call.fields ≠ []) (htoken : IsVerbatim token)
    (hbuild : buildDocument fuel maxSizeOfJsonDocument token calls = some (.ok text))
    (hdoc : json.Holds text)
    (hroom : (documentNodes (calls.map AddCall.intended) token).length ≤ tokens.length) :
    ∃ tokenCount found, isJsonValidAndParse json tokens = (some tokenCount, found) ∧
      (∀ field, IsReached calls field →
        (∀ v, scalarOf field.type field.data = some v → IsShort v) →
          Recovers json found tokenCount field) ∧
      ∀ key type, 0 ∉ key → key ∉ documentStrings (calls.map AddCall.intended) token →
        isJsonKeyMatchingAndUpdateValue json found tokenCount key type = none := by
  obtain rfl := eq_of_buildDocument hbuild
  have hdocument := isDocument_builtText hsimple hne hfields htoken
  have hnodes := nodes_documentMembers (calls.map AddCall.intended) token
  obtain ⟨found, hparse, hmarks⟩ :=
    isJsonValidAndParse_of_isDocument hdocument hdoc (hnodes ▸ hroom)
  rw [hnodes] at hparse hmarks
  refine ⟨_, found, hparse, ?_, ?_⟩
  · intro field hreached hshort
    obtain ⟨before, call, after, fields, rest, hcalls, hcall, -⟩ := id hreached
    obtain ⟨entry, hentry, hneeds⟩ := hsimple call (by simp [hcalls]) field (by simp [hcall])
    obtain ⟨v, hscalar, rfl⟩ := Option.map_eq_some_iff.mp hentry
    obtain ⟨front, behind, hsplit, hfront, hbefore⟩ := exists_nodes token hreached hentry
    -- the key's first place is the one in front of its value
    have hindex := keyIndex_eq_some hdoc (zero_not_mem_of_isVerbatim hneeds.1) hmarks hsplit hfront
      hbefore
    have hvalue : (scalarValue v).node.Marks (builtText calls token)
        (tokenAt found (front.length + 1)) := by
      apply hmarks
      rw [hsplit, List.getElem?_append_right (by omega), Nat.add_sub_cancel_left]
      rfl
    refine ⟨valueOf json field.type (tokenAt found (front.length + 1)), ?_, ?_, ?_⟩
    · rw [isJsonKeyMatching_eq, hindex]
      rfl
    · exact updateValue_of_marks hdoc hscalar (hshort v hscalar) hvalue
    · intro w hw
      rw [hscalar] at hw
      cases hw
      exact load_of_marks hdoc (length_scalarChars_lt hscalar (hshort v hscalar)) hvalue
  · intro key type hzero hkey
    rw [isJsonKeyMatching_eq,
      keyIndex_eq_none hdoc hzero hmarks fun h => hkey (mem_documentNodes h)]
    rfl

/-- The state of a window, as it is reported. -/
def openedField : Field := ⟨ascii "opened", .int16, (-30 : Int16)⟩

def openedCall : AddCall where
  kind := .reported
  fields := [windowField, openedField]
  behind := fun _ => none
  length_le := by decide

def openedText : List UInt8 :=
  ascii "\x7b\"state\":\x7b\"reported\":\x7b\"windowOpen\":true,\"opened\":-30\x7d\x7d, " ++
    ascii "\"clientToken\":\"dev-0\"\x7d"

theorem isReached_openedField : IsReached [openedCall] openedField :=
  ⟨[], openedCall, [], [windowField], [], rfl, rfl, by decide⟩

theorem recovers_openedField :
    ∃ tokenCount found, isJsonValidAndParse (.ofText openedText) (List.replicate 120 .blank) =
        (some tokenCount, found) ∧
      Recovers (.ofText openedText) found tokenCount openedField := by
  have hbuild : buildDocument 3 100 (ascii "dev-0") [openedCall] = some (.ok openedText) := rfl
  have hsimple : ∀ call ∈ [openedCall], ∀ field ∈ call.fields, field.IsSimple := by
    intro call hcall field hfield
    rw [List.mem_singleton.mp hcall] at hfield
    rcases List.mem_cons.mp hfield with rfl | hfield
    · exact ⟨_, rfl, by decide, trivial⟩
    · rw [List.mem_singleton.mp hfield]
      exact ⟨_, rfl, by decide, trivial⟩
  have hroom : (documentNodes ([openedCall].map AddCall.intended) (ascii "dev-0")).length ≤
      (List.replicate 120 JsmnTok.blank).length := by decide
  obtain ⟨tokenCount, found, hparse, hrecovers, -⟩ :=
    recovers_of_buildDocument hsimple (by decide) (by decide) (by decide) hbuild
      (Document.holds_ofText (by decide)) hroom
  refine ⟨tokenCount, found, hparse, hrecovers openedField isReached_openedField ?_⟩
  rintro v hv _ rfl
  cases hv

end Documents

end MqttClient.Shadow
