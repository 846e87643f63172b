import MqttClient.Shadow.Api
import MqttClient.Text.JsonScalars

/-! # Building a document

A document is printed piece by piece behind what is already in the buffer. Every
member leaves a comma behind it, which the next closing brace overwrites.
-/

open Text

namespace MqttClient.Shadow

/-! ## Printing into the buffer -/

/-- `checkReturnValueOfSnPrintf`, for a text of this length. -/
def checkReturnValueOfSnPrintf (length maxSizeOfJsonDocument : Nat) : IotError :=
  if 2 ^ 31 ≤ length then .shadowJsonError
  else if maxSizeOfJsonDocument ≤ length then .shadowJsonBufferTruncated
  else .success

/-- `snprintf(pJsonDocument + pos, size, ..)` and the check of what it returns: the string
that is in the buffer then. Nothing but `size` stops it at the end of the buffer. -/
def snprintfAt (doc : List UInt8) (pos size : Nat) (text : List UInt8) :
    Except IotError (List UInt8) :=
  let rc := checkReturnValueOfSnPrintf text.length size
  if rc = .success then .ok (doc.take pos ++ text.take (size - 1)) else .error rc

/-- `tempSize = maxSizeOfJsonDocument - strlen(pJsonDocument)`, a `size_t`. -/
def roomLeft (maxSizeOfJsonDocument : Nat) (doc : List UInt8) : Nat :=
  (((maxSizeOfJsonDocument : Int) - doc.length) % 2 ^ 64).toNat

/-- `if(tempSize <= 1) return SHADOW_JSON_ERROR;` -/
def ensureRoom (maxSizeOfJsonDocument : Nat) (doc : List UInt8) : Except IotError Nat :=
  let tempSize := roomLeft maxSizeOfJsonDocument doc
  if tempSize ≤ 1 then .error .shadowJsonError else .ok tempSize

/-- `aws_iot_shadow_init_json_document`. -/
def initJsonDocument (maxSizeOfJsonDocument : Nat) : Except IotError (List UInt8) :=
  snprintfAt [] 0 maxSizeOfJsonDocument (ascii "\x7b\"state\":\x7b")

/-! ## Sections -/

/-- What a `jsonStruct_t` contributes, if its pointers are set. -/
structure Field where
  key : List UInt8
  type : JsonPrimitiveType
  data : type.Data

/-- What `convertDataToString` prints. A floating point number is given by its text. -/
def convertDataToString : (type : JsonPrimitiveType) → type.Data → List UInt8
  | .int32, (v : Int32) => decimal v.toInt ++ ascii ","
  | .int16, (v : Int16) => decimal v.toInt ++ ascii ","
  | .int8, (v : Int8) => decimal v.toInt ++ ascii ","
  | .uint32, (v : UInt32) => decimal v.toNat ++ ascii ","
  | .uint16, (v : UInt16) => decimal v.toNat ++ ascii ","
  | .uint8, (v : UInt8) => decimal v.toNat ++ ascii ","
  | .double, (text : List UInt8) => text ++ ascii ","
  | .float, (text : List UInt8) => text ++ ascii ","
  | .bool, (b : Bool) => ascii (if b then "true" else "false") ++ ascii ","
  | .string, (s : List UInt8) => ascii "\"" ++ s.takeWhile (· ≠ 0) ++ ascii "\","
  | .object, v => nomatch v

/-- The body of the loop of `aws_iot_shadow_add_desired` and its sibling: the document and
`remSizeOfJsonBuffer`, which the key does not make smaller. -/
def addField (maxSizeOfJsonDocument : Nat) (doc : List UInt8) :
    Option Field → Except IotError (List UInt8 × Nat)
  | none => do
      let _ ← ensureRoom maxSizeOfJsonDocument doc
      .error .nullValueError
  | some field => do
      let remSize ← ensureRoom maxSizeOfJsonDocument doc
      let doc ← snprintfAt doc doc.length remSize
        (ascii "\"" ++ field.key.takeWhile (· ≠ 0) ++ ascii "\":")
      let doc ← snprintfAt doc doc.length remSize (convertDataToString field.type field.data)
      return (doc, remSize)

/-- The loop, from its turn `i` on. The counter is an `int8_t`; `pArgs` gives the argument of a
turn, or what is found behind the arguments. -/
def addFields (maxSizeOfJsonDocument : Nat) (count : UInt8) (pArgs : Nat → Option Field) :
    Nat → Nat → List UInt8 × Nat → Option (Except IotError (List UInt8 × Nat))
  | 0, _, _ => none
  | fuel + 1, i, (doc, remSize) =>
      if (Int8.ofNat i).toInt < count.toNat then
        match addField maxSizeOfJsonDocument doc (pArgs i) with
        | .error rc => some (.error rc)
        | .ok next => addFields maxSizeOfJsonDocument count pArgs fuel (i + 1) next
      else some (.ok (doc, remSize))

/-- `aws_iot_shadow_add_desired` and `aws_iot_shadow_add_reported`, which differ in the name
they print. It is none while the loop goes on. -/
def addSection (name : List UInt8) (fuel maxSizeOfJsonDocument : Nat) (doc : List UInt8)
    (count : UInt8) (pArgs : Nat → Option Field) : Option (Except IotError (List UInt8)) :=
  let opened := do
    let remSize ← ensureRoom maxSizeOfJsonDocument doc
    let doc ← snprintfAt doc doc.length remSize (ascii "\"" ++ name ++ ascii "\":\x7b")
    return (doc, remSize)
  match opened with
  | .error rc => some (.error rc)
  | .ok start =>
      (addFields maxSizeOfJsonDocument count pArgs fuel 0 start).map fun r => do
        let (doc, remSize) ← r
        snprintfAt doc (doc.length - 1) remSize (ascii "\x7d,")

def addDesired : Nat → Nat → List UInt8 → UInt8 → (Nat → Option Field) →
    Option (Except IotError (List UInt8)) :=
  addSection (ascii "desired")

def addReported : Nat → Nat → List UInt8 → UInt8 → (Nat → Option Field) →
    Option (Except IotError (List UInt8)) :=
  addSection (ascii "reported")

/-- `aws_iot_finalize_json_document`, with the client token that it prints. -/
def finalizeJsonDocument (maxSizeOfJsonDocument : Nat) (doc token : List UInt8) :
    Except IotError (List UInt8) := do
  let remSize ← ensureRoom maxSizeOfJsonDocument doc
  let doc ← snprintfAt doc (doc.length - 1) remSize (ascii "\x7d, \"clientToken\":\"")
  let remSize ← ensureRoom maxSizeOfJsonDocument doc
  let doc ← snprintfAt doc doc.length remSize token
  let remSize ← ensureRoom maxSizeOfJsonDocument doc
  snprintfAt doc doc.length remSize (ascii "\"\x7d")

/-- What `FillWithClientTokenSize` prints. -/
def clientToken (mqttClientID : List UInt8) (clientTokenNum : UInt32) : List UInt8 :=
  mqttClientID.takeWhile (· ≠ 0) ++ ascii "-" ++ printToken clientTokenNum

/-! ## Sequences of calls -/

/-- Which of the two functions is called. -/
inductive AddCall.Kind where
  | desired | reported

/-- A call that adds a section: the members it is given, at most as many as can be counted,
and what is found behind the arguments. -/
structure AddCall where
  kind : AddCall.Kind
  fields : List Field
  behind : Nat → Option Field
  length_le : fields.length ≤ 255

namespace AddCall

def pArgs (call : AddCall) (i : Nat) : Option Field :=
  if h : i < call.fields.length then some call.fields[i] else call.behind i

def name (call : AddCall) : List UInt8 :=
  match call.kind with
  | .desired => ascii "desired"
  | .reported => ascii "reported"

def run (call : AddCall) (fuel maxSizeOfJsonDocument : Nat) (doc : List UInt8) :
    Option (Except IotError (List UInt8)) :=
  let add := match call.kind with
    | .desired => addDesired
    | .reported => addReported
  add fuel maxSizeOfJsonDocument doc (UInt8.ofNat call.fields.length) call.pArgs

/-- A call adds its section. -/
theorem run_eq (call : AddCall) (fuel maxSizeOfJsonDocument : Nat) (doc : List UInt8) :
    call.run fuel maxSizeOfJsonDocument doc =
      addSection call.name fuel maxSizeOfJsonDocument doc (UInt8.ofNat call.fields.length)
        call.pArgs := by
  rw [run, name]
  cases call.kind <;> rfl

end AddCall

/-- The calls that add a section, one after the other. -/
def runAddCalls (fuel maxSizeOfJsonDocument : Nat) (doc : List UInt8) :
    List AddCall → Option (Except IotError (List UInt8))
  | [] => some (.ok doc)
  | call :: calls =>
      match call.run fuel maxSizeOfJsonDocument doc with
      | none => none
      | some (.error rc) => some (.error rc)
      | some (.ok doc) => runAddCalls fuel maxSizeOfJsonDocument doc calls

/-- Begin a document, add sections and finish it. -/
def buildDocument (fuel maxSizeOfJsonDocument : Nat) (token : List UInt8) (calls : List AddCall) :
    Option (Except IotError (List UInt8)) :=
  match initJsonDocument maxSizeOfJsonDocument with
  | .error rc => some (.error rc)
  | .ok doc =>
      (runAddCalls fuel maxSizeOfJsonDocument doc calls).map fun r => do
        finalizeJsonDocument maxSizeOfJsonDocument (← r) token

/-! ## What a document says -/

/-- The sections and the token of a document: an object with the members `state` and
`clientToken`. -/
def readDocument (s : List UInt8) : Option (List Section × List UInt8) :=
  if IsUtf8 s then
    (expect 123 s).bind fun s => (readString s).bind fun (state, s) =>
      (expect 58 s).bind fun s => (readSequence readSection 123 125 s).bind fun (sections, s) =>
        (expect 44 s).bind fun s => (readString s).bind fun (clientToken, s) =>
          (expect 58 s).bind fun s => (readString s).bind fun (token, s) =>
            (expect 125 s).bind fun s =>
              if state = ascii "state" ∧ clientToken = shadowClientTokenString ∧ s.all isBlank then
                some (sections, token)
              else none
  else none

/-- The value of a number, truth value or string. -/
def scalarOf : (type : JsonPrimitiveType) → type.Data → Option Scalar
  | .int32, (v : Int32) => some (.number v.toInt)
  | .int16, (v : Int16) => some (.number v.toInt)
  | .int8, (v : Int8) => some (.number v.toInt)
  | .uint32, (v : UInt32) => some (.number v.toNat)
  | .uint16, (v : UInt16) => some (.number v.toNat)
  | .uint8, (v : UInt8) => some (.number v.toNat)
  | .bool, (b : Bool) => some (.bool b)
  | .string, (s : List UInt8) => some (.string s)
  | .double, _ | .float, _ | .object, _ => none

def Field.entry (field : Field) : Option Entry :=
  (scalarOf field.type field.data).map fun value => (field.key, value)

/-- The field has an integer, truth value or string, and neither it nor the key needs escaping. -/
def Field.IsSimple (field : Field) : Prop := ∃ entry, field.entry = some entry ∧ entry.NeedsNoEscape

/-- The section that a call is to add. -/
def AddCall.intended (call : AddCall) : Section := (call.name, call.fields.filterMap Field.entry)

/-! ## What the calls print -/

/-- What a member leaves in the buffer. -/
def Field.text (field : Field) : List UInt8 :=
  ascii "\"" ++ field.key.takeWhile (· ≠ 0) ++ ascii "\":" ++
    convertDataToString field.type field.data

/-- What a call leaves in the buffer, less the comma behind it: the brace stands in the place of
the last character before it. -/
def AddCall.text (call : AddCall) : List UInt8 :=
  (ascii "\"" ++ call.name ++ ascii "\":\x7b" ++ call.fields.flatMap Field.text).dropLast ++
    ascii "\x7d"

/-- What stands behind the sections. -/
def closing (token : List UInt8) : List UInt8 :=
  ascii ", \"clientToken\":\"" ++ (token ++ ascii "\"\x7d")

/-- What all the calls leave in the buffer: the brace behind the sections stands in the place of
the last character before it. -/
def builtText (calls : List AddCall) (token : List UInt8) : List UInt8 :=
  (ascii "\x7b\"state\":\x7b" ++ calls.flatMap (AddCall.text · ++ [44])).dropLast ++
    125 :: closing token

section Printing

variable {maxSize size pos : Nat} {doc doc' text : List UInt8}

/-- A computation that succeeds has succeeded in both parts. -/
theorem exists_of_bind_ok {α β : Type} {x : Except IotError α} {f : α → Except IotError β} {b : β}
    (h : x >>= f = .ok b) : ∃ a, x = .ok a ∧ f a = .ok b := by
  cases x with
  | error rc => cases h
  | ok a => exact ⟨a, rfl, h⟩

/-- Nothing is cut off of what is printed with success. -/
theorem eq_of_snprintfAt (h : snprintfAt doc pos size text = .ok doc') :
    doc' = doc.take pos ++ text := by
  rw [snprintfAt] at h
  split at h
  next hrc =>
    have hlen : text.length < size := by
      unfold checkReturnValueOfSnPrintf at hrc
      split at hrc
      · cases hrc
      · split at hrc
        · cases hrc
        · omega
    have htext : text.take (size - 1) = text := List.take_of_length_le (by omega)
    rw [htext] at h
    exact (Except.ok.inj h).symm
  · cases h

/-- Printing at the end appends. -/
theorem eq_of_snprintfAt_end (h : snprintfAt doc doc.length size text = .ok doc') :
    doc' = doc ++ text := by
  have hdoc := eq_of_snprintfAt h
  rwa [List.take_length] at hdoc

/-- Printing over the last character replaces it. -/
theorem eq_of_snprintfAt_last (h : snprintfAt doc (doc.length - 1) size text = .ok doc') :
    doc' = doc.dropLast ++ text := by
  rw [List.dropLast_eq_take]
  exact eq_of_snprintfAt h

/-- A field that was added stands at the end of the document. -/
theorem eq_of_addField {field : Field} {remSize : Nat}
    (h : addField maxSize doc (some field) = .ok (doc', remSize)) : doc' = doc ++ field.text := by
  obtain ⟨_, _, h⟩ := exists_of_bind_ok h
  obtain ⟨keyed, hkey, h⟩ := exists_of_bind_ok h
  obtain ⟨valued, hvalue, h⟩ := exists_of_bind_ok h
  cases h
  rw [eq_of_snprintfAt_end hvalue, eq_of_snprintfAt_end hkey, List.append_assoc]
  rfl

/-- The counter never reaches a number that it cannot hold. -/
theorem addFields_ne_ok {count : UInt8} (hcount : 128 ≤ count.toNat) (pArgs : Nat → Option Field)
    (fuel i : Nat) (start r : List UInt8 × Nat) :
    addFields maxSize count pArgs fuel i start ≠ some (.ok r) := by
  induction fuel generalizing i start with
  | zero => exact fun h => by cases h
  | succ fuel ih =>
      have hle := (Int8.ofNat i).toInt_lt
      rw [addFields, if_pos (by omega)]
      split
      · exact fun h => by cases h
      · exact ih _ _

/-- The turns that are left print the members that are left. -/
theorem eq_of_addFields {fields : List Field} {pArgs : Nat → Option Field}
    (hargs : ∀ i (h : i < fields.length), pArgs i = some fields[i]) (hlen : fields.length < 128)
    {fuel i : Nat} (hi : i ≤ fields.length) {remSize remSize' : Nat}
    (h : addFields maxSize (UInt8.ofNat fields.length) pArgs fuel i (doc, remSize) =
      some (.ok (doc', remSize'))) : doc' = doc ++ (fields.drop i).flatMap Field.text := by
  have hcount : (UInt8.ofNat fields.length).toNat = fields.length := by
    rw [UInt8.toNat_ofNat']
    omega
  induction fuel generalizing i doc remSize with
  | zero => cases h
  | succ fuel ih =>
      have hcounter : (Int8.ofNat i).toInt = i := Int8.toInt_ofNat_of_lt (by omega)
      rw [addFields, hcounter, hcount] at h
      by_cases hlt : i < fields.length
      · rw [if_pos (by omega), hargs i hlt] at h
        split at h
        · cases h
        next next hfield =>
          rw [List.drop_eq_getElem_cons hlt, List.flatMap_cons, ← List.append_assoc,
            ← eq_of_addField hfield]
          exact ih hlt h
      · rw [if_neg (by omega)] at h
        cases h
        rw [List.drop_of_length_le (by omega), List.flatMap_nil, List.append_nil]

/-- What a call appends. A call that returns success has few enough members to count. -/
theorem eq_of_run {call : AddCall} {fuel : Nat} (h : call.run fuel maxSize doc = some (.ok doc')) :
    doc' = doc ++ (call.text ++ [44]) := by
  rw [AddCall.run_eq, addSection] at h
  split at h
  · cases h
  next start hopened =>
    obtain ⟨_, _, hroom⟩ := exists_of_bind_ok hopened
    obtain ⟨opened, hname, hstart⟩ := exists_of_bind_ok hroom
    cases hstart
    obtain ⟨r, hfields, hmap⟩ := Option.map_eq_some_iff.mp h
    obtain ⟨⟨body, remSize⟩, rfl, hclosed⟩ := exists_of_bind_ok hmap
    have hcount : (UInt8.ofNat call.fields.length).toNat = call.fields.length := by
      rw [UInt8.toNat_ofNat']
      have := call.length_le
      omega
    have hlen : call.fields.length < 128 := by
      by_contra hge
      exact addFields_ne_ok (by omega) _ _ _ _ _ hfields
    have hargs : ∀ i (h : i < call.fields.length), call.pArgs i = some call.fields[i] :=
      fun i h => dif_pos h
    have hbody := eq_of_addFields hargs hlen (Nat.zero_le _) hfields
    rw [eq_of_snprintfAt_last hclosed, hbody, eq_of_snprintfAt_end hname, List.drop_zero,
      AddCall.text, List.append_assoc doc, List.dropLast_append_of_ne_nil]
    · simp only [List.append_assoc]
      rfl
    · exact List.append_ne_nil_of_left_ne_nil (List.cons_ne_nil _ _) _

/-- The calls append their texts, each with a comma behind it. -/
theorem eq_of_runAddCalls {calls : List AddCall} {fuel : Nat}
    (h : runAddCalls fuel maxSize doc calls = some (.ok doc')) :
    doc' = doc ++ calls.flatMap (AddCall.text · ++ [44]) := by
  induction calls generalizing doc with
  | nil =>
      cases h
      exact (List.append_nil _).symm
  | cons call calls ih =>
      rw [runAddCalls] at h
      split at h
      · cases h
      · cases h
      next next hrun => rw [ih h, eq_of_run hrun, List.append_assoc, List.flatMap_cons]

/-- The text of a document that is built with success. -/
theorem eq_of_buildDocument {calls : List AddCall} {fuel : Nat} {token : List UInt8}
    (h : buildDocument fuel maxSize token calls = some (.ok text)) :
    text = builtText calls token := by
  rw [buildDocument] at h
  split at h
  · cases h
  next start hstart =>
    obtain ⟨r, hcalls, hmap⟩ := Option.map_eq_some_iff.mp h
    obtain ⟨body, rfl, hfinal⟩ := exists_of_bind_ok hmap
    obtain ⟨_, _, hfinal⟩ := exists_of_bind_ok hfinal
    obtain ⟨closed, hclosed, hfinal⟩ := exists_of_bind_ok hfinal
    obtain ⟨_, _, hfinal⟩ := exists_of_bind_ok hfinal
    obtain ⟨tokened, htoken, hfinal⟩ := exists_of_bind_ok hfinal
    obtain ⟨_, _, hend⟩ := exists_of_bind_ok hfinal
    have hopened : start = ascii "\x7b\"state\":\x7b" := eq_of_snprintfAt hstart
    rw [eq_of_snprintfAt_end hend, eq_of_snprintfAt_end htoken, eq_of_snprintfAt_last hclosed,
      eq_of_runAddCalls hcalls, hopened, List.append_assoc, List.append_assoc]
    rfl

end Printing

/-! ## What is printed is what is meant -/

/-- A text without special characters is not cut off. -/
theorem takeWhile_of_isVerbatim {s : List UInt8} (h : IsVerbatim s) : s.takeWhile (· ≠ 0) = s := by
  rw [List.takeWhile_eq_self_iff]
  intro b hb
  apply decide_eq_true
  rintro rfl
  exact absurd (h.2 0 hb) (by decide)

theorem ascii_toString (n : Int) : ascii (toString n) = decimal n := by
  cases n with
  | ofNat n =>
      change ascii (String.ofList (Nat.toDigits 10 n)) = digits n
      rw [ascii, String.toList_ofList, digits]
  | negSucc n =>
      change ascii ("-" ++ String.ofList (Nat.toDigits 10 (n + 1))) = 45 :: digits (n + 1)
      rw [ascii, String.toList_append, List.map_append, String.toList_ofList,
        String.toList_ofList, digits]
      rfl

/-- A client token has no special characters if the client's name has none. -/
theorem isVerbatim_clientToken {mqttClientID : List UInt8} (h : IsVerbatim mqttClientID)
    (n : UInt32) : IsVerbatim (clientToken mqttClientID n) := by
  rw [clientToken, takeWhile_of_isVerbatim h, printToken, ascii_toString]
  exact (h.append (by decide)).append (isVerbatim_decimal _)

/-- A value that is printed as it stands, and the comma behind it. -/
theorem convertDataToString_eq : ∀ {type : JsonPrimitiveType} {data : type.Data} {value : Scalar},
    scalarOf type data = some value → value.NeedsNoEscape →
      convertDataToString type data = value.write ++ [44]
  | .int32, (v : Int32), _, rfl, _ => rfl
  | .int16, (v : Int16), _, rfl, _ => rfl
  | .int8, (v : Int8), _, rfl, _ => rfl
  | .uint32, (v : UInt32), _, rfl, _ => rfl
  | .uint16, (v : UInt16), _, rfl, _ => rfl
  | .uint8, (v : UInt8), _, rfl, _ => rfl
  | .bool, true, _, rfl, _ => rfl
  | .bool, false, _, rfl, _ => rfl
  | .string, (s : List UInt8), _, rfl, hneeds => by
      rw [convertDataToString, takeWhile_of_isVerbatim hneeds, Scalar.write, quoted]
      simp only [List.append_assoc]
      rfl

namespace Field

/-- A member with a value that is printed as it stands, and the comma behind it. -/
theorem text_eq {field : Field} {e : Entry} (hentry : field.entry = some e)
    (h : e.NeedsNoEscape) : field.text = writeEntry e ++ [44] := by
  obtain ⟨value, hvalue, rfl⟩ := Option.map_eq_some_iff.mp hentry
  rw [text, convertDataToString_eq hvalue h.2, takeWhile_of_isVerbatim h.1, writeEntry, quoted]
  simp only [List.append_assoc]
  rfl

/-- What members mean is what is written for them. -/
theorem flatMap_text {fields : List Field} (h : ∀ field ∈ fields, field.IsSimple) :
    fields.flatMap text = ((fields.filterMap entry).map writeEntry).flatMap (· ++ [44]) := by
  induction fields with
  | nil => rfl
  | cons field fields ih =>
      obtain ⟨e, hentry, hneeds⟩ := h field List.mem_cons_self
      rw [List.flatMap_cons, text_eq hentry hneeds, List.filterMap_cons_some hentry,
        List.map_cons, List.flatMap_cons, ih fun field hf => h field (List.mem_cons_of_mem _ hf)]

theorem needsNoEscape_of_mem {fields : List Field} (h : ∀ field ∈ fields, field.IsSimple) :
    ∀ e ∈ fields.filterMap entry, Entry.NeedsNoEscape e := by
  intro e he
  obtain ⟨field, hfield, hentry⟩ := List.mem_filterMap.mp he
  obtain ⟨e', hentry', hneeds⟩ := h field hfield
  rw [Option.some.inj (hentry.symm.trans hentry')]
  exact hneeds

end Field

namespace AddCall

theorem isVerbatim_name (call : AddCall) : IsVerbatim call.name := by
  rw [name]
  cases call.kind <;> decide

/-- What a call is meant to say needs no escapes. -/
theorem needsNoEscape_intended {call : AddCall} (h : ∀ field ∈ call.fields, field.IsSimple) :
    Section.NeedsNoEscape call.intended :=
  ⟨call.isVerbatim_name, Field.needsNoEscape_of_mem h⟩

/-- The opening of a section as the reader sees it. -/
theorem opening_eq (call : AddCall) :
    ascii "\"" ++ call.name ++ ascii "\":\x7b" = quoted call.name ++ [58, 123] := by
  change (34 :: call.name) ++ ascii "\":\x7b" = _
  rw [quoted, List.append_assoc]
  rfl

/-- The comma of the last member gives way to the brace. -/
theorem text_eq_writeSection {call : AddCall} (h : ∀ field ∈ call.fields, field.IsSimple)
    (hne : call.fields ≠ []) : call.text = writeSection call.intended := by
  have hentries : (call.fields.filterMap Field.entry).map writeEntry ≠ [] := by
    obtain ⟨field, hfield⟩ := List.exists_mem_of_ne_nil _ hne
    obtain ⟨e, hentry, _⟩ := h field hfield
    exact List.ne_nil_of_mem (List.mem_map_of_mem (List.mem_filterMap.mpr ⟨field, hfield, hentry⟩))
  have hflat : ((call.fields.filterMap Field.entry).map writeEntry).flatMap (· ++ [44]) ≠ [] := by
    obtain ⟨t, ht⟩ := List.exists_mem_of_ne_nil _ hentries
    intro hnil
    exact List.append_ne_nil_of_right_ne_nil t (List.cons_ne_nil _ _)
      (List.flatMap_eq_nil_iff.mp hnil t ht)
  rw [text, opening_eq, Field.flatMap_text h, List.dropLast_append_of_ne_nil hflat,
    dropLast_flatMap_comma hentries, writeSection, intended, writeSequence]
  simp only [List.append_assoc]
  rfl

/-- Where there is no member, the brace that opens the section gives way. -/
theorem text_of_fields_eq_nil {call : AddCall} (h : call.fields = []) :
    call.text = quoted call.name ++ [58, 125] := by
  rw [text, opening_eq, h, List.flatMap_nil, List.append_nil, List.dropLast_append_of_ne_nil
    (List.cons_ne_nil _ _), List.append_assoc]
  rfl

end AddCall

/-! ## What is read back -/

section Reading

variable {token rest : List UInt8}

theorem opening_document (rest : List UInt8) :
    ascii "\x7b\"state\":" ++ rest = 123 :: (quoted (ascii "state") ++ 58 :: rest) := rfl

theorem closing_eq (token : List UInt8) :
    closing token =
      44 :: 32 :: (quoted shadowClientTokenString ++ 58 :: (quoted token ++ [125])) := by
  change _ =
    44 :: 32 :: (quoted shadowClientTokenString ++ 58 :: (((34 :: token) ++ [34]) ++ [125]))
  rw [List.append_assoc (34 :: token)]
  rfl

/-- Without a sequence of sections there is no document. -/
theorem readDocument_eq_none (h : readSequence readSection 123 125 rest = none) :
    readDocument (ascii "\x7b\"state\":" ++ rest) = none := by
  rw [opening_document, readDocument, @expect_cons 123 (by decide)]
  simp only [Option.bind_some, readString_quoted (show IsVerbatim (ascii "state") by decide),
    @expect_cons 58 (by decide), h, Option.bind_none, ite_self]

/-- With one, in front of the token, there is. -/
theorem readDocument_eq_some {sections : List Section} (htoken : IsVerbatim token)
    (hutf : IsUtf8 rest)
    (h : readSequence readSection 123 125 rest = some (sections, closing token)) :
    readDocument (ascii "\x7b\"state\":" ++ rest) = some (sections, token) := by
  have hutf' : IsUtf8 (ascii "\x7b\"state\":" ++ rest) := IsUtf8.append (by decide) hutf
  have hblank : ∀ s, readString (32 :: s) = readString s := fun _ => rfl
  rw [opening_document] at hutf' ⊢
  rw [readDocument, if_pos hutf', @expect_cons 123 (by decide)]
  simp only [Option.bind_some, readString_quoted (show IsVerbatim (ascii "state") by decide),
    @expect_cons 58 (by decide), h, closing_eq, @expect_cons 44 (by decide), hblank,
    readString_quoted (show IsVerbatim shadowClientTokenString by decide),
    readString_quoted htoken, @expect_cons 125 (by decide), List.all_nil, and_self, if_true]

end Reading

/-! ## When the buffer holds the document -/

/-- The characters that a member takes, with its comma. -/
def Field.size (field : Field) : Nat :=
  field.key.length + 3 + (convertDataToString field.type field.data).length

/-- The characters that a section takes, with its comma. -/
def AddCall.size (call : AddCall) : Nat := call.name.length + 5 + (call.fields.map Field.size).sum

def documentSize (calls : List AddCall) (token : List UInt8) : Nat :=
  29 + (calls.map AddCall.size).sum + token.length

section Documents

variable {calls : List AddCall} (hsimple : ∀ call ∈ calls, ∀ field ∈ call.fields, field.IsSimple)
include hsimple

theorem length_call {call : AddCall} (hcall : call ∈ calls) :
    (call.text ++ [44]).length = call.size := by
  have hfields : (call.fields.flatMap Field.text).length = (call.fields.map Field.size).sum := by
    rw [List.length_flatMap]
    congr 1
    apply List.map_congr_left
    intro field hfield
    obtain ⟨e, hentry, hneeds⟩ := hsimple call hcall field hfield
    have hkey : field.key = e.1 := by
      obtain ⟨value, _, rfl⟩ := Option.map_eq_some_iff.mp hentry
      rfl
    rw [Field.text, takeWhile_of_isVerbatim (hkey ▸ hneeds.1), Field.size]
    simp only [List.length_append]
    change 1 + field.key.length + 2 + _ = _
    omega
  rw [AddCall.text, AddCall.opening_eq, quoted]
  simp only [List.length_append, List.length_dropLast, hfields, List.length_cons, List.length_nil]
  rw [AddCall.size]
  change _ - 1 + 1 + _ = _
  omega

/-- The text is as long as the calls and the token make it. -/
theorem length_builtText (token : List UInt8) :
    (builtText calls token).length = documentSize calls token := by
  have hsections : (calls.flatMap (AddCall.text · ++ [44])).length =
      (calls.map AddCall.size).sum := by
    rw [List.length_flatMap]
    congr 1
    apply List.map_congr_left
    intro call hcall
    exact length_call hsimple hcall
  rw [builtText, documentSize, List.length_append, List.length_dropLast, List.length_append,
    hsections, closing, List.length_cons, List.length_append, List.length_append]
  change 10 + _ - 1 + (17 + (_ + 2) + 1) = _
  omega

omit hsimple in
/-- The built text, if a section is opened. -/
theorem builtText_of_ne_nil (hne : calls ≠ []) (token : List UInt8) :
    builtText calls token =
      ascii "\x7b\"state\":" ++
        123 :: (commaList (calls.map AddCall.text) ++ 125 :: closing token) := by
  have hflat : calls.flatMap (AddCall.text · ++ [44]) =
      (calls.map AddCall.text).flatMap (· ++ [44]) := by
    rw [List.flatMap_map]
  have hne' : (calls.map AddCall.text).flatMap (· ++ [44]) ≠ [] := by
    obtain ⟨call, hcall⟩ := List.exists_mem_of_ne_nil _ hne
    intro hnil
    exact List.append_ne_nil_of_right_ne_nil call.text (List.cons_ne_nil _ _)
      (List.flatMap_eq_nil_iff.mp hnil call.text (List.mem_map_of_mem hcall))
  rw [builtText, hflat, List.dropLast_append_of_ne_nil hne', dropLast_flatMap_comma
    (fun h => hne (List.map_eq_nil_iff.mp h)), List.append_assoc]
  rfl

/-- Sections with members are written as they are to be read. -/
theorem map_text_eq (hfields : ∀ call ∈ calls, call.fields ≠ []) :
    calls.map AddCall.text = (calls.map AddCall.intended).map writeSection := by
  rw [List.map_map]
  apply List.map_congr_left
  intro call hcall
  exact AddCall.text_eq_writeSection (hsimple call hcall) (hfields call hcall)

theorem readsBack_of_mem {sec : Section} (hsec : sec ∈ calls.map AddCall.intended) :
    ReadsBack readSection writeSection 125 sec := by
  obtain ⟨call, hcall, rfl⟩ := List.mem_map.mp hsec
  exact readsBack_writeSection (AddCall.needsNoEscape_intended (hsimple call hcall))

omit hsimple in
/-- A section does not begin with the end of the document. -/
theorem expect_writeSection (sec : Section) (s : List UInt8) :
    expect 125 (writeSection sec ++ s) = none := by
  rw [writeSection, List.append_assoc]
  exact expect_quoted (by decide) _ _

/-- What is built is read as what was meant. -/
theorem readDocument_builtText (hne : calls ≠ []) (hfields : ∀ call ∈ calls, call.fields ≠ [])
    {token : List UInt8} (htoken : IsVerbatim token) :
    readDocument (builtText calls token) = some (calls.map AddCall.intended, token) := by
  have hwritten : 123 :: (commaList (calls.map AddCall.text) ++ 125 :: closing token) =
      writeSequence 123 125 ((calls.map AddCall.intended).map writeSection) ++ closing token := by
    rw [map_text_eq hsimple hfields, writeSequence, List.append_assoc]
    rfl
  have hutf : IsUtf8 (writeSequence 123 125 ((calls.map AddCall.intended).map writeSection) ++
      closing token) := by
    apply IsUtf8.append
    · rw [isUtf8_writeSequence (by decide) (by decide), List.forall_mem_map, List.forall_mem_map]
      intro call hcall
      exact isUtf8_writeSection (AddCall.needsNoEscape_intended (hsimple call hcall))
    · exact IsUtf8.append (by decide) (htoken.1.append (by decide))
  rw [builtText_of_ne_nil hne, hwritten]
  apply readDocument_eq_some htoken hutf
  apply readSequence_writeSequence (fun sec hsec => readsBack_of_mem hsimple hsec)
    expect_writeSection
  all_goals decide

/-- The first section without members is not read. -/
theorem readDocument_eq_none_of_nil {call : AddCall} (hcall : call ∈ calls)
    (hnil : call.fields = []) (token : List UInt8) :
      readDocument (builtText calls token) = none := by
  have hfind : (calls.find? fun call => call.fields.isEmpty).isSome :=
    List.find?_isSome.mpr ⟨call, hcall, List.isEmpty_iff.mpr hnil⟩
  obtain ⟨bad, hbad⟩ := Option.isSome_iff_exists.mp hfind
  obtain ⟨hempty, front, back, rfl, hfront⟩ := List.find?_eq_some_iff_append.mp hbad
  have hsimpleFront : ∀ call ∈ front, ∀ field ∈ call.fields, field.IsSimple :=
    fun call hcall => hsimple call (List.mem_append_left _ hcall)
  have hfields : ∀ call ∈ front, call.fields ≠ [] := by
    intro call hcall hnil
    have := hfront call hcall
    rw [hnil] at this
    cases this
  have htext := AddCall.text_of_fields_eq_nil (List.isEmpty_iff.mp hempty)
  have hitem : ∀ s, readSection (bad.text ++ s) = none := by
    intro s
    rw [htext, List.append_assoc]
    exact readSection_eq_none bad.isVerbatim_name s
  have hstart : ∀ s, expect 125 (bad.text ++ s) = none := by
    intro s
    rw [htext, List.append_assoc]
    exact expect_quoted (by decide) _ _
  rw [builtText_of_ne_nil (List.ne_nil_of_mem hcall), List.map_append, List.map_cons,
    map_text_eq hsimpleFront hfields]
  apply readDocument_eq_none
  exact readSequence_eq_none (fun sec hsec => readsBack_of_mem hsimpleFront hsec)
    expect_writeSection (by decide) (by decide) hitem hstart _ _

end Documents

/-- Without any call it is no document. -/
theorem readDocument_nil (token : List UInt8) : readDocument (builtText [] token) = none := by
  apply readDocument_eq_none
  rw [readSequence, expect_cons_of_ne (by decide) (by decide)]
  rfl

/-- A document of which every part was printed with success is in the buffer and says what it is
to say exactly if it has sections, each of them has members, and it is shorter than the buffer.
The room behind a key is not measured again before its value is printed. -/
theorem holdsDocument_iff {fuel maxSizeOfJsonDocument : Nat} {mqttClientID : List UInt8}
    (hid : IsVerbatim mqttClientID) (clientTokenNum : UInt32) {calls : List AddCall}
    (hsimple : ∀ call ∈ calls, ∀ field ∈ call.fields, field.IsSimple) {text : List UInt8}
    (h : buildDocument fuel maxSizeOfJsonDocument (clientToken mqttClientID clientTokenNum) calls =
      some (.ok text)) :
    (text.length < maxSizeOfJsonDocument ∧ readDocument text =
        some (calls.map AddCall.intended, clientToken mqttClientID clientTokenNum)) ↔
      calls ≠ [] ∧ (∀ call ∈ calls, call.fields ≠ []) ∧
        documentSize calls (clientToken mqttClientID clientTokenNum) < maxSizeOfJsonDocument := by
  obtain rfl := eq_of_buildDocument h
  rw [length_builtText hsimple]
  constructor
  · rintro ⟨hlen, hread⟩
    refine ⟨?_, ?_, hlen⟩
    · rintro rfl
      rw [readDocument_nil] at hread
      cases hread
    · intro call hcall hnil
      rw [readDocument_eq_none_of_nil hsimple hcall hnil] at hread
      cases hread
  · rintro ⟨hne, hfields, hlen⟩
    exact ⟨hlen, readDocument_builtText hsimple hne hfields (isVerbatim_clientToken hid _)⟩

def windowField : Field := ⟨ascii "windowOpen", .bool, true⟩

def windowCall : AddCall where
  kind := .reported
  fields := [windowField]
  behind := fun _ => none
  length_le := by decide

def windowText : List UInt8 :=
  ascii "\x7b\"state\":\x7b\"reported\":\x7b\"windowOpen\":true\x7d\x7d" ++
    ascii ", \"clientToken\":\"dev-0\"\x7d"

theorem holdsDocument_windowCall :
    (windowText.length < 100 ∧ readDocument windowText =
        some ([windowCall].map AddCall.intended, clientToken (ascii "dev") 0)) ↔
      [windowCall] ≠ [] ∧ (∀ call ∈ [windowCall], call.fields ≠ []) ∧
        documentSize [windowCall] (clientToken (ascii "dev") 0) < 100 := by
  have hbuild : buildDocument 2 100 (clientToken (ascii "dev") 0) [windowCall] =
      some (.ok windowText) := by
    rw [clientToken, printToken, ascii_toString]
    rfl
  apply holdsDocument_iff (by decide) 0 ?_ hbuild
  intro call hcall field hfield
  rw [List.mem_singleton.mp hcall] at hfield
  rw [List.mem_singleton.mp hfield]
  exact ⟨_, rfl, by decide, trivial⟩

/-- A call without members. -/
def bareCall : AddCall where
  kind := .reported
  fields := []
  behind := fun _ => none
  length_le := Nat.zero_le _

theorem not_holdsDocument_bareCall :
    IsVerbatim (ascii "dev") ∧ (∀ field ∈ bareCall.fields, field.IsSimple) ∧
      buildDocument 1 100 (clientToken (ascii "dev") 0) [bareCall] =
        some (.ok
          (ascii "\x7b\"state\":\x7b\"reported\":\x7d\x7d, \"clientToken\":\"dev-0\"\x7d")) ∧
      readDocument
        (ascii "\x7b\"state\":\x7b\"reported\":\x7d\x7d, \"clientToken\":\"dev-0\"\x7d") =
        none := by
  refine ⟨by decide, ?_, ?_, by decide⟩
  · intro field hfield
    cases hfield
  · rw [clientToken, printToken, ascii_toString]
    rfl

end MqttClient.Shadow
