import MqttClient.Effect.Logging
import MqttClient.Shadow.Builder

/-! # The builders, write by write

What a member needs is printed in two pieces, and both are printed with the room that was
there before the first. Here it is recorded where the pieces go.
-/

open Text

namespace MqttClient.Shadow

open Effect Logging

/-! ## Printing into the buffer -/

/-- Bytes that are written to the document's buffer, from an index on. -/
structure BufferWrite where
  index : Int
  bytes : List UInt8

/-- No byte goes to an index from this on. -/
def BufferWrite.IsBelow (write : BufferWrite) (size : Nat) : Prop :=
  write.index + write.bytes.length ≤ size

/-- Code that prints into the buffer. -/
abbrev Printer := Logging BufferWrite IotError

namespace Printer

/-- A computation that does not write. -/
def quietly {α : Type} : Except IotError α → Printer α
  | .ok a => pure a
  | .error rc => throw rc

/-- What `snprintf` writes: as much as there is room for, and a terminator. -/
def printed (pos : Int) (size : Nat) (text : List UInt8) : List BufferWrite :=
  if size = 0 then [] else [⟨pos, text.take (size - 1) ++ [0]⟩]

/-- `snprintf(pJsonDocument + pos, size, ..)` and the check of what it returns: the string that
is in the buffer then. What goes in front of the buffer is no part of the string. -/
def printAt (doc : List UInt8) (pos : Int) (size : Nat) (text : List UInt8) :
    Printer (List UInt8) := do
  log (printed pos size text)
  quietly ((snprintfAt doc pos.toNat size text).map fun doc => doc.drop (-pos).toNat)

/-- A piece behind what is in the buffer. -/
def printEnd (doc : List UInt8) (size : Nat) (text : List UInt8) : Printer (List UInt8) :=
  printAt doc doc.length size text

/-- A piece in the place of the last character. -/
def printLast (doc : List UInt8) (size : Nat) (text : List UInt8) : Printer (List UInt8) :=
  printAt doc (doc.length - 1) size text

/-- `aws_iot_shadow_init_json_document`. -/
def printInit (maxSizeOfJsonDocument : Nat) : Printer (List UInt8) :=
  printAt [] 0 maxSizeOfJsonDocument (ascii "\x7b\"state\":\x7b")

end Printer

/-- What `pData` of a `jsonStruct_t` points to, if it is set. Of an object nothing is printed. -/
inductive ArgumentData where
  | null
  | object
  | value (type : JsonPrimitiveType) (data : type.Data)

/-- What is printed of a value, if there is one. -/
def ArgumentData.text : ArgumentData → Option (List UInt8)
  | .null => none
  | .object => some []
  | .value type data => some (convertDataToString type data)

/-- A `jsonStruct_t` that is an argument. -/
structure JsonArgument where
  key : List UInt8
  data : ArgumentData

namespace JsonArgument

def keyText (arg : JsonArgument) : List UInt8 :=
  ascii "\"" ++ arg.key.takeWhile (· ≠ 0) ++ ascii "\":"

/-- A member of which everything is set. -/
def ofField (field : Field) : JsonArgument := ⟨field.key, .value field.type field.data⟩

end JsonArgument

namespace Printer

/-- The part of a turn behind the key. -/
def printData (doc : List UInt8) (remSize : Nat) : ArgumentData → Printer (List UInt8 × Nat)
  | .null => throw .nullValueError
  | .object => return (doc, remSize)
  | .value type data => do
      let doc ← printEnd doc remSize (convertDataToString type data)
      return (doc, remSize)

/-- The body of the loop of `aws_iot_shadow_add_desired` and its sibling. -/
def printField (maxSizeOfJsonDocument : Nat) (doc : List UInt8) :
    Option JsonArgument → Printer (List UInt8 × Nat)
  | none => do
      let _ ← quietly (ensureRoom maxSizeOfJsonDocument doc)
      throw .nullValueError
  | some arg => do
      let remSize ← quietly (ensureRoom maxSizeOfJsonDocument doc)
      let doc ← printEnd doc remSize arg.keyText
      printData doc remSize arg.data

/-- The loop, from its turn `i` on, and the brace behind it. It is none while the loop goes on. -/
def printFields (maxSizeOfJsonDocument : Nat) (count : UInt8) (pArgs : Nat → Option JsonArgument) :
    Nat → Nat → List UInt8 × Nat → Printer (Option (List UInt8))
  | 0, _, _ => return none
  | fuel + 1, i, (doc, remSize) =>
      if (Int8.ofNat i).toInt < count.toNat then do
        let next ← printField maxSizeOfJsonDocument doc (pArgs i)
        printFields maxSizeOfJsonDocument count pArgs fuel (i + 1) next
      else do
        let doc ← printLast doc remSize (ascii "\x7d,")
        return some doc

/-- `aws_iot_shadow_add_desired` and `aws_iot_shadow_add_reported`. -/
def printSection (name : List UInt8) (fuel maxSizeOfJsonDocument : Nat) (doc : List UInt8)
    (count : UInt8) (pArgs : Nat → Option JsonArgument) : Printer (Option (List UInt8)) := do
  let remSize ← quietly (ensureRoom maxSizeOfJsonDocument doc)
  let doc ← printEnd doc remSize (ascii "\"" ++ name ++ ascii "\":\x7b")
  printFields maxSizeOfJsonDocument count pArgs fuel 0 (doc, remSize)

/-- `aws_iot_finalize_json_document`, with the client token that it prints. -/
def printFinal (maxSizeOfJsonDocument : Nat) (doc token : List UInt8) : Printer (List UInt8) := do
  let remSize ← quietly (ensureRoom maxSizeOfJsonDocument doc)
  let doc ← printLast doc remSize (ascii "\x7d, \"clientToken\":\"")
  let remSize ← quietly (ensureRoom maxSizeOfJsonDocument doc)
  let doc ← printEnd doc remSize token
  let remSize ← quietly (ensureRoom maxSizeOfJsonDocument doc)
  printEnd doc remSize (ascii "\"\x7d")

/-! ## What is logged -/

section Rules

variable {α β : Type} {p : Printer α} {g : α → Printer β} {maxSize size : Nat}
  {doc text : List UInt8}

/-- What prints nothing logs nothing. -/
theorem logs_quietly (r : Except IotError α) : (quietly r).Logs r [] := by
  cases r with
  | ok a => exact logs_pure a
  | error rc => exact logs_throw rc

/-- Printing logs the bytes that `snprintf` writes, wherever they go. -/
theorem logs_printAt (doc : List UInt8) (pos : Int) (size : Nat) (text : List UInt8) :
    (printAt doc pos size text).Logs
      ((snprintfAt doc pos.toNat size text).map fun doc => doc.drop (-pos).toNat)
      (printed pos size text) := by
  have hlogs := (logs_log (printed pos size text) (ε := IotError)).bind (g := fun _ => quietly
    ((snprintfAt doc pos.toNat size text).map fun doc => doc.drop (-pos).toNat)) (logs_quietly _)
  rw [List.append_nil] at hlogs
  exact hlogs

/-- The code only adds to the log. -/
def Adds (p : Printer α) : Prop := ∃ r xs, p.Logs r xs

/-- What is logged by one part and then by the other is added to what was there. -/
theorem Adds.bind (hp : p.Adds) (hg : ∀ a, (g a).Adds) : (p >>= g).Adds := by
  obtain ⟨r, xs, hp⟩ := hp
  cases r with
  | error rc => exact ⟨_, _, hp.bind_error⟩
  | ok a =>
      obtain ⟨r', ys, hlogs⟩ := hg a
      exact ⟨_, _, hp.bind hlogs⟩

theorem adds_pure (a : α) : Adds (pure a) := ⟨_, _, logs_pure a⟩

theorem adds_throw (rc : IotError) : Adds (throw rc : Printer α) := ⟨_, _, logs_throw rc⟩

theorem adds_quietly (r : Except IotError α) : Adds (quietly r) := ⟨_, _, logs_quietly r⟩

theorem adds_printAt (doc : List UInt8) (pos : Int) (size : Nat) (text : List UInt8) :
    Adds (printAt doc pos size text) := ⟨_, _, logs_printAt doc pos size text⟩

theorem adds_printField (maxSize : Nat) (doc : List UInt8) (arg : Option JsonArgument) :
    Adds (printField maxSize doc arg) := by
  cases arg with
  | none => exact (adds_quietly _).bind fun _ => adds_throw _
  | some arg =>
      apply (adds_quietly _).bind
      intro remSize
      apply (adds_printAt _ _ _ _).bind
      intro keyed
      rw [printData.eq_def]
      split
      · exact adds_throw _
      · exact adds_pure _
      · exact (adds_printAt _ _ _ _).bind fun _ => adds_pure _

/-- The loop over the fields only adds to the log; by induction on its turns. -/
theorem adds_printFields (maxSize : Nat) (count : UInt8) (pArgs : Nat → Option JsonArgument)
    (fuel i : Nat) (start : List UInt8 × Nat) :
    Adds (printFields maxSize count pArgs fuel i start) := by
  induction fuel generalizing i start with
  | zero => exact adds_pure none
  | succ fuel ih =>
      rw [printFields]
      split
      · exact (adds_printField _ _ _).bind fun next => ih _ next
      · exact (adds_printAt _ _ _ _).bind fun _ => adds_pure _

end Rules

/-! ## What is returned -/

section Returns

variable {α β : Type} {p : Printer α} {g : α → Printer β} {r : Except IotError α}
  {f : α → Except IotError β} {maxSize size : Nat} {doc text : List UInt8}

/-- The code returns this, whatever it writes. -/
def Returns (p : Printer α) (r : Except IotError α) : Prop := ∃ xs, p.Logs r xs

/-- Two printers return what the two functions return, one after the other. -/
theorem Returns.bind (hp : Returns p r) (hg : ∀ a, r = .ok a → Returns (g a) (f a)) :
    Returns (p >>= g) (r >>= f) := by
  obtain ⟨xs, hp⟩ := hp
  cases r with
  | error rc => exact ⟨xs, hp.bind_error⟩
  | ok a =>
      obtain ⟨ys, hlogs⟩ := hg a rfl
      exact ⟨xs ++ ys, hp.bind hlogs⟩

theorem returns_quietly (r : Except IotError α) : Returns (quietly r) r := ⟨_, logs_quietly r⟩

/-- Printing behind the document returns the document with the text behind it. -/
theorem returns_printEnd (doc : List UInt8) (size : Nat) (text : List UInt8) :
    Returns (printEnd doc size text) (snprintfAt doc doc.length size text) := by
  have hlogs := logs_printAt doc doc.length size text
  have hfront : (-(doc.length : Int)).toNat = 0 := by omega
  rw [Int.toNat_natCast, hfront] at hlogs
  cases hprint : snprintfAt doc doc.length size text with
  | error rc | ok s => exact ⟨_, hprint ▸ hlogs⟩

/-- Printing over the last byte returns the document with that byte replaced. -/
theorem returns_printLast (hdoc : doc ≠ []) (size : Nat) (text : List UInt8) :
    Returns (printLast doc size text) (snprintfAt doc (doc.length - 1) size text) := by
  have hlogs := logs_printAt doc (doc.length - 1) size text
  have hpos := List.length_pos_iff.mpr hdoc
  have hlast : ((doc.length : Int) - 1).toNat = doc.length - 1 := by omega
  have hfront : (-((doc.length : Int) - 1)).toNat = 0 := by omega
  rw [hlast, hfront] at hlogs
  cases hprint : snprintfAt doc (doc.length - 1) size text with
  | error rc | ok s => exact ⟨_, hprint ▸ hlogs⟩

/-- Where everything is set a turn returns what `addField` does. -/
theorem returns_printField (maxSize : Nat) (doc : List UInt8) (field : Option Field) :
    Returns (printField maxSize doc (field.map JsonArgument.ofField))
      (addField maxSize doc field) := by
  cases field with
  | none => exact (returns_quietly _).bind fun _ _ => ⟨_, logs_throw _⟩
  | some field =>
      apply (returns_quietly _).bind
      intro remSize _
      apply (returns_printEnd _ _ _).bind
      intro keyed _
      exact (returns_printEnd _ _ _).bind fun _ _ => ⟨_, logs_pure _⟩

/-- What has come of a loop so far. -/
def ended {α : Type} : Option (Except IotError α) → Except IotError (Option α)
  | none => .ok none
  | some r => r.map some

/-- The loop over the fields returns what the loop on documents returns. -/
theorem returns_printFields (maxSize : Nat) (count : UInt8) (pArgs : Nat → Option Field)
    (fuel i : Nat) {start : List UInt8 × Nat} (hstart : start.1 ≠ []) :
    Returns (printFields maxSize count (fun i => (pArgs i).map JsonArgument.ofField) fuel i start)
      (ended ((addFields maxSize count pArgs fuel i start).map fun r => do
        let (doc, remSize) ← r
        snprintfAt doc (doc.length - 1) remSize (ascii "\x7d,"))) := by
  induction fuel generalizing i start with
  | zero => exact ⟨_, logs_pure none⟩
  | succ fuel ih =>
      obtain ⟨doc, remSize⟩ := start
      rw [printFields, addFields]
      split
      · cases hfield : addField maxSize doc (pArgs i) with
        | error rc =>
            obtain ⟨xs, hlogs⟩ := returns_printField maxSize doc (pArgs i)
            rw [hfield] at hlogs
            exact ⟨xs, hlogs.bind_error⟩
        | ok next =>
            obtain ⟨xs, hlogs⟩ := returns_printField maxSize doc (pArgs i)
            rw [hfield] at hlogs
            -- the next piece is printed behind this one
            have hnext : next.1 ≠ [] := by
              cases hargument : pArgs i with
              | none =>
                  rw [hargument] at hfield
                  obtain ⟨_, _, hnull⟩ := exists_of_bind_ok hfield
                  cases hnull
              | some field =>
                  rw [hargument] at hfield
                  rw [eq_of_addField hfield]
                  exact List.append_ne_nil_of_left_ne_nil hstart _
            obtain ⟨ys, hrest⟩ := ih (i + 1) hnext
            exact ⟨xs ++ ys, hlogs.bind hrest⟩
      · obtain ⟨xs, hlogs⟩ := returns_printLast hstart remSize (ascii "\x7d,")
        exact ⟨xs, hlogs.map some⟩

/-- With members of which everything is set the functions are those that build documents. -/
theorem returns_printSection (name : List UInt8) (fuel maxSize : Nat) (doc : List UInt8)
    (count : UInt8) (pArgs : Nat → Option Field) :
    Returns (printSection name fuel maxSize doc count fun i => (pArgs i).map JsonArgument.ofField)
      (ended (addSection name fuel maxSize doc count pArgs)) := by
  -- what is in front of the fields, with its writes and without them
  let opening : Printer (List UInt8 × Nat) := do
    let remSize ← quietly (ensureRoom maxSize doc)
    let doc ← printEnd doc remSize (ascii "\"" ++ name ++ ascii "\":\x7b")
    return (doc, remSize)
  let opened : Except IotError (List UInt8 × Nat) := do
    let remSize ← ensureRoom maxSize doc
    let doc ← snprintfAt doc doc.length remSize (ascii "\"" ++ name ++ ascii "\":\x7b")
    return (doc, remSize)
  have hsplit : printSection name fuel maxSize doc count
      (fun i => (pArgs i).map JsonArgument.ofField) = opening >>= fun start =>
        printFields maxSize count (fun i => (pArgs i).map JsonArgument.ofField) fuel 0 start := by
    simp only [opening, printSection, bind_assoc, pure_bind]
  have hopening : Returns opening opened := by
    apply (returns_quietly _).bind
    intro remSize _
    exact (returns_printEnd _ _ _).bind fun _ _ => ⟨_, logs_pure _⟩
  obtain ⟨xs, hlogs⟩ := hopening
  rw [hsplit]
  unfold addSection
  dsimp only
  split
  next rc herror =>
      have hopened : opened = .error rc := herror
      exact ⟨xs, (hopened ▸ hlogs).bind_error⟩
  next start hok =>
      have hopened : opened = .ok start := hok
      have hstart : start.1 ≠ [] := by
        obtain ⟨_, _, hopened⟩ := exists_of_bind_ok hopened
        obtain ⟨named, hname, hpair⟩ := exists_of_bind_ok hopened
        cases hpair
        rw [eq_of_snprintfAt_end hname]
        exact List.append_ne_nil_of_right_ne_nil _
          (List.append_ne_nil_of_right_ne_nil _ (by decide))
      obtain ⟨ys, hrest⟩ := returns_printFields maxSize count pArgs fuel 0 hstart
      exact ⟨xs ++ ys, (hopened ▸ hlogs).bind hrest⟩

/-- The end of a document is the one that the function on documents makes. -/
theorem returns_printFinal (maxSize : Nat) {doc : List UInt8} (hdoc : doc ≠ [])
    (token : List UInt8) :
    Returns (printFinal maxSize doc token) (finalizeJsonDocument maxSize doc token) := by
  apply (returns_quietly _).bind
  intro remSize _
  apply (returns_printLast hdoc _ _).bind
  intro closed _
  apply (returns_quietly _).bind
  intro remSize' _
  apply (returns_printEnd _ _ _).bind
  intro named _
  exact (returns_quietly _).bind fun _ _ => returns_printEnd _ _ _

/-- So is its beginning. -/
theorem returns_printInit (maxSize : Nat) :
    Returns (printInit maxSize) (initJsonDocument maxSize) := returns_printEnd [] maxSize _

end Returns

/-! ## Where it goes -/

section Bounds

variable {maxSize size : Nat} {doc text : List UInt8}

/-- The writes stay below a bound exactly if the last of them does. -/
theorem printed_below_iff {pos : Int} (hsize : 0 < size) :
    (∀ write ∈ printed pos size text, write.IsBelow maxSize) ↔
      pos + (min text.length (size - 1) : Nat) + 1 ≤ maxSize := by
  rw [printed, if_neg hsize.ne', List.forall_mem_singleton]
  change pos + ((text.take (size - 1) ++ [0]).length : Int) ≤ maxSize ↔ _
  rw [List.length_append, List.length_take, List.length_singleton, Nat.min_comm]
  omega

/-- What is printed with the room that there is stays in it. -/
theorem printed_below {pos : Int} (hpos : pos + size ≤ maxSize) :
    ∀ write ∈ printed pos size text, write.IsBelow maxSize := by
  rcases Nat.eq_zero_or_pos size with rfl | hsize
  · exact List.forall_mem_nil _
  · apply (printed_below_iff hsize).mpr
    omega

/-- A print that has succeeded had room for the text and its terminator. -/
theorem lt_of_success (h : checkReturnValueOfSnPrintf text.length size = .success) :
    text.length < size := by
  unfold checkReturnValueOfSnPrintf at h
  split_ifs at h
  omega

/-- Such a print puts the text in its place. -/
theorem snprintfAt_of_success {pos : Nat}
    (h : checkReturnValueOfSnPrintf text.length size = .success) :
    snprintfAt doc pos size text = .ok (doc.take pos ++ text) := by
  have hlength := lt_of_success h
  rw [snprintfAt, h]
  exact congrArg (fun text => Except.ok (doc.take pos ++ text)) (List.take_of_length_le (by omega))

/-- Any other print fails, with the code for its return value. -/
theorem snprintfAt_of_ne {pos : Nat}
    (h : checkReturnValueOfSnPrintf text.length size ≠ .success) :
    snprintfAt doc pos size text = .error (checkReturnValueOfSnPrintf text.length size) :=
  if_neg h

theorem logs_printEnd_of_success (h : checkReturnValueOfSnPrintf text.length size = .success) :
    (printEnd doc size text).Logs (.ok (doc ++ text)) (printed doc.length size text) := by
  have hlogs := logs_printAt doc doc.length size text
  rw [Int.toNat_natCast, snprintfAt_of_success h, List.take_length] at hlogs
  have hfront : (-(doc.length : Int)).toNat = 0 := by omega
  rw [hfront] at hlogs
  exact hlogs

/-- A print that was cut off has written all the same. -/
theorem logs_printEnd_of_ne (h : checkReturnValueOfSnPrintf text.length size ≠ .success) :
    (printEnd doc size text).Logs (.error (checkReturnValueOfSnPrintf text.length size))
      (printed doc.length size text) := by
  have hlogs := logs_printAt doc doc.length size text
  rw [Int.toNat_natCast, snprintfAt_of_ne h] at hlogs
  exact hlogs

/-- A piece in the place of the last character, or of the one in front of the buffer. -/
theorem logs_printLast_of_success (htext : text ≠ [])
    (h : checkReturnValueOfSnPrintf text.length size = .success) :
    ∃ s, (printLast doc size text).Logs (.ok s) (printed (doc.length - 1) size text) ∧
      s.length + 1 = doc.length + text.length := by
  have hlogs := logs_printAt doc (doc.length - 1) size text
  rw [snprintfAt_of_success h] at hlogs
  refine ⟨_, hlogs, ?_⟩
  have hpos := List.length_pos_iff.mpr htext
  rw [List.length_drop, List.length_append, List.length_take]
  omega

theorem logs_printLast_of_ne (h : checkReturnValueOfSnPrintf text.length size ≠ .success) :
    (printLast doc size text).Logs (.error (checkReturnValueOfSnPrintf text.length size))
      (printed (doc.length - 1) size text) := by
  have hlogs := logs_printAt doc (doc.length - 1) size text
  rw [snprintfAt_of_ne h] at hlogs
  exact hlogs

/-- The room is what is left behind the document, and one byte of it is not enough. -/
theorem ensureRoom_eq (hdoc : doc.length < maxSize) (hmax : maxSize < 2 ^ 64) :
    ensureRoom maxSize doc =
      if maxSize - doc.length ≤ 1 then .error .shadowJsonError else .ok (maxSize - doc.length) := by
  have hroom : roomLeft maxSize doc = maxSize - doc.length := by
    rw [roomLeft]
    omega
  rw [ensureRoom, hroom]

theorem logs_ensureRoom (hdoc : doc.length < maxSize) (hmax : maxSize < 2 ^ 64)
    (hroom : 1 < maxSize - doc.length) :
    (quietly (ensureRoom maxSize doc)).Logs (.ok (maxSize - doc.length)) [] := by
  rw [ensureRoom_eq hdoc hmax, if_neg hroom.not_ge]
  exact logs_pure _

theorem logs_ensureRoom_of_le (hdoc : doc.length < maxSize) (hmax : maxSize < 2 ^ 64)
    (hroom : maxSize - doc.length ≤ 1) :
    (quietly (ensureRoom maxSize doc)).Logs (.error .shadowJsonError) [] := by
  rw [ensureRoom_eq hdoc hmax, if_pos hroom]
  exact logs_throw _

end Bounds

end Printer

/-! ## Turns of the loop -/

/-- How a turn ends: with an error, with more in the buffer, or with a value that does not fit
where its key does. -/
inductive Turn where
  | refused
  | printed (text : List UInt8)
  | overshot

def JsonArgument.text : Option JsonArgument → List UInt8
  | none => []
  | some arg => arg.keyText ++ arg.data.text.getD []

/-- How a turn ends where there is this much room. -/
def JsonArgument.turn (room : Nat) : Option JsonArgument → Turn
  | none => .refused
  | some arg =>
      if checkReturnValueOfSnPrintf arg.keyText.length room = .success then
        match arg.data.text with
        | none => .refused
        | some text =>
            if arg.keyText.length + text.length < room then
              if checkReturnValueOfSnPrintf text.length room = .success then
                .printed (arg.keyText ++ text)
              else .refused
            else .overshot
      else .refused

/-- In so many turns, from turn `i` on, no value overshoots, and where the loop ends one more
character has room. -/
def KeepsRoom (count : UInt8) (pArgs : Nat → Option JsonArgument) : Nat → Nat → Nat → Prop
  | 0, _, _ => True
  | turns + 1, i, room =>
      if (Int8.ofNat i).toInt < count.toNat then
        match JsonArgument.turn room (pArgs i) with
        | .refused => True
        | .printed text => KeepsRoom count pArgs turns (i + 1) (room - text.length)
        | .overshot => False
      else 1 < room

/-- What a turn prints is the text of its field. -/
theorem JsonArgument.text_of_turn {room : Nat} {arg : Option JsonArgument} {text : List UInt8}
    (h : turn room arg = .printed text) : text = JsonArgument.text arg := by
  cases arg with
  | none => cases h
  | some arg =>
      rw [turn] at h
      split at h
      · split at h
        next => cases h
        next value hvalue =>
            split_ifs at h
            cases h
            rw [JsonArgument.text, hvalue]
            rfl
      · cases h

namespace Printer

section Turns

variable {maxSize : Nat} {doc : List UInt8}

/-- The key alone takes three bytes at least. -/
theorem length_keyText (arg : JsonArgument) : 3 ≤ arg.keyText.length := by
  rw [JsonArgument.keyText, List.length_append, List.length_append]
  change 3 ≤ 1 + _ + 2
  omega

/-- Where there is a value, it is printed behind the key with the room that was there before. -/
theorem logs_printData (room : Nat) {data : ArgumentData} {text : List UInt8}
    (hdoc : doc.length < maxSize) (hroom : 0 < room) (htext : data.text = some text) :
    ∃ r xs, (printData doc room data).Logs r xs ∧
      ((∀ write ∈ xs, write.IsBelow maxSize) ↔
        doc.length + min text.length (room - 1) < maxSize) ∧
      r = if checkReturnValueOfSnPrintf text.length room = .success then .ok (doc ++ text, room)
        else .error (checkReturnValueOfSnPrintf text.length room) := by
  cases data with
  | null => cases htext
  | object =>
      cases htext
      have hempty : checkReturnValueOfSnPrintf 0 room = .success := by
        rw [checkReturnValueOfSnPrintf, if_neg (by decide), if_neg (by omega)]
      refine ⟨_, _, logs_pure _, iff_of_true (List.forall_mem_nil _) ?_, ?_⟩
      · rw [List.length_nil, Nat.zero_min]
        exact hdoc
      · rw [List.length_nil, if_pos hempty, List.append_nil]
  | value type data =>
      cases htext
      have hbelow : (∀ write ∈ printed doc.length room (convertDataToString type data),
          write.IsBelow maxSize) ↔ _ := printed_below_iff hroom
      split_ifs with hcheck
      · refine ⟨_, _, (logs_printEnd_of_success hcheck).map _, hbelow.trans ?_, rfl⟩
        omega
      · refine ⟨_, _, (logs_printEnd_of_ne hcheck).map _, hbelow.trans ?_, rfl⟩
        omega

/-- A turn that begins inside the buffer does what is said of it. -/
theorem logs_printField (hdoc : doc.length < maxSize) (hmax : maxSize < 2 ^ 64)
    (arg : Option JsonArgument) :
    match JsonArgument.turn (maxSize - doc.length) arg with
    | .refused => ∃ rc xs, (printField maxSize doc arg).Logs (.error rc) xs ∧
        ∀ write ∈ xs, write.IsBelow maxSize
    | .printed text => 3 ≤ text.length ∧ text.length < maxSize - doc.length ∧
        ∃ xs, (printField maxSize doc arg).Logs (.ok (doc ++ text, maxSize - doc.length)) xs ∧
          ∀ write ∈ xs, write.IsBelow maxSize
    | .overshot => ∃ r xs, (printField maxSize doc arg).Logs r xs ∧
        ¬ ∀ write ∈ xs, write.IsBelow maxSize := by
  rcases Nat.lt_or_ge 1 (maxSize - doc.length) with hroom | hroom
  swap
  · -- not even the quotation marks of a key would fit
    have hrefused : JsonArgument.turn (maxSize - doc.length) arg = .refused := by
      cases arg with
      | none => rfl
      | some arg =>
          apply if_neg
          intro hkey
          have hthree := length_keyText arg
          have hlt := lt_of_success hkey
          omega
    rw [hrefused]
    have hstart := logs_ensureRoom_of_le hdoc hmax hroom
    refine ⟨.shadowJsonError, [], ?_, List.forall_mem_nil _⟩
    cases arg with
    | none | some arg => exact hstart.bind_error
  have hstart := logs_ensureRoom hdoc hmax hroom
  cases arg with
  | none => exact ⟨.nullValueError, [], hstart.bind (logs_throw _), List.forall_mem_nil _⟩
  | some arg =>
      have hthree := length_keyText arg
      rw [JsonArgument.turn]
      split_ifs with hkey
      · have hprint : (printEnd doc (maxSize - doc.length) arg.keyText).Logs _ _ :=
          logs_printEnd_of_success hkey
        have hbelow : ∀ write ∈ printed doc.length (maxSize - doc.length) arg.keyText,
            write.IsBelow maxSize := printed_below (by omega)
        have hkeyed := lt_of_success hkey
        have hlength : (doc ++ arg.keyText).length = doc.length + arg.keyText.length :=
          List.length_append
        -- the key is in the buffer; its value decides
        cases htext : arg.data.text with
        | none =>
            have hnull : arg.data = .null := by
              cases hdata : arg.data with
              | null => rfl
              | object | value => rw [hdata] at htext; cases htext
            have hthrow : (printData (doc ++ arg.keyText) (maxSize - doc.length) arg.data).Logs
                (.error .nullValueError) [] := hnull ▸ logs_throw _
            refine ⟨_, _, hstart.bind (hprint.bind hthrow), ?_⟩
            rw [List.nil_append, List.append_nil]
            exact hbelow
        | some text =>
            have hkeyedDoc : (doc ++ arg.keyText).length < maxSize := by omega
            obtain ⟨r, xs, hdata, hiff, hr⟩ :=
              logs_printData (maxSize - doc.length) hkeyedDoc (by omega) htext
            have hwhole : (printField maxSize doc (some arg)).Logs r _ :=
              hstart.bind (hprint.bind hdata)
            rw [List.nil_append] at hwhole
            dsimp only
            split_ifs with hfits hcheck
            · rw [if_pos hcheck, List.append_assoc] at hr
              have hxs : ∀ write ∈ xs, write.IsBelow maxSize := hiff.mpr (by omega)
              refine ⟨?_, ?_, _, hr ▸ hwhole, List.forall_mem_append.mpr ⟨hbelow, hxs⟩⟩
              · rw [List.length_append]
                omega
              · rw [List.length_append]
                exact hfits
            · rw [if_neg hcheck] at hr
              have hxs : ∀ write ∈ xs, write.IsBelow maxSize := hiff.mpr (by omega)
              exact ⟨_, _, hr ▸ hwhole, List.forall_mem_append.mpr ⟨hbelow, hxs⟩⟩
            · refine ⟨_, _, hwhole, ?_⟩
              intro hall
              have hlast := hiff.mp (List.forall_mem_append.mp hall).2
              omega
      · have hprint : (printEnd doc (maxSize - doc.length) arg.keyText).Logs _ _ :=
          logs_printEnd_of_ne hkey
        exact ⟨_, _, hstart.bind hprint.bind_error, printed_below (by omega)⟩

variable {count : UInt8} {pArgs : Nat → Option JsonArgument} {remSize i : Nat}

/-- The brace behind the loop and the comma, of which the room of the last turn is not short. -/
theorem logs_printFields_end (hthree : 3 ≤ remSize) (fuel : Nat)
    (hend : ¬ (Int8.ofNat i).toInt < count.toNat) :
    ∃ s, (printFields maxSize count pArgs (fuel + 1) i (doc, remSize)).Logs (.ok (some s))
        (printed (doc.length - 1) remSize (ascii "\x7d,")) ∧
      s.length = doc.length + 1 ∧
      ((∀ write ∈ printed (doc.length - 1) remSize (ascii "\x7d,"), write.IsBelow maxSize) ↔
        doc.length + 1 < maxSize) := by
  have hcheck : checkReturnValueOfSnPrintf (ascii "\x7d,").length remSize = .success := by
    change checkReturnValueOfSnPrintf 2 remSize = .success
    rw [checkReturnValueOfSnPrintf, if_neg (by decide), if_neg (by omega)]
  have hne : ascii "\x7d," ≠ [] := by decide
  obtain ⟨s, hlogs, hlength⟩ : ∃ s, (printLast doc remSize (ascii "\x7d,")).Logs (.ok s) _ ∧ _ :=
    logs_printLast_of_success hne hcheck
  have htwo : (ascii "\x7d,").length = 2 := rfl
  refine ⟨s, ?_, by omega, ?_⟩
  · rw [printFields, if_neg hend]
    exact hlogs.map some
  · rw [printed_below_iff (by omega), htwo]
    omega

/-- The turns that are left stay below the end of the buffer just when they keep room. -/
theorem below_printFields_iff (hmax : maxSize < 2 ^ 64) (fuel : Nat) (hdoc : doc.length < maxSize)
    (hthree : 3 ≤ remSize) :
    ∃ r xs, (printFields maxSize count pArgs fuel i (doc, remSize)).Logs r xs ∧
      ((∀ write ∈ xs, write.IsBelow maxSize) ↔
        KeepsRoom count pArgs fuel i (maxSize - doc.length)) := by
  induction fuel generalizing i doc remSize with
  | zero => exact ⟨_, _, logs_pure none, iff_of_true (List.forall_mem_nil _) trivial⟩
  | succ fuel ih =>
      by_cases hturn : (Int8.ofNat i).toInt < count.toNat
      · have hfield := logs_printField hdoc hmax (pArgs i)
        rw [printFields, if_pos hturn, KeepsRoom, if_pos hturn]
        cases hend : JsonArgument.turn (maxSize - doc.length) (pArgs i) with
        | refused =>
            rw [hend] at hfield
            obtain ⟨rc, xs, hlogs, hbelow⟩ := hfield
            exact ⟨_, _, hlogs.bind_error, iff_of_true hbelow trivial⟩
        | printed text =>
            rw [hend] at hfield
            obtain ⟨htext, hfits, xs, hlogs, hbelow⟩ := hfield
            have hlength : (doc ++ text).length = doc.length + text.length := List.length_append
            obtain ⟨r, ys, hrest, hiff⟩ : ∃ r ys, (printFields maxSize count pArgs fuel (i + 1)
                (doc ++ text, maxSize - doc.length)).Logs r ys ∧ _ := ih (by omega) (by omega)
            refine ⟨r, xs ++ ys, hlogs.bind hrest, ?_⟩
            rw [List.forall_mem_append, and_iff_right hbelow, hiff, hlength, Nat.sub_add_eq]
        | overshot =>
            rw [hend] at hfield
            obtain ⟨r, xs, hlogs, hover⟩ := hfield
            -- what follows does not undo a write past the end
            cases r with
            | error rc => exact ⟨_, _, hlogs.bind_error, iff_of_false hover not_false⟩
            | ok next =>
                obtain ⟨r', ys, hrest⟩ := adds_printFields maxSize count pArgs fuel (i + 1) next
                refine ⟨r', xs ++ ys, hlogs.bind hrest, iff_of_false ?_ not_false⟩
                exact fun hall => hover (List.forall_mem_append.mp hall).1
      · obtain ⟨s, hlogs, -, hiff⟩ : ∃ s, (printFields maxSize count pArgs (fuel + 1) i
            (doc, remSize)).Logs (.ok (some s)) _ ∧ _ ∧ (_ ↔ doc.length + 1 < maxSize) :=
          logs_printFields_end hthree fuel hturn
        refine ⟨_, _, hlogs, hiff.trans ?_⟩
        rw [KeepsRoom, if_neg hturn]
        omega

/-- Where room is kept the loop comes to an end, with an error or with the members printed. -/
theorem ends_printFields (hmax : maxSize < 2 ^ 64) {args : List (Option JsonArgument)}
    (hargs : ∀ i (h : i < args.length), pArgs i = args[i]) (hcount : count.toNat = args.length)
    (hdoc : doc.length < maxSize) (hthree : 3 ≤ remSize) (hi : args.length < 128 → i ≤ args.length)
    (hkeeps : ∀ turns, KeepsRoom count pArgs turns i (maxSize - doc.length)) :
    ∃ fuel r xs, (printFields maxSize count pArgs fuel i (doc, remSize)).Logs r xs ∧
      r ≠ .ok none ∧ ∀ s, r = .ok (some s) → s.length < maxSize ∧ args.length < 128 ∧
        s.length = doc.length + ((args.drop i).flatMap JsonArgument.text).length + 1 := by
  induction hroom : maxSize - doc.length using Nat.strong_induction_on
    generalizing doc remSize i with
  | _ room ih =>
      -- a turn prints three characters at least, so the room shrinks
      by_cases hturn : (Int8.ofNat i).toInt < count.toNat
      · have hfield := logs_printField hdoc hmax (pArgs i)
        have hnext := fun turns => hkeeps (turns + 1)
        simp only [KeepsRoom, if_pos hturn] at hnext
        cases hend : JsonArgument.turn (maxSize - doc.length) (pArgs i) with
        | refused =>
            rw [hend] at hfield
            obtain ⟨rc, xs, hlogs, -⟩ := hfield
            refine ⟨1, .error rc, xs, ?_, nofun, nofun⟩
            rw [printFields, if_pos hturn]
            exact hlogs.bind_error
        | overshot =>
            rw [hend] at hnext
            exact (hnext 0).elim
        | printed text =>
            rw [hend] at hfield hnext
            obtain ⟨htext, hfits, xs, hlogs, -⟩ := hfield
            have hlength : (doc ++ text).length = doc.length + text.length := List.length_append
            have hsucc : args.length < 128 → i < args.length := by
              intro hshort
              have hle := hi hshort
              rw [Int8.toInt_ofNat_of_lt (by omega), hcount] at hturn
              omega
            have hrestKeeps : ∀ turns,
                KeepsRoom count pArgs turns (i + 1) (maxSize - (doc ++ text).length) := by
              rw [hlength, Nat.sub_add_eq]
              exact hnext
            obtain ⟨fuel, r, ys, hrest, hne, hok⟩ : ∃ fuel r ys, (printFields maxSize count pArgs
                fuel (i + 1) (doc ++ text, maxSize - doc.length)).Logs r ys ∧ r ≠ .ok none ∧ _ :=
              ih (maxSize - (doc ++ text).length) (by omega) (by omega)
                (by omega) hsucc hrestKeeps rfl
            refine ⟨fuel + 1, r, xs ++ ys, ?_, hne, ?_⟩
            · rw [printFields, if_pos hturn]
              exact hlogs.bind hrest
            · intro s hs
              obtain ⟨hlt, hshort, hs'⟩ := hok s hs
              have htextOf : text = JsonArgument.text args[i] := by
                rw [← hargs i (hsucc hshort)]
                exact JsonArgument.text_of_turn hend
              refine ⟨hlt, hshort, ?_⟩
              rw [hs', hlength, List.drop_eq_getElem_cons (hsucc hshort), List.flatMap_cons,
                List.length_append, htextOf]
              omega
      · -- the counter has come to the number of the arguments, which it can hold
        have hle := (Int8.ofNat i).toInt_lt
        have hshort : args.length < 128 := by omega
        have hieq : i = args.length := by
          have hile := hi hshort
          rw [Int8.toInt_ofNat_of_lt (by omega)] at hturn
          omega
        obtain ⟨s, hlogs, hlength, -⟩ : ∃ s, (printFields maxSize count pArgs (0 + 1) i
            (doc, remSize)).Logs (.ok (some s)) _ ∧ _ ∧ (_ ↔ doc.length + 1 < maxSize) :=
          logs_printFields_end hthree 0 hturn
        refine ⟨1, _, _, hlogs, nofun, ?_⟩
        intro s' hs'
        cases hs'
        have hlast := hkeeps 1
        rw [KeepsRoom, if_neg hturn] at hlast
        refine ⟨by omega, hshort, ?_⟩
        rw [hieq, List.drop_length, List.flatMap_nil, List.length_nil, hlength]

end Turns

/-! ## The end of a document -/

section Final

variable {α β : Type} {maxSize : Nat} {doc text : List UInt8} {p : Printer α} {g : α → Printer β}
  {post : α → Prop} {post' : β → Prop}

/-- Nothing is written beyond the end of the buffer, and what is returned is as is said. -/
def Stays (maxSize : Nat) (p : Printer α) (post : α → Prop) : Prop :=
  ∃ r xs, p.Logs r xs ∧ (∀ write ∈ xs, write.IsBelow maxSize) ∧ ∀ a, r = .ok a → post a

/-- Parts that stay in the buffer stay in it one after the other. -/
theorem Stays.bind (hp : Stays maxSize p post) (hg : ∀ a, post a → Stays maxSize (g a) post') :
    Stays maxSize (p >>= g) post' := by
  obtain ⟨r, xs, hlogs, hbelow, hpost⟩ := hp
  cases r with
  | error rc => exact ⟨_, xs, hlogs.bind_error, hbelow, nofun⟩
  | ok a =>
      obtain ⟨r', ys, hlogs', hbelow', hpost'⟩ := hg a (hpost a rfl)
      exact ⟨r', xs ++ ys, hlogs.bind hlogs', List.forall_mem_append.mpr ⟨hbelow, hbelow'⟩, hpost'⟩

theorem Stays.mono (hp : Stays maxSize p post) {post' : α → Prop} (h : ∀ a, post a → post' a) :
    Stays maxSize p post' := by
  obtain ⟨r, xs, hlogs, hbelow, hpost⟩ := hp
  exact ⟨r, xs, hlogs, hbelow, fun a ha => h a (hpost a ha)⟩

/-- Looking at the room writes nothing. -/
theorem stays_ensureRoom (hdoc : doc.length < maxSize) (hmax : maxSize < 2 ^ 64) :
    Stays maxSize (quietly (ensureRoom maxSize doc)) (· = maxSize - doc.length) := by
  refine ⟨_, _, logs_quietly _, List.forall_mem_nil _, ?_⟩
  intro room hroom
  rw [ensureRoom_eq hdoc hmax] at hroom
  split_ifs at hroom
  exact (Except.ok.inj hroom).symm

/-- What is printed with the room that is left stays in the buffer. -/
theorem stays_printEnd (hdoc : doc.length < maxSize) (text : List UInt8) :
    Stays maxSize (printEnd doc (maxSize - doc.length) text) fun s =>
      s.length < maxSize ∧ s.length = doc.length + text.length := by
  have hbelow : ∀ write ∈ printed doc.length (maxSize - doc.length) text, write.IsBelow maxSize :=
    printed_below (by omega)
  by_cases hcheck : checkReturnValueOfSnPrintf text.length (maxSize - doc.length) = .success
  · refine ⟨_, _, logs_printEnd_of_success hcheck, hbelow, ?_⟩
    intro s hs
    cases hs
    have hlt := lt_of_success hcheck
    rw [List.length_append]
    omega
  · exact ⟨_, _, logs_printEnd_of_ne hcheck, hbelow, nofun⟩

/-- So does what is printed over the last byte. -/
theorem stays_printLast (hdoc : doc.length < maxSize) (htext : text ≠ []) :
    Stays maxSize (printLast doc (maxSize - doc.length) text) fun s =>
      s.length < maxSize ∧ s.length + 1 = doc.length + text.length := by
  have hbelow : ∀ write ∈ printed (doc.length - 1) (maxSize - doc.length) text,
      write.IsBelow maxSize := printed_below (by omega)
  by_cases hcheck : checkReturnValueOfSnPrintf text.length (maxSize - doc.length) = .success
  · obtain ⟨s, hlogs, hlength⟩ : ∃ s, (printLast doc _ text).Logs (.ok s) _ ∧ _ :=
      logs_printLast_of_success htext hcheck
    refine ⟨_, _, hlogs, hbelow, ?_⟩
    intro s' hs'
    cases hs'
    have hlt := lt_of_success hcheck
    omega
  · exact ⟨_, _, logs_printLast_of_ne hcheck, hbelow, nofun⟩

/-- The room is measured before each piece. -/
theorem stays_printFinal (hdoc : doc.length < maxSize) (hmax : maxSize < 2 ^ 64)
    (token : List UInt8) :
    Stays maxSize (printFinal maxSize doc token) fun s =>
      s.length < maxSize ∧ s.length = doc.length + token.length + 19 := by
  apply (stays_ensureRoom hdoc hmax).bind
  rintro _ rfl
  apply (stays_printLast hdoc (by decide)).bind
  rintro closed ⟨hclosed, hlength⟩
  apply (stays_ensureRoom hclosed hmax).bind
  rintro _ rfl
  apply (stays_printEnd hclosed token).bind
  rintro named ⟨hnamed, hlength'⟩
  apply (stays_ensureRoom hnamed hmax).bind
  rintro _ rfl
  apply (stays_printEnd hnamed _).mono
  rintro s ⟨hs, hlength''⟩
  refine ⟨hs, ?_⟩
  change closed.length + 1 = doc.length + 18 at hlength
  change s.length = named.length + 2 at hlength''
  omega

end Final

end Printer

/-! ## Calls -/

/-- A buffer with the room it has and the string in it. -/
structure JsonBuffer where
  maxSizeOfJsonDocument : Nat
  size_lt : maxSizeOfJsonDocument < 2 ^ 64
  document : List UInt8
  nonzero : 0 ∉ document
  terminated : document.length < maxSizeOfJsonDocument

/-- A call that adds a section: its arguments, as many as can be counted, and what is found behind
them. -/
structure SectionCall where
  kind : AddCall.Kind
  args : List (Option JsonArgument)
  behind : Nat → Option JsonArgument
  length_le : args.length ≤ 255

namespace SectionCall

def name (call : SectionCall) : List UInt8 :=
  match call.kind with
  | .desired => ascii "desired"
  | .reported => ascii "reported"

def pArgs (call : SectionCall) (i : Nat) : Option JsonArgument :=
  if h : i < call.args.length then call.args[i] else call.behind i

/-- What is printed in front of the members. -/
def opening (call : SectionCall) : List UInt8 := ascii "\"" ++ call.name ++ ascii "\":\x7b"

/-- No value overshoots the buffer where its key does not, and behind the last one there is room
for one more character. -/
def KeepsRoom (call : SectionCall) (buffer : JsonBuffer) : Prop :=
  let room := buffer.maxSizeOfJsonDocument - buffer.document.length
  call.opening.length < room → ∀ turns,
    Shadow.KeepsRoom (UInt8.ofNat call.args.length) call.pArgs turns 0 (room - call.opening.length)

end SectionCall

/-- The calls that build a document. -/
inductive BuilderCall where
  | init
  | add (call : SectionCall)
  | finalize (token : List UInt8)

namespace BuilderCall

def print (fuel maxSizeOfJsonDocument : Nat) (doc : List UInt8) :
    BuilderCall → Printer (Option (List UInt8))
  | init => do
      let doc ← Printer.printInit maxSizeOfJsonDocument
      return some doc
  | add call =>
      Printer.printSection call.name fuel maxSizeOfJsonDocument doc
        (UInt8.ofNat call.args.length) call.pArgs
  | finalize token => do
      let doc ← Printer.printFinal maxSizeOfJsonDocument doc token
      return some doc

/-- The text that is to be in the buffer then. -/
def text (doc : List UInt8) : BuilderCall → List UInt8
  | init => ascii "\x7b\"state\":\x7b"
  | add call =>
      doc ++ (call.opening ++ call.args.flatMap JsonArgument.text).dropLast ++ ascii "\x7d,"
  | finalize token =>
      match doc with
      | [] => closing token
      | _ :: _ => doc.dropLast ++ 125 :: closing token

/-- The condition under which a call stays in the buffer. -/
def KeepsRoom (buffer : JsonBuffer) : BuilderCall → Prop
  | init | finalize _ => True
  | add call => call.KeepsRoom buffer

/-- No write goes to an index that the buffer does not have at its end, and a text that does not
fit is answered with an error. -/
structure IsBounded (call : BuilderCall) (buffer : JsonBuffer) : Prop where
  below : ∀ fuel, ∀ write ∈ (call.print fuel buffer.maxSizeOfJsonDocument buffer.document).output.2,
    write.IsBelow buffer.maxSizeOfJsonDocument
  refused : buffer.maxSizeOfJsonDocument ≤ (call.text buffer.document).length →
    ∃ fuel rc, (call.print fuel buffer.maxSizeOfJsonDocument buffer.document).output.1 = .error rc

end BuilderCall

/-! ## When they stay in the buffer -/

namespace SectionCall

variable (call : SectionCall) (buffer : JsonBuffer)

/-- The opening of a section takes four bytes at least. -/
theorem length_opening : 4 ≤ call.opening.length ∧ call.opening.length < 2 ^ 31 := by
  rw [opening, name]
  cases call.kind <;> decide

/-- The count of the fields fits a byte. -/
theorem toNat_count : (UInt8.ofNat call.args.length).toNat = call.args.length := by
  rw [UInt8.toNat_ofNat']
  have hle := call.length_le
  omega

/-- The section's name either finds no room, or the loop begins behind it. -/
theorem opening_cases (fuel : Nat) :
    (buffer.maxSizeOfJsonDocument - buffer.document.length ≤ call.opening.length ∧
      Printer.Stays buffer.maxSizeOfJsonDocument
        ((BuilderCall.add call).print fuel buffer.maxSizeOfJsonDocument buffer.document)
        fun _ => False) ∨
    (call.opening.length < buffer.maxSizeOfJsonDocument - buffer.document.length ∧
      ∃ xs, (∀ write ∈ xs, write.IsBelow buffer.maxSizeOfJsonDocument) ∧
        ∀ r ys, (Printer.printFields buffer.maxSizeOfJsonDocument (UInt8.ofNat call.args.length)
            call.pArgs fuel 0 (buffer.document ++ call.opening,
              buffer.maxSizeOfJsonDocument - buffer.document.length)).Logs r ys →
          ((BuilderCall.add call).print fuel buffer.maxSizeOfJsonDocument buffer.document).Logs r
            (xs ++ ys)) := by
  have hdoc := buffer.terminated
  have hopening := call.length_opening
  have hprinted : ∀ write ∈ Printer.printed buffer.document.length
      (buffer.maxSizeOfJsonDocument - buffer.document.length) call.opening,
      write.IsBelow buffer.maxSizeOfJsonDocument := Printer.printed_below (by omega)
  rcases Nat.lt_or_ge 1 (buffer.maxSizeOfJsonDocument - buffer.document.length) with hroom | hroom
  · have hstart := Printer.logs_ensureRoom hdoc buffer.size_lt hroom
    rcases Nat.lt_or_ge call.opening.length
      (buffer.maxSizeOfJsonDocument - buffer.document.length) with hfits | hfits
    · -- the section's name fits
      have hcheck : checkReturnValueOfSnPrintf call.opening.length
          (buffer.maxSizeOfJsonDocument - buffer.document.length) = .success := by
        rw [checkReturnValueOfSnPrintf, if_neg hopening.2.not_ge, if_neg hfits.not_ge]
      refine .inr ⟨hfits, _, hprinted, ?_⟩
      intro r ys hlogs
      exact hstart.bind ((Printer.logs_printEnd_of_success hcheck).bind hlogs)
    · -- it does not, and is cut off
      have hcheck : checkReturnValueOfSnPrintf call.opening.length
          (buffer.maxSizeOfJsonDocument - buffer.document.length) ≠ .success :=
        fun hsuccess => (Printer.lt_of_success hsuccess).not_ge hfits
      have hprint : ((BuilderCall.add call).print fuel buffer.maxSizeOfJsonDocument
          buffer.document).Logs (.error _) ([] ++ _) :=
        hstart.bind (Printer.logs_printEnd_of_ne hcheck).bind_error
      exact .inl ⟨hfits, _, _, hprint, hprinted, nofun⟩
  · have hstart := Printer.logs_ensureRoom_of_le hdoc buffer.size_lt hroom
    exact .inl ⟨by omega, _, _, hstart.bind_error, List.forall_mem_nil _, nofun⟩

/-- A section that keeps room comes to an end, and is no longer than it is to be. -/
theorem ends (hfits : call.opening.length <
      buffer.maxSizeOfJsonDocument - buffer.document.length)
    (hkeeps : ∀ turns, Shadow.KeepsRoom (UInt8.ofNat call.args.length) call.pArgs turns 0
      (buffer.maxSizeOfJsonDocument - buffer.document.length - call.opening.length)) :
    ∃ fuel r xs, (Printer.printFields buffer.maxSizeOfJsonDocument (UInt8.ofNat call.args.length)
        call.pArgs fuel 0 (buffer.document ++ call.opening,
          buffer.maxSizeOfJsonDocument - buffer.document.length)).Logs r xs ∧ r ≠ .ok none ∧
      ∀ s, r = .ok (some s) → s.length < buffer.maxSizeOfJsonDocument ∧
        s.length = ((BuilderCall.add call).text buffer.document).length := by
  have hopening := call.length_opening
  have hlength : (buffer.document ++ call.opening).length =
      buffer.document.length + call.opening.length := List.length_append
  have hargs : ∀ i (h : i < call.args.length), call.pArgs i = call.args[i] := fun i h => dif_pos h
  have hroom : buffer.maxSizeOfJsonDocument - buffer.document.length - call.opening.length =
      buffer.maxSizeOfJsonDocument - (buffer.document ++ call.opening).length := by omega
  rw [hroom] at hkeeps
  obtain ⟨fuel, r, xs, hlogs, hne, hok⟩ : ∃ fuel r xs, (Printer.printFields
      buffer.maxSizeOfJsonDocument (UInt8.ofNat call.args.length) call.pArgs fuel 0
        (buffer.document ++ call.opening,
          buffer.maxSizeOfJsonDocument - buffer.document.length)).Logs r xs ∧ r ≠ .ok none ∧ _ :=
    Printer.ends_printFields buffer.size_lt hargs call.toNat_count (by omega) (by omega)
      (fun _ => Nat.zero_le _) hkeeps
  refine ⟨fuel, r, xs, hlogs, hne, ?_⟩
  intro s hs
  obtain ⟨hlt, -, hs'⟩ := hok s hs
  refine ⟨hlt, hs'.trans ?_⟩
  rw [BuilderCall.text, List.drop_zero, List.length_append, List.length_append,
    List.length_append, List.length_dropLast, List.length_append]
  change _ = _ + 2
  omega

/-- The calls that add a section stay below the end just when they keep room. -/
theorem isBounded_iff : (BuilderCall.add call).IsBounded buffer ↔ call.KeepsRoom buffer := by
  have hopening := call.length_opening
  have hlength : (buffer.document ++ call.opening).length =
      buffer.document.length + call.opening.length := List.length_append
  -- the turns begin behind the section's name
  have hturns (fuel : Nat) (hfits : call.opening.length <
      buffer.maxSizeOfJsonDocument - buffer.document.length) :
      ∃ r xs, (Printer.printFields buffer.maxSizeOfJsonDocument (UInt8.ofNat call.args.length)
          call.pArgs fuel 0 (buffer.document ++ call.opening,
            buffer.maxSizeOfJsonDocument - buffer.document.length)).Logs r xs ∧
        ((∀ write ∈ xs, write.IsBelow buffer.maxSizeOfJsonDocument) ↔
          Shadow.KeepsRoom (UInt8.ofNat call.args.length) call.pArgs fuel 0
            (buffer.maxSizeOfJsonDocument - (buffer.document ++ call.opening).length)) :=
    Printer.below_printFields_iff buffer.size_lt fuel (by omega) (by omega)
  have hroom : buffer.maxSizeOfJsonDocument - (buffer.document ++ call.opening).length =
      buffer.maxSizeOfJsonDocument - buffer.document.length - call.opening.length := by omega
  rw [hroom] at hturns
  constructor
  · intro h hfits fuel
    obtain ⟨r, ys, hlogs, hiff⟩ := hturns fuel hfits
    rcases call.opening_cases buffer fuel with ⟨hle, -⟩ | ⟨-, xs, -, hwhole⟩
    · exact absurd hfits hle.not_gt
    · have hbelow := h.below fuel
      rw [(hwhole r ys hlogs).output_eq, List.forall_mem_append] at hbelow
      exact hiff.mp hbelow.2
  · intro hkeeps
    refine ⟨?_, ?_⟩
    · intro fuel
      rcases call.opening_cases buffer fuel with ⟨-, r, xs, hlogs, hbelow, -⟩ |
      ⟨hfits, xs, hxs, hwhole⟩
      · rw [hlogs.output_eq]
        exact hbelow
      · obtain ⟨r, ys, hlogs, hiff⟩ := hturns fuel hfits
        rw [(hwhole r ys hlogs).output_eq, List.forall_mem_append]
        exact ⟨hxs, hiff.mpr (hkeeps hfits fuel)⟩
    · intro htext
      rcases call.opening_cases buffer 0 with ⟨-, r, xs, hlogs, -, hnone⟩ | ⟨hfits, -⟩
      · refine ⟨0, ?_⟩
        rw [hlogs.output_eq]
        cases r with
        | error rc => exact ⟨rc, rfl⟩
        | ok s => exact (hnone s rfl).elim
      · obtain ⟨fuel, r, ys, hlogs, hne, hok⟩ := call.ends buffer hfits (hkeeps hfits)
        rcases call.opening_cases buffer fuel with ⟨hle, -⟩ | ⟨-, xs, -, hwhole⟩
        · exact absurd hfits hle.not_gt
        · refine ⟨fuel, ?_⟩
          rw [(hwhole r ys hlogs).output_eq]
          cases r with
          | error rc => exact ⟨rc, rfl⟩
          | ok s =>
              cases s with
              | none => exact absurd rfl hne
              | some s =>
                  obtain ⟨hlt, hs⟩ := hok s rfl
                  omega

end SectionCall

namespace BuilderCall

variable {call : BuilderCall} {buffer : JsonBuffer}

/-- A call that stays in the buffer, and leaves a terminated document, is bounded. -/
theorem isBounded_of_stays
    (h : ∀ fuel, Printer.Stays buffer.maxSizeOfJsonDocument
      (call.print fuel buffer.maxSizeOfJsonDocument buffer.document) fun s =>
        ∃ t, s = some t ∧ t.length < buffer.maxSizeOfJsonDocument ∧
          t.length = (call.text buffer.document).length) : call.IsBounded buffer := by
  refine ⟨?_, ?_⟩
  · intro fuel
    obtain ⟨r, xs, hlogs, hbelow, -⟩ := h fuel
    rw [hlogs.output_eq]
    exact hbelow
  · intro hlength
    obtain ⟨r, xs, hlogs, -, hok⟩ := h 0
    refine ⟨0, ?_⟩
    rw [hlogs.output_eq]
    cases r with
    | error rc => exact ⟨rc, rfl⟩
    | ok s =>
        obtain ⟨t, -, hlt, heq⟩ := hok s rfl
        omega

/-- Starting a document never writes past the buffer. -/
theorem isBounded_init (buffer : JsonBuffer) : init.IsBounded buffer := by
  have hpos : ([] : List UInt8).length < buffer.maxSizeOfJsonDocument :=
    Nat.zero_lt_of_lt buffer.terminated
  apply isBounded_of_stays
  intro fuel
  have hprint : Printer.Stays buffer.maxSizeOfJsonDocument
      (Printer.printInit buffer.maxSizeOfJsonDocument) _ := Printer.stays_printEnd hpos _
  apply hprint.bind
  rintro s ⟨hlt, hlength⟩
  refine ⟨_, _, logs_pure _, List.forall_mem_nil _, ?_⟩
  intro t ht
  exact ⟨s, (Except.ok.inj ht).symm, hlt, hlength.trans (Nat.zero_add _)⟩

/-- Nor does ending one. -/
theorem isBounded_finalize (token : List UInt8) (buffer : JsonBuffer) :
    (finalize token).IsBounded buffer := by
  apply isBounded_of_stays
  intro fuel
  apply (Printer.stays_printFinal buffer.terminated buffer.size_lt token).bind
  rintro s ⟨hlt, hlength⟩
  refine ⟨_, _, logs_pure _, List.forall_mem_nil _, ?_⟩
  intro t ht
  refine ⟨s, (Except.ok.inj ht).symm, hlt, hlength.trans ?_⟩
  have hclosing : (closing token).length = token.length + 19 := by
    rw [closing, List.length_append, List.length_append]
    change 17 + (token.length + 2) = _
    omega
  cases hdoc : buffer.document with
  | nil =>
      change _ = (closing token).length
      rw [hclosing, List.length_nil, Nat.zero_add]
  | cons b doc =>
      change _ = ((b :: doc).dropLast ++ 125 :: closing token).length
      rw [List.length_append, List.length_dropLast, List.length_cons, List.length_cons, hclosing]
      omega

/-- A call writes nothing beyond the end of the buffer, and returns an error where the text does
not fit, just when it keeps room. -/
theorem isBounded_iff_keepsRoom (call : BuilderCall) (buffer : JsonBuffer) :
    call.IsBounded buffer ↔ call.KeepsRoom buffer := by
  cases call with
  | init => exact iff_of_true (isBounded_init buffer) trivial
  | add call => exact call.isBounded_iff buffer
  | finalize token => exact iff_of_true (isBounded_finalize token buffer) trivial

end BuilderCall

/-! ## A buffer that is left -/

/-- A document that has been begun, in a buffer of 30 bytes. -/
def narrowBuffer : JsonBuffer where
  maxSizeOfJsonDocument := 30
  size_lt := by decide
  document := ascii "\x7b\"state\":\x7b"
  nonzero := by decide
  terminated := by decide

def narrowCall : SectionCall where
  kind := .reported
  args := [some ⟨ascii "k", .value .int32 (1234 : Int32)⟩]
  behind := fun _ => none
  length_le := by decide

/-- Key and value fit each for itself where 8 bytes are left, but not one behind the other. -/
theorem not_isBounded_narrowCall :
    ¬ ∀ (call : BuilderCall) (buffer : JsonBuffer), call.IsBounded buffer := by
  intro h
  have hkeeps := (narrowCall.isBounded_iff narrowBuffer).mp (h _ _) (by decide) 1
  have hturn : JsonArgument.turn 8 (narrowCall.pArgs 0) = .overshot := rfl
  have hroom : narrowBuffer.maxSizeOfJsonDocument - narrowBuffer.document.length -
      narrowCall.opening.length = 8 := rfl
  rw [hroom, KeepsRoom, if_pos (by decide), hturn] at hkeeps
  exact hkeeps

end MqttClient.Shadow
