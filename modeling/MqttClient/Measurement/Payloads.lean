import MqttClient.Measurement.Strings
import MqttClient.Shadow.Deliveries
import MqttClient.Text.JsonRecords

/-! # Payloads in fixed buffers

What is received is copied into buffers whose sizes were chosen elsewhere: the job
callback and the thread it starts print the whole payload, and a delta copies the
strings that it finds for the registered keys.
-/

namespace MqttClient.Measurement

open Text Shadow

/-- The buffers that payloads are copied into. A registered key has the buffer that
`shadowRun` declares for it. -/
inductive Buffer where
  | receivedSettings | jsonToRead | command | shadowRxBuf
  | registered (key : List UInt8)

def Buffer.size : Buffer → Nat
  | receivedSettings | jsonToRead | command => 10000
  | shadowRxBuf => shadowMaxSizeOfRxBuffer
  | registered key => if key = ascii "groups" ∨ key = ascii "channels" then 1000 else 100

abbrev Write := ArrayWrite Buffer

/-! ## Jobs -/

/-- A property tree: the members of the document, with the texts of their values. A
document that cannot be read gives an empty tree. -/
abbrev Ptree := List Member

/-- A reader of documents takes every member from a place of its own, where there
are the name, its value, two quotation marks and a colon. -/
def ReadsInPlace (readJSON : List UInt8 → Ptree) : Prop :=
  ∀ text, (((readJSON text).filter fun member => member.1 ≠ []).map fun member =>
    member.1.length + member.2.length + 3).sum ≤ text.length

/-- What the thread finds at `commandChar`, `optionsChar` and `testidChar`. These are the
`c_str()` of strings that have been destroyed when they are read, so that anything can be found
there. -/
structure Dangling where
  commandChar : List UInt8
  optionsChar : List UInt8
  testidChar : List UInt8

/-- What is put together to a command. -/
def Dangling.parts (dangling : Dangling) : List (List UInt8) :=
  [dangling.commandChar, ascii " ", dangling.optionsChar, ascii " -testid ", dangling.testidChar]

/-- The members of a job are there. One that is missing raises an exception. -/
def IsJob (pt : Ptree) : Prop :=
  (pt.lookup (ascii "command")).isSome ∧ (pt.lookup (ascii "options")).isSome ∧
    (pt.lookup (ascii "testid")).isSome

instance (pt : Ptree) : Decidable (IsJob pt) := inferInstanceAs (Decidable (_ ∧ _))

section Jobs

variable (readJSON : List UInt8 → Ptree)

/-- `runCommand` up to its call of `system`, when it finds these bytes at `in` and at the three
pointers. -/
def runCommand (found : List UInt8) (dangling : Dangling) : List Write :=
  let pt := readJSON (cString found)
  sprintf .jsonToRead found ++ if IsJob pt then strcat .command 0 dangling.parts else []

/-- `iot_subscribe_callback_handler` and the thread that it starts. The thread gets
the address of a buffer that is gone when the callback has returned; `found` is what
it finds there. -/
def iotSubscribeCallbackHandler (payload found : List UInt8) (dangling : Dangling) : List Write :=
  sprintf .receivedSettings payload ++ runCommand readJSON found dangling

/-- What the thread finds fits into its buffers. -/
def JobFits (found : List UInt8) (dangling : Dangling) : Prop :=
  (cString found).length < 10000 ∧
    (IsJob (readJSON (cString found)) → joinedLength dangling.parts < 10000)

theorem isInside_runCommand {found : List UInt8} {dangling : Dangling} :
    (∀ write ∈ runCommand readJSON found dangling, write.IsInside Buffer.size) ↔
      JobFits readJSON found dangling := by
  unfold runCommand JobFits
  rw [List.forall_mem_append, isInside_sprintf]
  apply and_congr_right
  intro _
  split
  next hjob =>
    rw [Dangling.parts, isInside_strcat, Nat.zero_add]
    exact ⟨fun h _ => h, fun h => h hjob⟩
  next hjob => exact iff_of_true nofun fun h => absurd h hjob

/-- The strings are found as they were before they were destroyed. -/
def Dangling.IsIntact (dangling : Dangling) (pt : Ptree) : Prop :=
  pt.lookup (ascii "command") = some dangling.commandChar ∧
    pt.lookup (ascii "options") = some dangling.optionsChar ∧
      pt.lookup (ascii "testid") = some dangling.testidChar

variable {readJSON} (hread : ReadsInPlace readJSON)
include hread

/-- Three members with different names are in three places. -/
theorem length_of_lookup {text a b c x y z : List UInt8} (ha : (readJSON text).lookup a = some x)
    (hb : (readJSON text).lookup b = some y) (hc : (readJSON text).lookup c = some z)
    (hne : [[], a, b, c].Nodup) :
    a.length + x.length + b.length + y.length + c.length + z.length + 9 ≤ text.length := by
  have hmem : ∀ {name value}, (readJSON text).lookup name = some value → (name ≠ []) →
      (name, value) ∈ (readJSON text).filter fun member => member.1 ≠ [] := by
    intro name value hlookup hname
    obtain ⟨before, after, hsplit, -⟩ := List.lookup_eq_some_iff.mp hlookup
    rw [List.mem_filter, hsplit]
    exact ⟨List.mem_append_right _ List.mem_cons_self, decide_eq_true hname⟩
  simp only [List.nodup_cons, List.mem_cons, List.not_mem_nil, or_false, not_or] at hne
  obtain ⟨⟨ha', hb', hc'⟩, ⟨hab, hac⟩, hbc, -⟩ := hne
  have hsub : [(a, x), (b, y), (c, z)].Subperm
      ((readJSON text).filter fun member => member.1 ≠ []) := by
    apply List.subperm_of_subset
    · simp [hab, hac, hbc]
    · intro member hmember
      simp only [List.mem_cons, List.not_mem_nil, or_false] at hmember
      rcases hmember with rfl | rfl | rfl
      · exact hmem ha (Ne.symm ha')
      · exact hmem hb (Ne.symm hb')
      · exact hmem hc (Ne.symm hc')
  obtain ⟨members, hperm, hsublist⟩ := hsub
  have hle := (hsublist.map fun member => member.1.length + member.2.length + 3).sum_le_sum
    fun _ _ => Nat.zero_le _
  rw [(hperm.map _).sum_eq] at hle
  replace hle := hle.trans (hread text)
  simp only [List.map_cons, List.map_nil, List.sum_cons, List.sum_nil] at hle
  omega

/-- Strings that are intact never make a command that outgrows its document. -/
theorem jobFits_of_isIntact {found : List UInt8} {dangling : Dangling}
    (hintact : dangling.IsIntact (readJSON (cString found)))
    (hfound : (cString found).length < 10000) : JobFits readJSON found dangling := by
  refine ⟨hfound, fun _ => ?_⟩
  obtain ⟨hc, ho, ht⟩ := hintact
  have hlength := length_of_lookup hread hc ho ht (by decide)
  have hcommand := (cString_isPrefix dangling.commandChar).length_le
  have hoptions := (cString_isPrefix dangling.optionsChar).length_le
  have htestid := (cString_isPrefix dangling.testidChar).length_le
  have hnames : (ascii "command").length = 7 ∧ (ascii "options").length = 7 ∧
      (ascii "testid").length = 6 := by decide
  have hseparators : (cString (ascii " ")).length = 1 ∧ (cString (ascii " -testid ")).length = 9 :=
    by
    decide
  simp only [Dangling.parts, joinedLength, List.map_cons, List.map_nil, List.sum_cons, List.sum_nil]
  omega

end Jobs

/-! ## Deltas -/

/-- The structs that `shadowRun` registers. Each has a buffer of its own. -/
def shadowRunStructs : List JsonStruct :=
  [⟨ascii "customer", .string, none⟩, ⟨ascii "location", .string, none⟩,
    ⟨ascii "id", .string, none⟩, ⟨ascii "connection", .string, none⟩,
    ⟨ascii "groups", .string, some 0⟩, ⟨ascii "channels", .string, some 1⟩]

/-- The characters of a value that is stored as a string. -/
def storedText : (type : JsonPrimitiveType) → Option type.Data → Option (List UInt8)
  | .string, text => text
  | _, _ => none

@[simp] theorem storedText_string (text : Option (List UInt8)) :
    storedText .string text = text := rfl

/-- What a delivery writes into the buffer of its key. -/
def storeWrites : Shadow.Event → List Write
  | .matched s stored =>
      match storedText s.type stored with
      | none => []
      | some text => [⟨.registered s.key, 0, text ++ [0]⟩]
  | _ => []

/-- The copy of the payload, with its terminator. -/
def payloadWrite (w : Shadow.World) (m : MessageRef) : Write :=
  ⟨.shadowRxBuf, 0, w.readBuf.load m.payloadOff m.payloadLen ++ [0]⟩

/-- What is written for the document in `shadowRxBuf`, of which these are the tokens. -/
def documentWrites (r : Shadow.World) (tokenCount : Nat) : List Write :=
  if r.isOldDelta tokenCount then []
  else (r.tokenTable.flatMap (delivery r.rxDocument r.jsonTokenStruct tokenCount)).flatMap
    storeWrites

/-- The writes of `shadow_delta_callback`, when the callbacks of the registered keys leave
the layer alone, as those of the application do. -/
def deltaWrites (w : Shadow.World) (m : MessageRef) : List Write :=
  if m.payloadLen > shadowMaxSizeOfRxBuffer then []
  else
    payloadWrite w m ::
      match (w.withPayload m).rxTokenCount with
      | none => []
      | some tokenCount => documentWrites (w.withPayload m).withRxTokens tokenCount

/-- The token that a document has for the value of a key, if the key is found. -/
def valueToken (w : Shadow.World) (tokenCount : Nat) (key : List UInt8) : Option JsmnTok :=
  (keyIndex w.rxDocument w.jsonTokenStruct tokenCount key).map fun i =>
    tokenAt w.jsonTokenStruct (i + 1)

/-- The value's text, with its length as it is counted in 16 bits, fits into the buffer of its
key. -/
def FitsRegistered (w : Shadow.World) (tokenCount : Nat) (s : JsonStruct) : Prop :=
  ∀ tok, valueToken w tokenCount s.key = some tok → tok.type = .string →
    ((tok.stop - tok.start) % 65536).toNat < (Buffer.registered s.key).size

/-- What is written for a string key is the text of its token. -/
theorem storeWrites_delivery {w : Shadow.World} {tokenCount : Nat} {key : List UInt8}
    {cb : Option CallbackName} :
    (delivery w.rxDocument w.jsonTokenStruct tokenCount ⟨key, .string, cb⟩).flatMap storeWrites =
      match (valueToken w tokenCount key).bind fun tok =>
          (parseStringValue w.rxDocument tok).toOption with
      | none => []
      | some text => [⟨.registered key, 0, text ++ [0]⟩] := by
  rw [delivery, isJsonKeyMatching_eq, valueToken]
  cases keyIndex w.rxDocument w.jsonTokenStruct tokenCount key with
  | none => rfl
  | some i =>
      cases cb with
      | none => exact List.append_nil _
      | some name => exact List.append_nil _

theorem isInside_storeWrites {w : Shadow.World} {tokenCount : Nat} {s : JsonStruct}
    (hs : s ∈ shadowRunStructs) :
    (∀ write ∈ (delivery w.rxDocument w.jsonTokenStruct tokenCount s).flatMap storeWrites,
      write.IsInside Buffer.size) ↔ FitsRegistered w tokenCount s := by
  have hall : ∀ s ∈ shadowRunStructs, s.type = .string := by decide
  have htype := hall s hs
  obtain ⟨key, type, cb⟩ := s
  subst htype
  rw [storeWrites_delivery, FitsRegistered]
  cases valueToken w tokenCount key with
  | none => exact iff_of_true nofun nofun
  | some tok =>
      simp only [Option.bind_some, Option.some.injEq, forall_eq', parseStringValue]
      by_cases hstring : tok.type = .string
      · simp only [hstring, ne_eq, not_true_eq_false, if_false, Except.toOption,
          List.forall_mem_singleton, ArrayWrite.IsInside, List.length_append, Memory.length_load,
          List.length_singleton, forall_const]
        omega
      · simp only [hstring, ne_eq, not_false_eq_true, if_true, Except.toOption, false_imp_iff,
          iff_true]
        exact List.forall_mem_nil _

/-- Either the document has no values to store, or they all fit. -/
def DeltaFits (w : Shadow.World) (m : MessageRef) : Prop :=
  ∀ tokenCount, (w.withPayload m).rxTokenCount = some tokenCount →
    (w.withPayload m).withRxTokens.isOldDelta tokenCount = false →
      ∀ s ∈ w.tokenTable, FitsRegistered (w.withPayload m).withRxTokens tokenCount s

theorem isInside_deltaWrites {w : Shadow.World} {m : MessageRef}
    (hlength : m.payloadLen ≤ mqttRxBufLen)
    (hregistered : ∀ s ∈ w.tokenTable, s ∈ shadowRunStructs) :
    (∀ write ∈ deltaWrites w m, write.IsInside Buffer.size) ↔ DeltaFits w m := by
  have hroom : m.payloadLen < shadowMaxSizeOfRxBuffer := Nat.lt_succ_of_le hlength
  rw [deltaWrites, if_neg (Nat.not_lt.mpr hroom.le), List.forall_mem_cons, DeltaFits]
  have hcopy : (payloadWrite w m).IsInside Buffer.size := by
    rw [ArrayWrite.IsInside, payloadWrite, List.length_append, Memory.length_load,
      List.length_singleton]
    change 0 + (m.payloadLen + 1) ≤ shadowMaxSizeOfRxBuffer
    omega
  rw [and_iff_right hcopy]
  cases hcount : (w.withPayload m).rxTokenCount with
  | none => exact iff_of_true (List.forall_mem_nil _) fun _ h => by cases h
  | some tokenCount =>
      simp only [Option.some.injEq, forall_eq', documentWrites]
      by_cases hold : (w.withPayload m).withRxTokens.isOldDelta tokenCount
      · rw [if_pos hold]
        apply iff_of_true (List.forall_mem_nil _)
        exact fun h => absurd (hold.symm.trans h) (by decide)
      · rw [if_neg hold, List.flatMap_assoc]
        simp only [Bool.eq_false_iff.mpr hold, forall_const]
        change (∀ write ∈ w.tokenTable.flatMap _, ArrayWrite.IsInside Buffer.size write) ↔ _
        constructor
        · intro h s hs
          apply (isInside_storeWrites (hregistered s hs)).mp
          intro write hwrite
          exact h write (List.mem_flatMap.mpr ⟨s, hs, hwrite⟩)
        · intro h write hwrite
          obtain ⟨s, hs, hwrite⟩ := List.mem_flatMap.mp hwrite
          exact (isInside_storeWrites (hregistered s hs)).mpr (h s hs) write hwrite

/-! ## Payloads -/

/-- A payload that the client can deliver. -/
structure Payload where
  bytes : List UInt8
  deliverable : bytes.length ≤ mqttRxBufLen

/-- How a payload is handled: as a job, by a thread that finds these bytes in its
buffer and at its pointers, or as a delta that arrives in a state in which `shadowRun` has
registered its structs or some of them. -/
inductive Handling (payload : Payload) where
  | job (found : List UInt8) (dangling : Dangling)
  | delta (w : Shadow.World) (m : MessageRef)
      (load : w.readBuf.load m.payloadOff m.payloadLen = payload.bytes)
      (registered : ∀ s ∈ w.tokenTable, s ∈ shadowRunStructs)

namespace Handling

variable {payload : Payload}

def writes (readJSON : List UInt8 → Ptree) : Handling payload → List Write
  | .job found dangling => iotSubscribeCallbackHandler readJSON payload.bytes found dangling
  | .delta w m .. => deltaWrites w m

/-- Nothing is written past the end of a buffer. -/
def StaysInside (readJSON : List UInt8 → Ptree) (h : Handling payload) : Prop :=
  ∀ write ∈ h.writes readJSON, write.IsInside Buffer.size

/-- The payload and what the thread finds are short enough, or the strings of the delta are. -/
def Fits (readJSON : List UInt8 → Ptree) : Handling payload → Prop
  | .job found dangling =>
      (cString payload.bytes).length < 10000 ∧ JobFits readJSON found dangling
  | .delta w m .. => DeltaFits w m

/-- A payload is handled inside the buffers just when it fits. -/
theorem staysInside_iff (readJSON : List UInt8 → Ptree) (h : Handling payload) :
    h.StaysInside readJSON ↔ h.Fits readJSON := by
  cases h with
  | job found dangling =>
      rw [StaysInside, writes, iotSubscribeCallbackHandler,
        List.forall_mem_append, isInside_sprintf, isInside_runCommand]
      rfl
  | delta w m load registered =>
      apply isInside_deltaWrites _ registered
      have hlength := congrArg List.length load
      rw [Memory.length_load] at hlength
      exact hlength ▸ payload.deliverable

end Handling

/-- A reader of documents whose values are strings. -/
def readStrings (text : List UInt8) : Ptree := ((readObject text).map Prod.fst).getD []

theorem readsInPlace_readStrings : ReadsInPlace readStrings := by
  intro text
  unfold readStrings
  cases hread : readObject text with
  | none => exact Nat.zero_le _
  | some result =>
      have hsize : sequenceSize (result.1.map memberSize) + result.2.length ≤ text.length :=
        size_of_readSequence (fun _ _ _ h => size_of_readMember h) hread
      have hle := (List.filter_sublist (l := result.1) (p := fun member => member.1 ≠ [])).map
        (fun member => member.1.length + member.2.length + 3) |>.sum_le_sum fun _ _ => Nat.zero_le _
      refine hle.trans ?_
      have hmember : (result.1.map fun member => member.1.length + member.2.length + 3).sum ≤
          (result.1.map memberSize).sum := by
        apply List.sum_le_sum
        intro member _
        simp only [memberSize, stringSize]
        omega
      rw [sequenceSize] at hsize
      exact hmember.trans (by omega)

def jobPayload : Payload where
  bytes := ascii "\x7b\"command\":\"ping\",\"options\":\"-c 3\",\"testid\":\"7\"\x7d"
  deliverable := by decide

/-- The strings of the job, where they still are intact. -/
def jobStrings : Dangling := ⟨ascii "ping", ascii "-c 3", ascii "7"⟩

theorem staysInside_jobPayload :
    (.job jobPayload.bytes jobStrings : Handling jobPayload).StaysInside readStrings :=
  (Handling.staysInside_iff readStrings (.job jobPayload.bytes jobStrings)).mpr
    ⟨by decide, jobFits_of_isIntact readsInPlace_readStrings ⟨by decide, by decide, by decide⟩
      (by decide)⟩

/-- A payload without a zero that fills the buffer of the callback. -/
def longPayload : Payload where
  bytes := List.replicate 10000 97
  deliverable := by
    rw [List.length_replicate]
    decide

theorem not_staysInside_longPayload :
    ¬ (.job longPayload.bytes jobStrings : Handling longPayload).StaysInside readStrings := by
  intro h
  have hsettings := isInside_sprintf.mp fun write hwrite => h write (List.mem_append_left _ hwrite)
  have hstring : cString longPayload.bytes = List.replicate 10000 97 :=
    cString_of_forall fun b hb => by
      rw [List.eq_of_mem_replicate hb]
      decide
  rw [hstring, List.length_replicate] at hsettings
  exact absurd hsettings (Nat.lt_irrefl _)

end MqttClient.Measurement
