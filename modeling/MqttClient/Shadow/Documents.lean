import MqttClient.Shadow.Json
import MqttClient.Shadow.Tokens

/-! # What is read depends on the text

The functions that read a document look at a buffer, behind whose text other bytes
may lie. For tokens within the text these bytes do not matter.
-/

namespace MqttClient.Shadow

namespace Document

/-- The buffer starts with this C string. -/
structure Holds (doc : Document) (js : List UInt8) : Prop where
  bytes : ∀ i, (h : i < js.length) → doc.bytes i = js[i]
  nonzero : 0 ∉ js
  terminator : doc.bytes js.length = 0
  length_le : js.length ≤ doc.size

theorem holds_ofText {js : List UInt8} (h : 0 ∉ js) : (ofText js).Holds js where
  bytes := fun i hi => by simp [ofText, hi]
  nonzero := h
  terminator := by simp [ofText]
  length_le := Nat.le_succ _

section TextUpTo

variable {doc : Document} {off n : Nat}

theorem length_textUpTo_le : (doc.textUpTo off n).length ≤ n := by
  induction n generalizing off with
  | zero => exact Nat.le_refl 0
  | succ n ih =>
      rw [textUpTo]
      split
      next => exact Nat.zero_le _
      next => exact Nat.succ_le_succ ih

theorem zero_not_mem_textUpTo : 0 ∉ doc.textUpTo off n := by
  induction n generalizing off with
  | zero => exact List.not_mem_nil
  | succ n ih =>
      rw [textUpTo]
      split
      next => exact List.not_mem_nil
      next hne =>
          intro hmem
          rcases List.mem_cons.mp hmem with heq | hmem
          · exact hne heq.symm
          · exact ih hmem

theorem getElem_textUpTo {i : Nat} (hi : i < (doc.textUpTo off n).length) :
    doc.bytes (off + i) = (doc.textUpTo off n)[i] := by
  induction n generalizing off i with
  | zero => exact absurd hi (Nat.not_lt_zero i)
  | succ n ih =>
      simp only [textUpTo] at hi ⊢
      split at hi
      next => exact absurd hi (Nat.not_lt_zero i)
      next hne =>
          simp only [if_neg hne]
          cases i with
          | zero => rfl
          | succ i =>
              rw [List.getElem_cons_succ, ← ih (Nat.lt_of_succ_lt_succ hi)]
              congr 1
              omega

/-- A string that is shorter than it might be ends at a zero. -/
theorem terminator_textUpTo (hlt : (doc.textUpTo off n).length < n) :
    doc.bytes (off + (doc.textUpTo off n).length) = 0 := by
  induction n generalizing off with
  | zero => exact absurd hlt (Nat.not_lt_zero _)
  | succ n ih =>
      by_cases hzero : doc.bytes off = 0
      · simp only [textUpTo, if_pos hzero]
        exact hzero
      · simp only [textUpTo, if_neg hzero, List.length_cons] at hlt ⊢
        have hrest : doc.bytes (off + 1 + (doc.textUpTo (off + 1) n).length) = 0 := ih (by omega)
        rw [← hrest]
        congr 1
        omega

end TextUpTo

/-- The string that a buffer starts with, if there is a zero in it or right behind it. -/
theorem holds_text {doc : Document} {k : Nat} (hk : k ≤ doc.size) (hzero : doc.bytes k = 0) :
    doc.Holds (doc.text 0) where
  bytes := by
    intro i hi
    have hbyte := getElem_textUpTo hi
    rw [Nat.zero_add] at hbyte
    exact hbyte
  nonzero := zero_not_mem_textUpTo
  terminator := by
    have hle : (doc.textUpTo 0 doc.size).length ≤ doc.size := length_textUpTo_le
    rcases Nat.lt_or_eq_of_le hle with hlt | heq
    · have hend := terminator_textUpTo hlt
      rw [Nat.zero_add] at hend
      exact hend
    · -- no zero is in the buffer, so that it is the one right behind it
      have hlength : (doc.text 0).length = doc.size := heq
      rcases Nat.lt_or_eq_of_le hk with hlt | rfl
      · have hi : k < (doc.text 0).length := hlength ▸ hlt
        have hbyte : doc.bytes (0 + k) = (doc.text 0)[k] := getElem_textUpTo hi
        rw [Nat.zero_add, hzero] at hbyte
        exact absurd (hbyte ▸ List.getElem_mem hi) zero_not_mem_textUpTo
      · rw [hlength]
        exact hzero
  length_le := length_textUpTo_le

namespace Holds

variable {doc doc' : Document} {js : List UInt8} {off n : Nat}

theorem byte_eq (h : doc.Holds js) (h' : doc'.Holds js) (hoff : off ≤ js.length) :
    doc.bytes off = doc'.bytes off := by
  rcases Nat.lt_or_eq_of_le hoff with hlt | rfl
  · rw [h.bytes off hlt, h'.bytes off hlt]
  · rw [h.terminator, h'.terminator]

theorem load_eq (h : doc.Holds js) (h' : doc'.Holds js) (hle : off + n ≤ js.length + 1) :
    doc.bytes.load off n = doc'.bytes.load off n := by
  apply List.map_congr_left
  intro i hi
  have hlt : i < n := List.mem_range.mp hi
  exact h.byte_eq h' (by omega)

/-- A word does not go beyond the end of the text. -/
theorem load_ne_word (h : doc.Holds js) {word : List UInt8} (hword : 0 ∉ word)
    (hoff : off ≤ js.length) (hlt : js.length < off + word.length) :
    doc.bytes.load off word.length ≠ word := by
  intro heq
  have hmem : doc.bytes js.length ∈ doc.bytes.load off word.length := by
    apply List.mem_map.mpr
    refine ⟨js.length - off, List.mem_range.mpr (by omega), ?_⟩
    congr 1
    omega
  rw [heq, h.terminator] at hmem
  exact hword hmem

/-- Whether a word follows does not depend on what is behind the text. -/
theorem load_eq_word_iff (h : doc.Holds js) (h' : doc'.Holds js) (word : List UInt8)
    (hword : 0 ∉ word) (hoff : off ≤ js.length) :
    doc.bytes.load off word.length = word ↔ doc'.bytes.load off word.length = word := by
  by_cases hle : off + word.length ≤ js.length + 1
  · rw [h.load_eq h' hle]
  · have hlt : js.length < off + word.length := by omega
    exact iff_of_false (h.load_ne_word hword hoff hlt) (h'.load_ne_word hword hoff hlt)

theorem textUpTo_eq (h : doc.Holds js) {m r : Nat} (hoff : off + m = js.length) :
    doc.textUpTo off (m + r) = js.drop off := by
  induction m generalizing off with
  | zero =>
      rw [Nat.add_zero] at hoff
      rw [hoff, List.drop_length, Nat.zero_add]
      cases r with
      | zero => rfl
      | succ r => rw [textUpTo, if_pos h.terminator]
  | succ m ih =>
      have hlt : off < js.length := by omega
      have hbyte := h.bytes off hlt
      have hne : doc.bytes off ≠ 0 := by
        intro hzero
        exact h.nonzero (hzero ▸ hbyte ▸ List.getElem_mem hlt)
      rw [Nat.add_right_comm, textUpTo, if_neg hne, ih (by omega), hbyte,
        List.getElem_cons_drop]

theorem text_eq (h : doc.Holds js) (hoff : off ≤ js.length) : doc.text off = js.drop off := by
  have hsize := h.length_le
  have hsplit : doc.size - off = (js.length - off) + (doc.size - js.length) := by omega
  rw [text, hsplit]
  exact h.textUpTo_eq (by omega)

end Holds

end Document

/-! ## Tokens and values -/

/-- The token is closed and lies within the text. -/
def JsmnTok.IsWithin (tok : JsmnTok) (js : List UInt8) : Prop :=
  (tok.start : Int) ≤ tok.stop ∧ tok.stop ≤ js.length

section Values

variable {doc doc' : Document} {js : List UInt8} {tok : JsmnTok}

theorem JsmnTok.IsWithin.start_le (h : tok.IsWithin js) : tok.start ≤ js.length := by
  have hle := Int.le_trans h.1 h.2
  omega

theorem jsoneq_congr (h : doc.Holds js) (h' : doc'.Holds js) (htok : tok.IsWithin js)
    (s : List UInt8) : jsoneq doc tok s = jsoneq doc' tok s := by
  unfold jsoneq
  by_cases hlength : (s.length : Int) = tok.stop - tok.start
  · have hstop := htok.2
    rw [h.load_eq h' (by omega)]
  · simp [hlength]

theorem parseUnsignedValue_congr {α : Type} (store : Int → α) (h : doc.Holds js)
    (h' : doc'.Holds js) (htok : tok.IsWithin js) :
    parseUnsignedValue store doc tok = parseUnsignedValue store doc' tok := by
  have hstart := htok.start_le
  simp only [parseUnsignedValue, h.byte_eq h' hstart, h.text_eq hstart, h'.text_eq hstart]

theorem parseSignedValue_congr {α : Type} (store : Int → α) (h : doc.Holds js)
    (h' : doc'.Holds js) (htok : tok.IsWithin js) :
    parseSignedValue store doc tok = parseSignedValue store doc' tok := by
  have hstart := htok.start_le
  simp only [parseSignedValue, h.text_eq hstart, h'.text_eq hstart]

theorem parseFloatValue_congr (h : doc.Holds js) (h' : doc'.Holds js) (htok : tok.IsWithin js) :
    parseFloatValue doc tok = parseFloatValue doc' tok := by
  have hstart := htok.start_le
  simp only [parseFloatValue, h.text_eq hstart, h'.text_eq hstart]

theorem parseBooleanValue_congr (h : doc.Holds js) (h' : doc'.Holds js) (htok : tok.IsWithin js) :
    parseBooleanValue doc tok = parseBooleanValue doc' tok := by
  have htrue : doc.bytes.load tok.start 4 = ascii "true" ↔
      doc'.bytes.load tok.start 4 = ascii "true" :=
    h.load_eq_word_iff h' (ascii "true") (by decide) htok.start_le
  have hfalse : doc.bytes.load tok.start 5 = ascii "false" ↔
      doc'.bytes.load tok.start 5 = ascii "false" :=
    h.load_eq_word_iff h' (ascii "false") (by decide) htok.start_le
  simp only [parseBooleanValue, htrue, hfalse]

theorem parseStringValue_congr (h : doc.Holds js) (h' : doc'.Holds js) (htok : tok.IsWithin js) :
    parseStringValue doc tok = parseStringValue doc' tok := by
  have hstop := htok.2
  have hlength : ((tok.stop - tok.start) % 65536).toNat ≤ (tok.stop - tok.start).toNat := by
    have hnonneg : 0 ≤ tok.stop - tok.start := by have hle := htok.1; omega
    omega
  unfold parseStringValue
  rw [h.load_eq h' (by have hle := htok.1; omega)]

theorem updateValueIfNoObject_congr (h : doc.Holds js) (h' : doc'.Holds js)
    (htok : tok.IsWithin js) (type : JsonPrimitiveType) :
    updateValueIfNoObject doc type tok = updateValueIfNoObject doc' type tok := by
  cases type with
  | bool => exact congrArg Except.toOption (parseBooleanValue_congr h h' htok)
  | int32 | int16 | int8 => exact congrArg Except.toOption (parseSignedValue_congr _ h h' htok)
  | uint32 | uint16 | uint8 =>
      exact congrArg Except.toOption (parseUnsignedValue_congr _ h h' htok)
  | float | double => exact congrArg Except.toOption (parseFloatValue_congr h h' htok)
  | string => exact congrArg Except.toOption (parseStringValue_congr h h' htok)
  | object => rfl

end Values

/-! ## Keys -/

/-- The first token behind the first one that is a string that equals the key. -/
def keyIndex (json : Document) (tokens : JsonTokens) (tokenCount : Nat) (key : List UInt8) :
    Option Nat :=
  findToken tokenCount fun i => if jsoneq json (tokenAt tokens i) key then some i else none

/-- What is stored and passed on for a value in a token. -/
def valueOf (json : Document) (type : JsonPrimitiveType) (tok : JsmnTok) : MatchedValue type where
  stored := updateValueIfNoObject json type tok
  dataLength := UInt32.ofInt (tok.stop - tok.start)
  dataPosition := tok.start

theorem findToken_map {α β : Type} (tokenCount : Nat) (f : Nat → Option α) (g : α → β) :
    findToken tokenCount (fun i => (f i).map g) = (findToken tokenCount f).map g := by
  unfold findToken
  induction List.range' 1 (tokenCount - 1) with
  | nil => rfl
  | cons i rest ih =>
      rw [List.findSome?_cons, List.findSome?_cons, ih]
      cases f i <;> rfl

theorem findToken_congr {α : Type} {tokenCount : Nat} {f g : Nat → Option α}
    (h : ∀ i < tokenCount, f i = g i) : findToken tokenCount f = findToken tokenCount g := by
  unfold findToken
  have hmem : ∀ i ∈ List.range' 1 (tokenCount - 1), f i = g i := by
    intro i hi
    apply h
    have hrange := List.mem_range'_1.mp hi
    omega
  generalize List.range' 1 (tokenCount - 1) = indices at hmem ⊢
  induction indices with
  | nil => rfl
  | cons i rest ih =>
      rw [List.findSome?_cons, List.findSome?_cons, hmem i List.mem_cons_self,
        ih fun j hj => hmem j (List.mem_cons_of_mem i hj)]

/-- A member is the token behind that of its key. -/
theorem isJsonKeyMatching_eq (json : Document) (tokens : JsonTokens) (tokenCount : Nat)
    (key : List UInt8) (type : JsonPrimitiveType) :
    isJsonKeyMatchingAndUpdateValue json tokens tokenCount key type =
      (keyIndex json tokens tokenCount key).map fun i =>
        valueOf json type (tokenAt tokens (i + 1)) := by
  unfold keyIndex
  rw [← findToken_map]
  unfold isJsonKeyMatchingAndUpdateValue
  congr 1
  funext i
  split <;> rfl

/-- The tokens of two arrays that are in use are the same and lie within the text. -/
structure SameTokens (js : List UInt8) (tokenCount : Nat) (tokens tokens' : JsonTokens) : Prop where
  eq : ∀ i < tokenCount, tokenAt tokens i = tokenAt tokens' i
  within : ∀ i < tokenCount, (tokenAt tokens' i).IsWithin js

section Keys

variable {doc doc' : Document} {js key : List UInt8} {tokens tokens' : JsonTokens}
  {tokenCount : Nat}

theorem SameTokens.symm (h : SameTokens js tokenCount tokens tokens') :
    SameTokens js tokenCount tokens' tokens where
  eq := fun i hi => (h.eq i hi).symm
  within := fun i hi => h.eq i hi ▸ h.within i hi

theorem keyIndex_congr (h : doc.Holds js) (h' : doc'.Holds js)
    (htokens : SameTokens js tokenCount tokens tokens') :
    keyIndex doc tokens tokenCount key = keyIndex doc' tokens' tokenCount key := by
  apply findToken_congr
  intro i hi
  rw [htokens.eq i hi, jsoneq_congr h h' (htokens.within i hi)]

/-- What is stored and passed on for a key depends on the text alone, unless the key
is the last token. -/
theorem isJsonKeyMatching_congr (h : doc.Holds js) (h' : doc'.Holds js)
    (htokens : SameTokens js tokenCount tokens tokens') (type : JsonPrimitiveType)
    (hlast : ∀ i, keyIndex doc' tokens' tokenCount key = some i → i + 1 < tokenCount) :
    isJsonKeyMatchingAndUpdateValue doc tokens tokenCount key type =
      isJsonKeyMatchingAndUpdateValue doc' tokens' tokenCount key type := by
  rw [isJsonKeyMatching_eq, isJsonKeyMatching_eq, keyIndex_congr h h' htokens]
  cases hindex : keyIndex doc' tokens' tokenCount key with
  | none => rfl
  | some i =>
      have hlt := hlast i hindex
      simp only [Option.map_some, valueOf, htokens.eq _ hlt,
        updateValueIfNoObject_congr h h' (htokens.within _ hlt)]

/-- The bytes that are passed on for a token. -/
theorem load_valueOf_congr (h : doc.Holds js) (h' : doc'.Holds js) {tok : JsmnTok}
    (htok : tok.IsWithin js) (type : JsonPrimitiveType) :
    doc.bytes.load (valueOf doc type tok).dataPosition (valueOf doc type tok).dataLength.toNat =
      doc'.bytes.load (valueOf doc type tok).dataPosition
        (valueOf doc type tok).dataLength.toNat := by
  have hlength : (UInt32.ofInt (tok.stop - tok.start)).toNat ≤ (tok.stop - tok.start).toNat := by
    have hle := htok.1
    simp only [UInt32.ofInt, UInt32.toNat_ofNat']
    omega
  apply h.load_eq h'
  have hle := htok.1
  have hstop := htok.2
  simp only [valueOf]
  omega

end Keys

theorem length_isJsonValidAndParse (json : Document) (tokens : JsonTokens) :
    (isJsonValidAndParse json tokens).2.length = tokens.length := by
  have hlength := length_jsmnParse (json.text 0) tokens
  unfold isJsonValidAndParse
  cases hparse : jsmnParse (json.text 0) tokens with
  | mk r found =>
      rw [hparse] at hlength
      cases r with
      | error e => exact hlength
      | ok tokenCount =>
          dsimp only
          split <;> exact hlength

theorem length_extractClientToken (json : Document) (tokens : JsonTokens) :
    (extractClientToken json tokens).2.length = tokens.length := by
  have hlength := length_isJsonValidAndParse json tokens
  unfold extractClientToken
  cases hvalid : isJsonValidAndParse json tokens with
  | mk r found =>
      rw [hvalid] at hlength
      cases r <;> exact hlength

/-- A text is tokenized in the same way whatever the array held before. -/
theorem sameTokens_of_isJsonValidAndParse {doc doc' : Document} {js : List UInt8}
    {tokens tokens' : JsonTokens} {tokenCount : Nat} (h : doc.Holds js) (h' : doc'.Holds js)
    (hlength : tokens.length = tokens'.length)
    (hcount : (isJsonValidAndParse doc tokens).1 = some tokenCount) :
    (isJsonValidAndParse doc' tokens').1 = some tokenCount ∧
      SameTokens js tokenCount (isJsonValidAndParse doc tokens).2
        (isJsonValidAndParse doc' tokens').2 := by
  obtain ⟨hresult, htokens⟩ := jsmnParse_congr js hlength
  unfold isJsonValidAndParse at hcount ⊢
  rw [h.text_eq (Nat.zero_le _), List.drop_zero] at hcount
  rw [h.text_eq (Nat.zero_le _), h'.text_eq (Nat.zero_le _), List.drop_zero]
  cases hparse : jsmnParse js tokens with
  | mk r found =>
      cases hparse' : jsmnParse js tokens' with
      | mk r' found' =>
          rw [hparse, hparse'] at hresult htokens
          rw [hparse] at hcount
          dsimp only at hresult htokens
          subst hresult
          cases r with
          | error e => cases hcount
          | ok count =>
              dsimp only at hcount ⊢
              split at hcount
              next => cases hcount
              next hvalid =>
                  cases hcount
                  have hfirst : tokenAt found' 0 = tokenAt found 0 :=
                    (htokens tokenCount rfl 0 (by omega)).symm
                  simp only [hfirst, if_neg hvalid]
                  exact ⟨trivial, htokens tokenCount rfl,
                    fun i hi => fitsIn_of_jsmnParse hparse' hi⟩

end MqttClient.Shadow
