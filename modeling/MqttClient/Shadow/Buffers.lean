import MqttClient.Shadow.Script
import MqttClient.Shadow.Documents
import MqttClient.Text.ArrayWrites

/-! # Copies of payloads and tokens

The payload of a message is copied behind no more than a look at its length, and the token
in it is copied by a function that does not know its caller's array: there are two arrays of
different sizes, and from one of them the token goes on into a record.
-/

namespace MqttClient.Shadow

def maxSizeClientTokenClientSequence : Nat := maxSizeClientIdWithSequence + 20

/-- The arrays that are copied into. -/
inductive CharArray where
  | shadowRxBuf | temporaryClientToken | extractedClientToken | clientTokenID
  deriving DecidableEq

def CharArray.size : CharArray → Nat
  | shadowRxBuf => shadowMaxSizeOfRxBuffer
  | temporaryClientToken => maxSizeClientTokenClientSequence
  | extractedClientToken | clientTokenID => maxSizeClientIdWithSequence

abbrev CharWrite := Text.ArrayWrite CharArray

/-- What is in the memory of an array after these writes. -/
def contents (array : CharArray) : Memory → List CharWrite → Memory
  | mem, [] => mem
  | mem, write :: writes =>
      contents array
        (if write.array = array then mem.store write.offset write.bytes else mem) writes

/-- Whatever the arrays hold before, there is a terminator in every one that is written. -/
def AreTerminated (writes : List CharWrite) : Prop :=
  ∀ write ∈ writes, ∀ mem, ∃ i < write.array.size, contents write.array mem writes i = 0

/-- What `strncpy` writes. -/
def strncpy (src : List UInt8) (n : Nat) : List UInt8 :=
  src.take n ++ List.replicate (n - src.length) 0

/-! ## The copies -/

/-- The `memcpy` of a payload to `shadowRxBuf`, and the terminator. -/
def payloadCopies (w : World) (m : MessageRef) : List CharWrite :=
  [⟨.shadowRxBuf, 0, w.readBuf.load m.payloadOff m.payloadLen⟩, ⟨.shadowRxBuf, m.payloadLen, [0]⟩]

/-- The token that `extractClientToken` takes for the value. -/
def clientTokenValue (json : Document) (tokens : JsonTokens) : Option JsmnTok :=
  match isJsonValidAndParse json tokens with
  | (none, _) => none
  | (some tokenCount, tokens) =>
      (keyIndex json tokens tokenCount shadowClientTokenString).map fun i => tokenAt tokens (i + 1)

/-- The variable `length` of `extractClientToken`. -/
def clientTokenLength (tok : JsmnTok) : Nat := ((tok.stop - tok.start) % 256).toNat

/-- What `extractClientToken` writes into its caller's array. -/
def tokenCopies (array : CharArray) (json : Document) (tokens : JsonTokens) : List CharWrite :=
  match clientTokenValue json tokens with
  | none => []
  | some tok =>
      let length := clientTokenLength tok
      [⟨array, 0, strncpy (json.textUpTo tok.start length) length⟩, ⟨array, length, [0]⟩]

def responseCopies (w : World) (m : MessageRef) : List CharWrite :=
  if m.payloadLen > shadowMaxSizeOfRxBuffer then []
  else
    let r := (w.withPayload m).withRxTokens
    payloadCopies w m ++
      match (w.withPayload m).rxTokenCount with
      | none => []
      | some _ => tokenCopies .temporaryClientToken r.rxDocument r.jsonTokenStruct

def deltaCopies (w : World) (m : MessageRef) : List CharWrite :=
  if m.payloadLen > shadowMaxSizeOfRxBuffer then [] else payloadCopies w m

/-- What a request copies, where it may come to be awaited. -/
def requestCopies (w : World) (jsonDocument : List UInt8) (isAwaited : Bool) : List CharWrite :=
  tokenCopies .extractedClientToken (.ofText jsonDocument) w.jsonTokenStruct ++
    match w.requestToken jsonDocument with
    | none => []
    | some token =>
        if isAwaited then [⟨.clientTokenID, 0, strncpy token maxSizeClientIdWithSequence⟩] else []

/-- Where something is copied: `AckStatusCallback` and `shadow_delta_callback` on a message,
and `aws_iot_shadow_internal_action` on a document. -/
inductive Copying where
  | response (w : World) (m : MessageRef)
  | delta (w : World) (m : MessageRef)
  | request (w : World) (jsonDocument : List UInt8) (isAwaited : Bool)

namespace Copying

def copies : Copying → List CharWrite
  | response w m => responseCopies w m
  | delta w m => deltaCopies w m
  | request w jsonDocument isAwaited => requestCopies w jsonDocument isAwaited

/-- Nothing is written outside the arrays, and what is in them is terminated. -/
structure IsSafe (copying : Copying) : Prop where
  inside : ∀ write ∈ copying.copies, write.IsInside CharArray.size
  terminated : AreTerminated copying.copies

/-- A token's value is shorter than the array, in the length that is looked at. -/
def TokenFits (array : CharArray) (value : Option JsmnTok) : Prop :=
  ∀ tok, value = some tok → clientTokenLength tok < array.size

/-- The payload leaves room for the terminator, and the token fits. -/
def Fits : Copying → Prop
  | response w m =>
      let r := (w.withPayload m).withRxTokens
      m.payloadLen ≠ shadowMaxSizeOfRxBuffer ∧
        (m.payloadLen < shadowMaxSizeOfRxBuffer → (w.withPayload m).rxTokenCount.isSome →
          TokenFits .temporaryClientToken (clientTokenValue r.rxDocument r.jsonTokenStruct))
  | delta _ m => m.payloadLen ≠ shadowMaxSizeOfRxBuffer
  | request w jsonDocument _ =>
      TokenFits .extractedClientToken (clientTokenValue (.ofText jsonDocument) w.jsonTokenStruct)

end Copying

/-! ## What they leave in the arrays -/

theorem length_strncpy (src : List UInt8) (n : Nat) : (strncpy src n).length = n := by
  rw [strncpy, List.length_append, List.length_take, List.length_replicate]
  omega

/-- A string that is shorter than the array is copied with a terminator. -/
theorem getElem?_strncpy {src : List UInt8} {n : Nat} (h : src.length < n) :
    (strncpy src n)[src.length]? = some 0 := by
  rw [strncpy, List.take_of_length_le h.le, List.getElem?_append_right le_rfl, Nat.sub_self,
    List.getElem?_replicate, if_pos (Nat.sub_pos_of_lt h)]

theorem contents_append (array : CharArray) (mem : Memory) (writes writes' : List CharWrite) :
    contents array mem (writes ++ writes') =
      contents array (contents array mem writes) writes' := by
  induction writes generalizing mem with
  | nil => rfl
  | cons write writes ih => exact ih _

theorem contents_of_forall_ne {array : CharArray} {writes : List CharWrite}
    (h : ∀ write ∈ writes, write.array ≠ array) (mem : Memory) :
    contents array mem writes = mem := by
  induction writes with
  | nil => rfl
  | cons write writes ih =>
      rw [contents, if_neg (h write List.mem_cons_self),
        ih fun write hwrite => h write (List.mem_cons_of_mem _ hwrite)]

/-- The last write to an array leaves its bytes there. -/
theorem contents_last {array : CharArray} (writes : List CharWrite) {rest : List CharWrite}
    {off i : Nat} {bytes : List UInt8} {b : UInt8} (hrest : ∀ write ∈ rest, write.array ≠ array)
    (hb : bytes[i]? = some b) (mem : Memory) :
    contents array mem (writes ++ ⟨array, off, bytes⟩ :: rest) (off + i) = b := by
  obtain ⟨hi, hget⟩ := List.getElem?_eq_some_iff.mp hb
  rw [contents_append, contents, contents_of_forall_ne hrest, if_pos rfl,
    Memory.store_apply _ _ hi, hget]

/-- The receive buffer is what the copies leave in it. -/
theorem shadowRxBuf_withPayload (w : World) (m : MessageRef) :
    (w.withPayload m).shadowRxBuf = contents .shadowRxBuf w.shadowRxBuf (payloadCopies w m) := rfl

/-- The token that is found is the string of which the copies are made. -/
theorem extractClientToken_eq (json : Document) (tokens : JsonTokens) :
    (extractClientToken json tokens).1 =
      (clientTokenValue json tokens).map fun tok =>
        json.textUpTo tok.start (clientTokenLength tok) := by
  unfold extractClientToken clientTokenValue
  cases isJsonValidAndParse json tokens with
  | mk tokenCount tokens =>
      cases tokenCount with
      | none => rfl
      | some tokenCount =>
          unfold keyIndex
          rw [Option.map_map, ← findToken_map]
          apply congrArg (findToken tokenCount)
          funext i
          split <;> rfl

/-- The token of a record is the string that has been copied into its array. -/
theorem clientTokenID_addToAckWaitList (w : World) (i : AckIndex) (p : Target)
    {token : List UInt8} (h : 0 ∉ token) (callback : CallbackName) (callbackContext : Nat) :
    ((w.addToAckWaitList i p token callback callbackContext).ackWaitList i).clientTokenID =
      (strncpy token maxSizeClientIdWithSequence).takeWhile (· ≠ 0) := by
  have htake : ∀ b ∈ token.take maxSizeClientIdWithSequence, decide (b ≠ 0) = true := by
    intro b hb
    rw [decide_eq_true_eq]
    intro hzero
    exact h (hzero ▸ List.mem_of_mem_take hb)
  have hrest : (List.replicate (maxSizeClientIdWithSequence - token.length) (0 : UInt8)).takeWhile
      (· ≠ 0) = [] := by
    cases maxSizeClientIdWithSequence - token.length <;> rfl
  rw [strncpy, List.takeWhile_append_of_pos htake, hrest, List.append_nil]
  simp only [World.addToAckWaitList, World.setAck, Function.update_self]

/-! ## When they are safe -/

/-- A copy of a token stays inside its array just when the token fits. -/
theorem isInside_tokenCopies {array : CharArray} {json : Document} {tokens : JsonTokens} :
    (∀ write ∈ tokenCopies array json tokens, write.IsInside CharArray.size) ↔
      Copying.TokenFits array (clientTokenValue json tokens) := by
  unfold tokenCopies Copying.TokenFits
  cases clientTokenValue json tokens with
  | none => exact iff_of_true (List.forall_mem_nil _) fun _ h => by cases h
  | some tok =>
      simp only [Option.some.injEq, forall_eq', List.forall_mem_cons, Text.ArrayWrite.IsInside,
        length_strncpy, List.length_singleton]
      constructor
      · rintro ⟨-, hlast, -⟩
        exact hlast
      · intro h
        exact ⟨by omega, h, List.forall_mem_nil _⟩

theorem array_of_mem_tokenCopies {array : CharArray} {json : Document} {tokens : JsonTokens}
    {write : CharWrite} (h : write ∈ tokenCopies array json tokens) : write.array = array := by
  unfold tokenCopies at h
  split at h
  · cases h
  · simp only [List.mem_cons, List.not_mem_nil, or_false] at h
    rcases h with rfl | rfl <;> rfl

/-- A token that fits is terminated where nothing is written behind it. -/
theorem terminated_tokenCopies {array : CharArray} {json : Document} {tokens : JsonTokens}
    (hfits : Copying.TokenFits array (clientTokenValue json tokens))
    (before : List CharWrite) {behind : List CharWrite}
    (hbehind : ∀ write ∈ behind, write.array ≠ array) {write : CharWrite}
    (hwrite : write ∈ tokenCopies array json tokens) (mem : Memory) :
    ∃ i < array.size,
      contents array mem (before ++ (tokenCopies array json tokens ++ behind)) i = 0 := by
  unfold tokenCopies Copying.TokenFits at *
  cases hvalue : clientTokenValue json tokens with
  | none => rw [hvalue] at hwrite; cases hwrite
  | some tok =>
      refine ⟨clientTokenLength tok + 0, hfits tok hvalue, ?_⟩
      simp only [List.cons_append, List.nil_append]
      rw [List.append_cons]
      exact contents_last _ hbehind rfl mem

/-- A payload that leaves room is terminated where nothing is written behind it. -/
theorem terminated_payloadCopies {w : World} {m : MessageRef} {behind : List CharWrite}
    (hroom : m.payloadLen < shadowMaxSizeOfRxBuffer)
    (hbehind : ∀ write ∈ behind, write.array ≠ .shadowRxBuf) (mem : Memory) :
    ∃ i < CharArray.shadowRxBuf.size,
      contents .shadowRxBuf mem (payloadCopies w m ++ behind) i = 0 := by
  refine ⟨m.payloadLen + 0, hroom, ?_⟩
  exact contents_last [_] hbehind rfl mem

theorem isInside_payloadCopies {w : World} {m : MessageRef} :
    (∀ write ∈ payloadCopies w m, write.IsInside CharArray.size) ↔
      m.payloadLen < shadowMaxSizeOfRxBuffer := by
  simp only [payloadCopies, List.forall_mem_cons, Text.ArrayWrite.IsInside, Memory.length_load,
    List.length_singleton, CharArray.size]
  constructor
  · rintro ⟨-, hlast, -⟩
    exact hlast
  · intro h
    exact ⟨by omega, h, List.forall_mem_nil _⟩

theorem array_of_mem_payloadCopies {w : World} {m : MessageRef} {write : CharWrite}
    (h : write ∈ payloadCopies w m) : write.array = .shadowRxBuf := by
  simp only [payloadCopies, List.mem_cons, List.not_mem_nil, or_false] at h
  rcases h with rfl | rfl <;> rfl

namespace Copying

variable {w : World} {m : MessageRef}

/-- A payload is copied, and then something to other arrays. -/
theorem isSafe_iff_of_payload {copying : Copying} (rest : List CharWrite)
    (hcopies : copying.copies =
      if m.payloadLen > shadowMaxSizeOfRxBuffer then [] else payloadCopies w m ++ rest)
    (hrest : ∀ write ∈ rest, write.array ≠ .shadowRxBuf) :
    copying.IsSafe ↔ m.payloadLen ≠ shadowMaxSizeOfRxBuffer ∧
      (m.payloadLen < shadowMaxSizeOfRxBuffer →
        (∀ write ∈ rest, write.IsInside CharArray.size) ∧
          ∀ write ∈ rest, ∀ mem, ∃ i < write.array.size,
            contents write.array mem (payloadCopies w m ++ rest) i = 0) := by
  by_cases hlength : m.payloadLen > shadowMaxSizeOfRxBuffer
  · -- a payload that is too long is not copied
    rw [if_pos hlength] at hcopies
    refine iff_of_true ⟨?_, ?_⟩ ⟨hlength.ne', fun hlt => absurd hlt hlength.not_gt⟩
    · rw [hcopies]
      exact List.forall_mem_nil _
    · rw [hcopies]
      exact List.forall_mem_nil _
  · rw [if_neg hlength] at hcopies
    constructor
    · intro h
      have hinside := h.inside
      rw [hcopies, List.forall_mem_append, isInside_payloadCopies] at hinside
      refine ⟨hinside.1.ne, fun _ => ⟨hinside.2, ?_⟩⟩
      intro write hwrite
      have hterminated := h.terminated
      rw [hcopies] at hterminated
      exact hterminated write (List.mem_append_right _ hwrite)
    · rintro ⟨hne, h⟩
      have hroom : m.payloadLen < shadowMaxSizeOfRxBuffer := by omega
      obtain ⟨hinside, hterminated⟩ := h hroom
      refine ⟨?_, ?_⟩
      · rw [hcopies, List.forall_mem_append]
        exact ⟨isInside_payloadCopies.mpr hroom, hinside⟩
      · rw [hcopies]
        intro write hwrite
        rcases List.mem_append.mp hwrite with hpayload | hbehind
        · rw [array_of_mem_payloadCopies hpayload]
          exact terminated_payloadCopies hroom hrest
        · exact hterminated write hbehind

theorem isSafe_delta_iff : (delta w m).IsSafe ↔ (delta w m).Fits := by
  rw [isSafe_iff_of_payload (w := w) (m := m) [] _ (List.forall_mem_nil _)]
  · apply and_iff_left
    exact fun _ => ⟨List.forall_mem_nil _, List.forall_mem_nil _⟩
  · rw [List.append_nil]
    rfl

theorem isSafe_response_iff : (response w m).IsSafe ↔ (response w m).Fits := by
  cases hcount : (w.withPayload m).rxTokenCount with
  | none =>
      rw [isSafe_iff_of_payload (w := w) (m := m) [] _ (List.forall_mem_nil _), Fits, hcount]
      · apply and_congr_right
        intro _
        exact iff_of_true (fun _ => ⟨List.forall_mem_nil _, List.forall_mem_nil _⟩)
          fun _ hsome => nomatch hsome
      · rw [copies, responseCopies, hcount]
  | some tokenCount =>
      have hne :
        ∀ write ∈ tokenCopies .temporaryClientToken (w.withPayload m).withRxTokens.rxDocument
          (w.withPayload m).withRxTokens.jsonTokenStruct, write.array ≠ .shadowRxBuf := by
        intro write hwrite
        rw [array_of_mem_tokenCopies hwrite]
        exact CharArray.noConfusion
      rw [isSafe_iff_of_payload (w := w) (m := m) _ _ hne, Fits, hcount]
      · apply and_congr_right
        intro _
        apply imp_congr_right
        intro _
        rw [isInside_tokenCopies,
          imp_iff_right (show (some tokenCount).isSome = true from rfl)]
        apply and_iff_left_of_imp
        intro hfits write hwrite mem
        rw [array_of_mem_tokenCopies hwrite]
        have hterminated := terminated_tokenCopies hfits (payloadCopies w m)
          (List.forall_mem_nil _) hwrite mem
        rw [List.append_nil] at hterminated
        exact hterminated
      · rw [copies, responseCopies, hcount]

/-- A token that fits into its array fits into a record as well. -/
theorem length_requestToken {jsonDocument token : List UInt8}
    (hfits : TokenFits .extractedClientToken
      (clientTokenValue (.ofText jsonDocument) w.jsonTokenStruct))
    (htoken : w.requestToken jsonDocument = some token) :
    token.length < maxSizeClientIdWithSequence := by
  rw [World.requestToken, extractClientToken_eq] at htoken
  obtain ⟨tok, hvalue, rfl⟩ := Option.map_eq_some_iff.mp htoken
  exact Document.length_textUpTo_le.trans_lt (hfits tok hvalue)

theorem isSafe_request_iff {jsonDocument : List UInt8} {isAwaited : Bool} :
    (request w jsonDocument isAwaited).IsSafe ↔ (request w jsonDocument isAwaited).Fits := by
  constructor
  · intro h
    exact isInside_tokenCopies.mp fun write hwrite => h.inside write (List.mem_append_left _ hwrite)
  · intro hfits
    -- the copy to the record, if there is one
    obtain ⟨behind, hcopies, hbehind⟩ : ∃ behind,
        (request w jsonDocument isAwaited).copies =
          tokenCopies .extractedClientToken (.ofText jsonDocument) w.jsonTokenStruct ++ behind ∧
        (behind = [] ∨ ∃ token, token.length < maxSizeClientIdWithSequence ∧
          behind = [⟨.clientTokenID, 0, strncpy token maxSizeClientIdWithSequence⟩]) := by
      refine ⟨_, rfl, ?_⟩
      cases htoken : w.requestToken jsonDocument with
      | none => exact .inl rfl
      | some token =>
          cases isAwaited with
          | false => exact .inl rfl
          | true => exact .inr ⟨token, length_requestToken hfits htoken, rfl⟩
    have hother : ∀ write ∈ behind, write.array ≠ .extractedClientToken := by
      rcases hbehind with rfl | ⟨token, -, rfl⟩
      · exact List.forall_mem_nil _
      · exact List.forall_mem_singleton.mpr CharArray.noConfusion
    refine ⟨?_, ?_⟩
    · rw [hcopies, List.forall_mem_append, isInside_tokenCopies]
      refine ⟨hfits, ?_⟩
      rcases hbehind with rfl | ⟨token, -, rfl⟩
      · exact List.forall_mem_nil _
      · rw [List.forall_mem_singleton, Text.ArrayWrite.IsInside, length_strncpy, Nat.zero_add]
        exact le_rfl
    · rw [hcopies]
      intro write hwrite mem
      rcases List.mem_append.mp hwrite with htoken | hrecord
      · rw [array_of_mem_tokenCopies htoken]
        exact terminated_tokenCopies hfits [] hother htoken mem
      · rcases hbehind with rfl | ⟨token, hlength, rfl⟩
        · cases hrecord
        · rw [List.mem_singleton.mp hrecord]
          refine ⟨0 + token.length, by rw [Nat.zero_add]; exact hlength, ?_⟩
          exact contents_last _ (List.forall_mem_nil _) (getElem?_strncpy hlength) mem

end Copying

/-- A response with a token of 110 characters. -/
def longTokenResponse : List UInt8 :=
  ascii "\x7b\"clientToken\":\"" ++ List.replicate 110 97 ++ ascii "\"\x7d"

/-- The response has been read, and it is the whole message. -/
def longTokenWorld : World :=
  { blankWorld with readBuf := (Document.ofText longTokenResponse).bytes }

def longTokenMessage : MessageRef where
  topicOff := 0
  topicNameLen := 0
  payloadOff := 0
  payloadLen := longTokenResponse.length

theorem clientTokenValue_longTokenResponse :
    (longTokenWorld.withPayload longTokenMessage).rxTokenCount = some 3 ∧
      (clientTokenValue (longTokenWorld.withPayload longTokenMessage).withRxTokens.rxDocument
        (longTokenWorld.withPayload longTokenMessage).withRxTokens.jsonTokenStruct).map
          clientTokenLength = some 110 := by
  decide +kernel

end MqttClient.Shadow
