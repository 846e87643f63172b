import MqttClient.Shadow.Builder
import MqttClient.Shadow.Buffers
import MqttClient.Shadow.Members
import MqttClient.Shadow.Statuses

/-! # A token on its way

The token that is printed into a request is taken out of it again, kept in a record, and
compared with the token that a response brings back. It is copied from array to array, and
two of them are smaller than the longest token with its terminator.
-/

open Text

namespace MqttClient.Shadow

/-! ## Documents with a token -/

/-- A document for whose nodes there are tokens enough. -/
structure ShadowDocument where
  members : JsonMembers
  text : List UInt8
  isDocument : members.IsDocument text
  nonzero : 0 ∉ text
  nodes_le : (JsonValue.object members).nodes.length ≤ maxJsonTokenExpected

namespace ShadowDocument

/-- The first `clientToken` of the document with something behind it is the name of a
member, and the member's value is the token. -/
def Carries (doc : ShadowDocument) (token : List UInt8) : Prop :=
  ∃ i, nameWith shadowClientTokenString (fun _ => true) 0 doc.members.nodes = some i ∧
    doc.members.memberAt i = some (shadowClientTokenString, .string token)

/-- `extractClientToken` comes upon a member of the document with this token, and copies it. -/
structure Yields (doc : ShadowDocument) (json : Document) (tokens : JsonTokens)
    (token : List UInt8) : Prop where
  member : ∃ i, takenName json (isJsonValidAndParse json tokens).2 (doc.members.nodes.length + 1)
      shadowClientTokenString (copiedToken json) = some (i + 1) ∧
    doc.members.memberAt i = some (shadowClientTokenString, .string token)
  extracted : (extractClientToken json tokens).1 = some token

section Extraction

variable {doc : ShadowDocument} {json : Document} {tokens : JsonTokens} {token : List UInt8}

/-- What the loop of `extractClientToken` comes upon in the document's tokens. -/
theorem exists_searched (hdoc : json.Holds doc.text)
    (htokens : tokens.length = maxJsonTokenExpected) :
    ∃ found, isJsonValidAndParse json tokens = (some (doc.members.nodes.length + 1), found) ∧
      (∀ i (node : JsonNode), doc.members.nodes[i]? = some node →
        node.Marks doc.text (tokenAt found (i + 1))) ∧
      Searched json found shadowClientTokenString (copiedToken json) (fun _ => true) 0
        doc.members.nodes := by
  obtain ⟨found, hparse, hmarks⟩ :=
    isJsonValidAndParse_of_isDocument doc.isDocument hdoc (htokens ▸ doc.nodes_le)
  have hnodes : (JsonValue.object doc.members).nodes = .object :: doc.members.nodes := by
    rw [JsonValue.nodes]
  have hmark : ∀ i (node : JsonNode), doc.members.nodes[i]? = some node →
      node.Marks doc.text (tokenAt found (i + 1)) := by
    intro i node hnode
    apply hmarks (i + 1) node
    rw [hnodes]
    exact hnode
  rw [hnodes, List.length_cons] at hparse
  refine ⟨found, hparse, hmark, searched hdoc (by decide) (fun _ _ _ => rfl) ?_⟩
  intro i node hnode
  rw [Nat.zero_add, Nat.add_comm]
  exact hmark i node hnode

/-- A token that 8 bits can count is found just when the document carries it. -/
theorem yields_iff (hdoc : json.Holds doc.text) (htokens : tokens.length = maxJsonTokenExpected)
    (hlength : token.length < 256) : doc.Yields json tokens token ↔ doc.Carries token := by
  obtain ⟨found, hparse, hmark, hsearched⟩ := exists_searched hdoc htokens
  have hextract : (extractClientToken json tokens).1 =
      lookup json found (doc.members.nodes.length + 1) shadowClientTokenString
      (copiedToken json) := by
    rw [extractClientToken_eq_lookup hparse]
  cases hsearched with
  | found m a hname hread hlookup htaken =>
      constructor
      · intro h
        obtain ⟨i, hi, hat⟩ := h.member
        rw [hparse] at hi
        have him : i = m := by
          have hsame := hi.symm.trans htaken
          simpa using hsame
        subst him
        exact ⟨i, hname, hat⟩
      · rintro ⟨i, hi, hat⟩
        have him : m = i := Option.some.inj (hname.symm.trans hi)
        subst him
        have hvalue := hmark _ _ (JsonMembers.getElem?_of_memberAt hat).2
        rw [copiedToken_string hdoc hvalue, Nat.mod_eq_of_lt hlength, List.take_length] at hread
        refine ⟨⟨m, ?_, hat⟩, ?_⟩
        · rw [hparse]
          exact htaken
        · rw [hextract, hread]
          exact hlookup
  | missing hname | beyond hname =>
      -- a member's name has its value behind it, and would have been come upon
      apply iff_of_false
      · intro h
        obtain ⟨i, -, hat⟩ := h.member
        obtain ⟨hkey, hvalue⟩ := JsonMembers.getElem?_of_memberAt hat
        exact nameWith_ne_none hkey hvalue rfl hname
      · rintro ⟨i, hi, -⟩
        rw [hname] at hi
        cases hi

/-- The value that is copied has the length of the token. -/
theorem tokenFits_iff (hdoc : json.Holds doc.text) (htokens : tokens.length = maxJsonTokenExpected)
    (hlength : token.length < 256) (h : doc.Carries token) (array : CharArray) :
    Copying.TokenFits array (clientTokenValue json tokens) ↔ token.length < array.size := by
  obtain ⟨found, hparse, hmark, hsearched⟩ := exists_searched hdoc htokens
  obtain ⟨i, hi, hat⟩ := h
  cases hsearched with
  | found m a hname hread hlookup htaken =>
      have him : m = i := Option.some.inj (hname.symm.trans hi)
      subst him
      have hkey : keyIndex json found (doc.members.nodes.length + 1) shadowClientTokenString =
          some (m + 1) := htaken
      have hvalue : clientTokenValue json tokens = some (tokenAt found (m + 2)) := by
        unfold clientTokenValue
        rw [hparse]
        dsimp only
        rw [hkey]
        rfl
      have hmarks : (JsonNode.string token).Marks doc.text (tokenAt found (m + 2)) :=
        hmark _ _ (JsonMembers.getElem?_of_memberAt hat).2
      obtain ⟨-, hstop, -⟩ := hmarks
      have hsame : clientTokenLength (tokenAt found (m + 2)) = token.length := by
        rw [clientTokenLength]
        omega
      rw [Copying.TokenFits, hvalue]
      simp only [Option.some.injEq, forall_eq', hsame]
  | missing hname | beyond hname =>
      rw [hname] at hi
      cases hi

end Extraction

end ShadowDocument

/-- The document in which there is nothing but a token. -/
def tokenOnlyDocument (token : List UInt8) (h : ∀ b ∈ token, isSpecial b = false) :
    ShadowDocument where
  members := .cons shadowClientTokenString (.string token) .nil
  text := ascii "\x7b\"clientToken\":\"" ++ (token ++ ascii "\"\x7d")
  isDocument := by
    have hspells := spells_cons [] nofun (show IsStringText shadowClientTokenString from rfl)
      (spells_string (isStringText_of_isVerbatim h)) spells_nil
    apply JsonMembers.isDocument_of_spells hspells
    rw [quoted, quoted]
    simp only [JsonMembers.comma, List.append_assoc, List.append_nil, List.nil_append]
    rfl
  nonzero := by
    rw [List.mem_append, List.mem_append]
    rintro (hopen | htoken | hclose)
    · exact absurd hopen (by decide)
    · exact absurd (h 0 htoken) (by decide)
    · exact absurd hclose (by decide)
  nodes_le := (by decide : 3 ≤ maxJsonTokenExpected)

theorem length_tokenOnlyDocument {token : List UInt8} (h : ∀ b ∈ token, isSpecial b = false) :
    (tokenOnlyDocument token h).text.length = token.length + 18 := by
  rw [tokenOnlyDocument, List.length_append, List.length_append]
  change 16 + (token.length + 2) = _
  omega

theorem carries_tokenOnlyDocument {token : List UInt8} (h : ∀ b ∈ token, isSpecial b = false) :
    (tokenOnlyDocument token h).Carries token := ⟨0, rfl, rfl⟩

/-! ## The way of a token -/

/-- A request and the response to it: the client id that is connected with and the value of
the counter for the token, the worlds in which the request is made, its record is filled and the
response comes in, and the documents of both. -/
structure Exchange where
  mqttClientId : Text
  plain : ∀ b ∈ mqttClientId.chars, isSpecial b = false
  clientTokenNum : UInt32
  request : ShadowDocument
  response : ShadowDocument
  requesting : World
  requesting_tokens : requesting.jsonTokenStruct.length = maxJsonTokenExpected
  filling : World
  index : AckIndex
  target : Target
  callback : CallbackName
  callbackContext : Nat
  receiving : World
  receiving_tokens : receiving.jsonTokenStruct.length = maxJsonTokenExpected
  message : MessageRef
  payload : receiving.readBuf.load message.payloadOff message.payloadLen = response.text
  payload_le : message.payloadOff + message.payloadLen ≤ mqttRxBufLen
  /-- The record is as it was filled with what was extracted from the request. -/
  awaiting : ∀ token, requesting.requestToken request.text = some token →
    receiving.ackWaitList index =
      (filling.addToAckWaitList index target token callback callbackContext).ackWaitList index

namespace Exchange

/-- What is kept of the client id. -/
def clientID (x : Exchange) : List UInt8 :=
  x.mqttClientId.chars.take (maxSizeOfUniqueClientIdBytes - 1)

def token (x : Exchange) : List UInt8 := clientToken x.clientID x.clientTokenNum

/-- The token is the same string wherever it is, nothing is written outside an array, and the
response finds the record. -/
structure KeepsToken (x : Exchange) : Prop where
  identified : x.clientID.length < maxSizeOfUniqueClientIdBytes
  printed : ∀ w : World, w.mqttClientID = x.clientID → w.clientTokenNum = x.clientTokenNum →
    w.emptyJsonWithClientToken.length < maxSizeClientTokenClientSequence ∧
      ∃ doc : ShadowDocument, doc.text = w.emptyJsonWithClientToken ∧ doc.Carries x.token
  extracted : x.request.Yields (.ofText x.request.text) x.requesting.jsonTokenStruct x.token
  requested : (Copying.request x.requesting x.request.text true).IsSafe
  returned : x.response.Yields (x.receiving.withPayload x.message).withRxTokens.rxDocument
    (x.receiving.withPayload x.message).withRxTokens.jsonTokenStruct x.token
  responded : (Copying.response x.receiving x.message).IsSafe
  received : x.receiving.ackToken x.message = some x.token
  found : x.receiving.Awaits x.token x.index

end Exchange

/-! ## What a token looks like -/

/-- A token needs no escape where the client id needs none. -/
theorem plain_clientToken {mqttClientID : List UInt8} (h : ∀ b ∈ mqttClientID, isSpecial b = false)
    (n : UInt32) : ∀ b ∈ clientToken mqttClientID n, isSpecial b = false := by
  intro b hb
  rw [clientToken, List.mem_append, List.mem_append] at hb
  rcases hb with (hid | hdash) | hnum
  · exact h b ((List.takeWhile_prefix _).subset hid)
  · rw [List.mem_singleton.mp hdash]
    rfl
  · rw [printToken, ascii_toString] at hnum
    exact (isVerbatim_decimal _).2 b hnum

theorem length_printToken_le (n : UInt32) : (printToken n).length ≤ 11 := by
  have hdigits {k : Nat} (hk : k < 10 ^ 10) : (digits k).length ≤ 10 := by
    rw [digits, List.length_map]
    exact (Nat.length_toDigits_le_iff (by decide) (by decide)).mpr hk
  have hlow := n.toInt32.le_toInt
  have hhigh := n.toInt32.toInt_lt
  rw [printToken, ascii_toString]
  cases hsign : n.toInt32.toInt with
  | ofNat k =>
      have hk : n.toInt32.toInt = (k : Int) := hsign
      exact Nat.le_succ_of_le (hdigits (by omega))
  | negSucc k =>
      rw [decimal, List.length_cons]
      exact Nat.succ_le_succ (hdigits (by omega))

theorem length_clientToken_le (mqttClientID : List UInt8) (n : UInt32) :
    (clientToken mqttClientID n).length ≤ mqttClientID.length + 12 := by
  have hid : (mqttClientID.takeWhile (· ≠ 0)).length ≤ mqttClientID.length :=
    (List.takeWhile_prefix _).length_le
  have hnum := length_printToken_le n
  rw [clientToken, List.length_append, List.length_append, show (ascii "-").length = 1 from rfl]
  omega

namespace Exchange

variable (x : Exchange)

theorem zero_not_mem_clientID : 0 ∉ x.clientID := by
  intro hmem
  exact x.mqttClientId.nonzero (List.mem_of_mem_take hmem)

theorem token_eq : x.token = x.clientID ++ ascii "-" ++ printToken x.clientTokenNum := by
  have hself : x.clientID.takeWhile (· ≠ 0) = x.clientID := by
    rw [List.takeWhile_eq_self_iff]
    intro b hb
    apply decide_eq_true
    intro hzero
    exact x.zero_not_mem_clientID (hzero ▸ hb)
  rw [token, clientToken, hself]

theorem length_clientID_lt : x.clientID.length < maxSizeOfUniqueClientIdBytes := by
  have hle : x.clientID.length ≤ maxSizeOfUniqueClientIdBytes - 1 := List.length_take_le _ _
  exact Nat.lt_of_le_pred (by decide) hle

theorem length_token :
    x.token.length = x.clientID.length + (printToken x.clientTokenNum).length + 1 := by
  rw [token_eq, List.length_append, List.length_append, show (ascii "-").length = 1 from rfl]
  omega

theorem length_token_le : x.token.length ≤ 91 := by
  have hid : x.clientID.length < 80 := x.length_clientID_lt
  exact (length_clientToken_le x.clientID x.clientTokenNum).trans (by omega)

theorem plain_token : ∀ b ∈ x.token, isSpecial b = false :=
  plain_clientToken (fun b hb => x.plain b (List.mem_of_mem_take hb)) x.clientTokenNum

/-! ## Where it is printed and where it comes back -/

theorem emptyJsonWithClientToken_eq {w : World} (hid : w.mqttClientID = x.clientID)
    (hnum : w.clientTokenNum = x.clientTokenNum) :
    w.emptyJsonWithClientToken = (tokenOnlyDocument x.token x.plain_token).text := by
  change _ = ascii "\x7b\"clientToken\":\"" ++ (x.token ++ ascii "\"\x7d")
  rw [World.emptyJsonWithClientToken, hid, hnum, token_eq]
  simp only [List.append_assoc]

theorem payloadLen_lt : x.message.payloadLen < shadowMaxSizeOfRxBuffer := by
  have hle := x.payload_le
  rw [mqttRxBufLen] at hle
  rw [shadowMaxSizeOfRxBuffer]
  omega

/-- The payload of the response, copied to the buffer for documents. -/
theorem holds_response :
    (x.receiving.withPayload x.message).rxDocument.Holds x.response.text := by
  have hlength : x.response.text.length = x.message.payloadLen := by
    rw [← x.payload, Memory.length_load]
  have hbytes : (x.receiving.withPayload x.message).rxDocument.bytes =
      (x.receiving.shadowRxBuf.store 0 x.response.text).store x.response.text.length [0] := by
    rw [hlength, ← x.payload]
    rfl
  refine ⟨?_, x.response.nonzero, ?_, ?_⟩
  · intro i hi
    have hbyte : x.receiving.shadowRxBuf.store 0 x.response.text (0 + i) = x.response.text[i] :=
      Memory.store_apply _ _ hi
    rw [Nat.zero_add] at hbyte
    rw [hbytes, Memory.store_apply_of_lt _ _ hi, hbyte]
  · rw [hbytes]
    exact Memory.store_apply _ [0] Nat.zero_lt_one
  · rw [hlength]
    exact x.payloadLen_lt.le

theorem length_receiving_tokens :
    (x.receiving.withPayload x.message).withRxTokens.jsonTokenStruct.length =
      maxJsonTokenExpected := by
  rw [World.withRxTokens, length_isJsonValidAndParse]
  exact x.receiving_tokens

/-- The token by which the record is looked for is the one that is extracted. -/
theorem ackToken_eq :
    x.receiving.ackToken x.message =
      (extractClientToken (x.receiving.withPayload x.message).withRxTokens.rxDocument
        (x.receiving.withPayload x.message).withRxTokens.jsonTokenStruct).1 := by
  obtain ⟨found, hparse, -⟩ :=
    ShadowDocument.exists_searched x.holds_response x.receiving_tokens
  have hcount : (x.receiving.withPayload x.message).rxTokenCount =
      some (x.response.members.nodes.length + 1) := congrArg Prod.fst hparse
  rw [World.ackToken, if_neg x.payloadLen_lt.not_gt, hcount]
  rfl

/-! ## When it is the same everywhere -/

/-- A token that leaves room for a terminator in a record is what the record holds. -/
theorem tokenText_addToAckWaitList (w : World) (i : AckIndex) (p : Target) {token : List UInt8}
    (hlength : token.length < maxSizeClientIdWithSequence) (callback : CallbackName)
    (callbackContext : Nat) :
    ((w.addToAckWaitList i p token callback callbackContext).ackWaitList i).tokenText = token := by
  simp only [World.addToAckWaitList, World.setAck, Function.update_self, AckRecord.tokenText,
    List.take_of_length_le hlength.le, if_pos hlength]

/-- A token that is not longer than 89 characters is kept where both documents carry it. -/
theorem keepsToken_of_short (hlength : x.token.length < maxSizeClientIdWithSequence)
    (hrequest : x.request.Carries x.token) (hresponse : x.response.Carries x.token) :
    x.KeepsToken := by
  have hbyte : x.token.length < 256 := x.length_token_le.trans_lt (by decide)
  have hdoc := Document.holds_ofText x.request.nonzero
  have hrx := x.holds_response
  have htokens := x.length_receiving_tokens
  have hextracted := (ShadowDocument.yields_iff hdoc x.requesting_tokens hbyte).mpr hrequest
  have hreturned := (ShadowDocument.yields_iff hrx htokens hbyte).mpr hresponse
  have hrecord := x.awaiting x.token hextracted.extracted
  refine ⟨x.length_clientID_lt, ?_, hextracted, ?_, hreturned, ?_, ?_, ?_⟩
  · intro w hid hnum
    have htext := x.emptyJsonWithClientToken_eq hid hnum
    refine ⟨?_, tokenOnlyDocument x.token x.plain_token, htext.symm, carries_tokenOnlyDocument _⟩
    rw [htext, length_tokenOnlyDocument]
    exact (Nat.add_le_add_right x.length_token_le 18).trans_lt (by decide)
  · apply Copying.isSafe_request_iff.mpr
    exact (ShadowDocument.tokenFits_iff hdoc x.requesting_tokens hbyte hrequest _).mpr hlength
  · apply Copying.isSafe_response_iff.mpr
    refine ⟨x.payloadLen_lt.ne, fun _ _ => ?_⟩
    apply (ShadowDocument.tokenFits_iff hrx htokens hbyte hresponse _).mpr
    exact hlength.trans (by decide)
  · rw [x.ackToken_eq]
    exact hreturned.extracted
  · rw [World.Awaits, hrecord]
    refine ⟨?_, tokenText_addToAckWaitList _ _ _ hlength _ _⟩
    simp only [World.addToAckWaitList, World.setAck, Function.update_self]

/-- What is copied out of the request and stays inside the array is shorter than it. -/
theorem KeepsToken.length_lt {x : Exchange} (h : x.KeepsToken) :
    x.token.length < maxSizeClientIdWithSequence := by
  have hbyte : x.token.length < 256 := x.length_token_le.trans_lt (by decide)
  have hdoc := Document.holds_ofText x.request.nonzero
  have hrequest := (ShadowDocument.yields_iff hdoc x.requesting_tokens hbyte).mp h.extracted
  exact (ShadowDocument.tokenFits_iff hdoc x.requesting_tokens hbyte hrequest _).mp
    (Copying.isSafe_request_iff.mp h.requested)

/-- A response with a status is then reported to a record. -/
theorem KeepsToken.reports {x : Exchange} (h : x.KeepsToken) {status : AckStatus}
    (hallows : AllowsStatus (x.receiving.readText x.message.topicOff) status) :
    ∃ j, x.receiving.Reports x.message j status :=
  World.reports_of_awaits h.received h.found hallows

/-- A token is the same string from the request to its response just when it leaves room for a
terminator in the smaller arrays, and both documents carry it. -/
theorem keepsToken_iff :
    x.KeepsToken ↔ x.clientID.length + (printToken x.clientTokenNum).length ≤ 88 ∧
      x.request.Carries x.token ∧ x.response.Carries x.token := by
  have hbyte : x.token.length < 256 := x.length_token_le.trans_lt (by decide)
  have htoken := x.length_token
  constructor
  · intro h
    have hlength := h.length_lt
    rw [maxSizeClientIdWithSequence] at hlength
    refine ⟨by omega, ?_, ?_⟩
    · have hdoc := Document.holds_ofText x.request.nonzero
      exact (ShadowDocument.yields_iff hdoc x.requesting_tokens hbyte).mp h.extracted
    · have htokens := x.length_receiving_tokens
      exact (ShadowDocument.yields_iff x.holds_response htokens hbyte).mp h.returned
  · rintro ⟨hlength, hrequest, hresponse⟩
    apply x.keepsToken_of_short _ hrequest hresponse
    rw [maxSizeClientIdWithSequence]
    omega

end Exchange

/-! ## The longest client id -/

/-- A request for which nothing but a token is sent, and a response that brings nothing else
back. -/
def echo (mqttClientId : Text) (plain : ∀ b ∈ mqttClientId.chars, isSpecial b = false)
    (clientTokenNum : UInt32) : Exchange :=
  let clientID := mqttClientId.chars.take (maxSizeOfUniqueClientIdBytes - 1)
  let doc := tokenOnlyDocument (clientToken clientID clientTokenNum)
    (plain_clientToken (fun b hb => plain b (List.mem_of_mem_take hb)) clientTokenNum)
  let extracted := (blankWorld.requestToken doc.text).getD []
  { mqttClientId := mqttClientId
    plain := plain
    clientTokenNum := clientTokenNum
    request := doc
    response := doc
    requesting := blankWorld
    requesting_tokens := rfl
    filling := blankWorld
    index := ⟨0, by decide⟩
    target := ⟨[], .get⟩
    callback := 0
    callbackContext := 0
    receiving := { blankWorld.addToAckWaitList ⟨0, by decide⟩ ⟨[], .get⟩ extracted 0 0 with
      readBuf := (Document.ofText doc.text).bytes }
    receiving_tokens := rfl
    message := ⟨0, 0, 0, doc.text.length⟩
    payload := by
      have hload := (Document.holds_ofText doc.nonzero).load_eq_take (Nat.zero_add _).le
      rw [List.drop_zero, List.take_length] at hload
      exact hload
    payload_le := by
      have hid : clientID.length ≤ maxSizeOfUniqueClientIdBytes - 1 := List.length_take_le _ _
      have htoken := length_clientToken_le clientID clientTokenNum
      change 0 + doc.text.length ≤ 131072
      rw [length_tokenOnlyDocument]
      rw [maxSizeOfUniqueClientIdBytes] at hid
      omega
    awaiting := by
      intro token htoken
      have hextracted : extracted = token := congrArg (·.getD []) htoken
      rw [← hextracted] }

/-- A client id of which as much is kept as can be. -/
def longClientId : Text := ⟨List.replicate 79 97, by decide⟩

theorem plain_longClientId : ∀ b ∈ longClientId.chars, isSpecial b = false := by
  intro b hb
  rw [List.eq_of_mem_replicate hb]
  rfl

/-- After a thousand million requests the token is too long for a record. -/
theorem not_keepsToken_longClientId :
    ¬ ∀ x : Exchange, x.request.Carries x.token → x.response.Carries x.token → x.KeepsToken := by
  intro h
  let x := echo longClientId plain_longClientId 1000000000
  have hcarries : x.request.Carries x.token := carries_tokenOnlyDocument x.plain_token
  have hlength := (h x hcarries hcarries).length_lt
  rw [x.length_token, printToken, ascii_toString] at hlength
  exact absurd hlength (by decide)

end MqttClient.Shadow
