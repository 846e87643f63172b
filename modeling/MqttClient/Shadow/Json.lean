import MqttClient.Shadow.JsonUtils

/-! # Looking members up in a document

All documents are tokenized into one array of tokens, which the lookups then
search from its second token on for a string that equals the name. What they
take for the member's value is the next token of the array.
-/

namespace MqttClient.Shadow

def maxJsonTokenExpected : Nat := 120

/-- `SHADOW_CLIENT_TOKEN_STRING` and `SHADOW_VERSION_STRING`. -/
def shadowClientTokenString : List UInt8 := ascii "clientToken"
def shadowVersionString : List UInt8 := ascii "version"

/-- `jsonTokenStruct`. -/
abbrev JsonTokens := List JsmnTok

def tokenAt (tokens : JsonTokens) (i : Nat) : JsmnTok := tokens.getD i .blank

/-- `isJsonValidAndParse` on the document that starts at the buffer's first byte:
the number of tokens, if the document is an object. -/
def isJsonValidAndParse (json : Document) (tokens : JsonTokens) : Option Nat × JsonTokens :=
  match jsmnParse (json.text 0) tokens with
  | (.error _, tokens) => (none, tokens)
  | (.ok tokenCount, tokens) =>
      if tokenCount < 1 ∨ (tokenAt tokens 0).type ≠ .object then (none, tokens)
      else (some tokenCount, tokens)

/-- The first of the tokens behind the first one for which `f` has a result. -/
def findToken {α : Type} (tokenCount : Nat) (f : Nat → Option α) : Option α :=
  (List.range' 1 (tokenCount - 1)).findSome? f

/-- What `isJsonKeyMatchingAndUpdateValue` finds: the value it stores, if it can
convert it, and the length and the position of the value's text. -/
structure MatchedValue (type : JsonPrimitiveType) where
  stored : Option type.Data
  dataLength : UInt32
  dataPosition : Nat

def isJsonKeyMatchingAndUpdateValue (json : Document) (tokens : JsonTokens) (tokenCount : Nat)
    (key : List UInt8) (type : JsonPrimitiveType) : Option (MatchedValue type) :=
  findToken tokenCount fun i =>
    if jsoneq json (tokenAt tokens i) key then
      let dataToken := tokenAt tokens (i + 1)
      some {
        stored := updateValueIfNoObject json type dataToken
        dataLength := UInt32.ofInt (dataToken.stop - dataToken.start)
        dataPosition := dataToken.start }
    else none

/-- `extractClientToken`, which tokenizes the document. The length of the token is
cut down to 8 bits; the size of the caller's buffer is not looked at. -/
def extractClientToken (json : Document) (tokens : JsonTokens) :
    Option (List UInt8) × JsonTokens :=
  match isJsonValidAndParse json tokens with
  | (none, tokens) => (none, tokens)
  | (some tokenCount, tokens) =>
      (findToken tokenCount fun i =>
        if jsoneq json (tokenAt tokens i) shadowClientTokenString then
          let clientJsonToken := tokenAt tokens (i + 1)
          let length := ((clientJsonToken.stop - clientJsonToken.start) % 256).toNat
          some (json.textUpTo clientJsonToken.start length)
        else none,
      tokens)

/-- `extractVersionNumber`: a name without a number behind it is passed over. -/
def extractVersionNumber (json : Document) (tokens : JsonTokens) (tokenCount : Nat) :
    Option UInt32 :=
  findToken tokenCount fun i =>
    if jsoneq json (tokenAt tokens i) shadowVersionString then
      (parseUnsignedInteger32Value json (tokenAt tokens (i + 1))).toOption
    else none

end MqttClient.Shadow
