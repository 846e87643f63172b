import MqttClient.Measurement.Payloads
import MqttClient.Text.Escapes

/-! # Configurations in deltas

The lists of channels and of groups are sent as strings that hold JSON texts. Before the
application reads such a text it deletes every backslash.
-/

namespace MqttClient.Measurement

open Text Shadow

/-- The loop of `stringCopyException`, from a character of the string on. -/
def copyCharacters : List UInt8 → List UInt8
  | [] => []
  | c :: source => if c ≠ 92 then c :: copyCharacters source else copyCharacters source

/-- `stringCopyException`: the string in `dest`. -/
def stringCopyException (source : List UInt8) : List UInt8 := copyCharacters (cString source)

/-- The keys whose values are configurations. -/
inductive Configuration where
  | groups | channels
  deriving DecidableEq

namespace Configuration

def name : Configuration → List UInt8
  | groups => ascii "groups"
  | channels => ascii "channels"

/-- The object that is put around a text. -/
def document (configuration : Configuration) (text : List UInt8) : List UInt8 :=
  ascii "\x7b\"" ++ configuration.name ++ ascii "\":" ++ text ++ ascii "\x7d"

/-- `groups_Callback` and `channels_Callback`: what they pass to `readJSON`, if what the
struct's buffer holds fits into theirs. -/
def callback (configuration : Configuration) (stored : List UInt8) : Option (List UInt8) :=
  (sprintfString 10000 stored).map fun pData => configuration.document (stringCopyException pData)

/-- What is read when a delta with these tokens has been taken for the key. -/
def parsedText (configuration : Configuration) (json : Document) (tokens : JsonTokens)
    (tokenCount : Nat) : Option (List UInt8) :=
  (isJsonKeyMatchingAndUpdateValue json tokens tokenCount configuration.name .string).bind fun v =>
    (storedText .string v.stored).bind configuration.callback

/-- A text is sent for the key: the value that the tokens give to it is a string whose
characters denote the text, and they fit into the buffer that the key has. -/
structure Sends (configuration : Configuration) (json : Document) (tokens : JsonTokens)
    (tokenCount : Nat) (escaped text : List UInt8) : Prop where
  found : ∃ i, keyIndex json tokens tokenCount configuration.name = some i ∧
    (tokenAt tokens (i + 1)).type = .string ∧
    (tokenAt tokens (i + 1)).stop = (tokenAt tokens (i + 1)).start + escaped.length ∧
    json.bytes.load (tokenAt tokens (i + 1)).start escaped.length = escaped
  fits : escaped.length < (Buffer.registered configuration.name).size
  denotes : readString (quoted escaped) = some (text, [])

theorem size_registered (configuration : Configuration) :
    (Buffer.registered configuration.name).size = 1000 := by
  cases configuration <;> decide

theorem document_inj {configuration : Configuration} {s t : List UInt8} :
    configuration.document s = configuration.document t ↔ s = t := by
  rw [document, document, List.append_left_inj, List.append_right_inj]

end Configuration

theorem copyCharacters_eq (source : List UInt8) :
    copyCharacters source = withoutBackslashes source := by
  induction source with
  | nil => rfl
  | cons c source ih =>
      rw [copyCharacters]
      by_cases h : c = 92
      · rw [if_neg (not_not.mpr h), h, withoutBackslashes_backslash, ih]
      · rw [if_pos h, withoutBackslashes_cons h, ih]

theorem stringCopyException_eq {source : List UInt8} (h : ∀ b ∈ source, b ≠ 0) :
    stringCopyException source = withoutBackslashes source := by
  rw [stringCopyException, cString_of_forall h, copyCharacters_eq]

namespace Configuration

variable {configuration : Configuration} {json : Document} {tokens : JsonTokens}
  {tokenCount : Nat} {escaped text : List UInt8}

/-- The callback finds what has been sent, and deletes the backslashes. -/
theorem parsedText_eq (h : configuration.Sends json tokens tokenCount escaped text) :
    configuration.parsedText json tokens tokenCount =
      some (configuration.document (withoutBackslashes escaped)) := by
  obtain ⟨i, hkey, htype, hstop, hload⟩ := h.found
  have hzero := (denotes_of_readString h.denotes).ne_zero
  have hfits := h.fits
  rw [size_registered] at hfits
  have hvalue : parseStringValue json (tokenAt tokens (i + 1)) = .ok escaped := by
    have hlength : (((tokenAt tokens (i + 1)).stop - (tokenAt tokens (i + 1)).start) %
        65536).toNat = escaped.length := by omega
    rw [parseStringValue, if_neg (not_not.mpr htype), hlength, hload]
  rw [parsedText, isJsonKeyMatching_eq, hkey, Option.map_some, Option.bind_some, valueOf,
    updateValueIfNoObject, hvalue]
  simp only [Except.toOption, storedText_string, Option.bind_some]
  rw [callback, sprintfString, cString_of_forall hzero, if_pos (by omega), Option.map_some,
    stringCopyException_eq hzero]

/-- The text that is read is the text that was sent just when nothing in it but quotation
marks and slashes has been escaped. -/
theorem parsedText_eq_iff (h : configuration.Sends json tokens tokenCount escaped text) :
    configuration.parsedText json tokens tokenCount = some (configuration.document text) ↔
      ∀ c ∈ escapes escaped, c = 34 ∨ c = 47 := by
  rw [parsedText_eq h, Option.some.injEq, document_inj]
  exact (denotes_of_readString h.denotes).withoutBackslashes_eq_iff

end Configuration

def channelsDelta (escaped : List UInt8) : Document :=
  .ofText (ascii "\x7b\"state\":\x7b\"channels\":" ++ quoted escaped ++ ascii "\x7d\x7d")

/-- The tokens of a delta, when the array has not been in use. -/
def tokensOf (json : Document) : JsonTokens :=
  (isJsonValidAndParse json (List.replicate maxJsonTokenExpected .blank)).2

/-- A list of one channel, with the quotation marks escaped. -/
def channelsValue : List UInt8 := ascii "[\x7b\\\"name\\\":\\\"a/b\\\"\x7d]"

theorem sends_channelsValue :
    Configuration.channels.Sends (channelsDelta channelsValue)
      (tokensOf (channelsDelta channelsValue)) 5 channelsValue
      (ascii "[\x7b\"name\":\"a/b\"\x7d]") where
  found := ⟨3, by decide +kernel⟩
  fits := by decide
  denotes := by decide

theorem parsedText_channelsValue :
    Configuration.channels.parsedText (channelsDelta channelsValue)
        (tokensOf (channelsDelta channelsValue)) 5 =
      some (ascii "\x7b\"channels\":[\x7b\"name\":\"a/b\"\x7d]\x7d") :=
  (Configuration.parsedText_eq_iff sends_channelsValue).mpr fun c hc => by
    have hquotes : escapes channelsValue = List.replicate 4 34 := by decide
    rw [hquotes] at hc
    exact .inl (List.eq_of_mem_replicate hc)

/-- A list of one channel whose name is a quotation mark, which is escaped in the text already. -/
def nestedValue : List UInt8 := ascii "[\x7b\\\"name\\\":\\\"\\\\\\\"\\\"\x7d]"

theorem sends_nestedValue :
    Configuration.channels.Sends (channelsDelta nestedValue)
      (tokensOf (channelsDelta nestedValue)) 5 nestedValue
      (ascii "[\x7b\"name\":\"\\\"\"\x7d]") where
  found := ⟨3, by decide +kernel⟩
  fits := by decide
  denotes := by decide

/-- The quotation mark then ends the name. -/
theorem not_parsedText_nestedValue :
    ¬ ∀ (configuration : Configuration) (json : Document) (tokens : JsonTokens)
      (tokenCount : Nat) (escaped text : List UInt8),
      configuration.Sends json tokens tokenCount escaped text →
        configuration.parsedText json tokens tokenCount = some (configuration.document text) := by
  intro h
  have heq := h _ _ _ _ _ _ sends_nestedValue
  rw [Configuration.parsedText_eq sends_nestedValue, Option.some.injEq,
    Configuration.document_inj] at heq
  exact absurd heq (by decide)

end MqttClient.Measurement
