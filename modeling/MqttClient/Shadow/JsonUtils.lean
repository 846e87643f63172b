import MqttClient.Shadow.Jsmn
import MqttClient.Wire.Memory
import MqttClient.Types

/-! # Reading values out of a JSON document

The functions that compare a token with a name and that convert a token into a
value. They look at the document from the token's start on, not at the token's
end.
-/

namespace MqttClient.Shadow

/-- A buffer that holds a document: its bytes and its size. -/
structure Document where
  bytes : Memory
  size : Nat

namespace Document

/-- The C string that starts at `off`, of at most `n` characters. -/
def textUpTo (doc : Document) (off : Nat) : Nat → List UInt8
  | 0 => []
  | n + 1 => if doc.bytes off = 0 then [] else doc.bytes off :: doc.textUpTo (off + 1) n

/-- The C string that starts at `off`. -/
def text (doc : Document) (off : Nat) : List UInt8 := doc.textUpTo off (doc.size - off)

/-- A buffer that holds these characters and a terminator. -/
def ofText (chars : List UInt8) : Document := ⟨fun i => (chars[i]?).getD 0, chars.length + 1⟩

end Document

inductive JsonPrimitiveType where
  | int32 | int16 | int8 | uint32 | uint16 | uint8 | float | double | bool | string | object
  deriving DecidableEq

/-- What `pData` of a `jsonStruct_t` points to. A floating point number is given
by its text; an object is not converted. -/
def JsonPrimitiveType.Data : JsonPrimitiveType → Type
  | .int32 => Int32
  | .int16 => Int16
  | .int8 => Int8
  | .uint32 => UInt32
  | .uint16 => UInt16
  | .uint8 => UInt8
  | .float | .double | .string => List UInt8
  | .bool => Bool
  | .object => Empty

instance (type : JsonPrimitiveType) : DecidableEq type.Data := by
  cases type <;> unfold JsonPrimitiveType.Data <;> infer_instance

/-- `jsoneq(json, tok, s) == 0`. -/
def jsoneq (json : Document) (tok : JsmnTok) (s : List UInt8) : Bool :=
  tok.type = .string && (s.length : Int) = tok.stop - tok.start &&
    strncmpEq (json.bytes.load tok.start s.length) s s.length

/-! ## Numbers -/

def isSpace (c : UInt8) : Bool := c = 32 || (9 ≤ c && c ≤ 13)

/-- The value of a digit, if it is one in this base. -/
def digitValue (base : Nat) (c : UInt8) : Option Nat :=
  let d := if 48 ≤ c ∧ c ≤ 57 then some (c.toNat - 48)
    else if 97 ≤ c ∧ c ≤ 122 then some (c.toNat - 87)
    else if 65 ≤ c ∧ c ≤ 90 then some (c.toNat - 55)
    else none
  d.filter (· < base)

/-- The digits with which a text starts. -/
def leadingDigits (base : Nat) : List UInt8 → List Nat
  | [] => []
  | c :: js =>
      match digitValue base c with
      | none => []
      | some d => d :: leadingDigits base js

/-- The number that a sequence of digits denotes. -/
def digitsValue (base : Nat) (digits : List Nat) : Nat := digits.foldl (fun n d => n * base + d) 0

/-- An optional sign: whether it is a minus, and what is behind it. -/
def scanSign : List UInt8 → Bool × List UInt8
  | 45 :: js => (true, js)
  | 43 :: js => (false, js)
  | js => (false, js)

/-- The base that the `%i` conversion of `sscanf` finds, and the digits. -/
def scanBase : List UInt8 → Nat × List UInt8
  | 48 :: 120 :: js | 48 :: 88 :: js => (16, js)
  | 48 :: js => (8, 48 :: js)
  | js => (10, js)

/-- The `%u` and, with `anyBase`, `%i` conversions of `sscanf`, before the number is
brought into the range of its type: whether there is a minus, and the magnitude. -/
def scanNumber (anyBase : Bool) (js : List UInt8) : Option (Bool × Nat) :=
  let (negative, js) := scanSign (js.dropWhile isSpace)
  let (base, js) := if anyBase then scanBase js else (10, js)
  match leadingDigits base js with
  | [] => none
  | digits => some (negative, digitsValue base digits)

/-- `%u`. A number that is too large for the largest type becomes its maximum, as
`strtoul` has it. -/
def scanUnsigned (js : List UInt8) : Option Int :=
  (scanNumber false js).map fun (negative, n) =>
    if 2 ^ 64 ≤ n then 2 ^ 64 - 1 else if negative then -(n : Int) else n

/-- `%i`. A number that does not fit into the largest type becomes its minimum or
maximum, as `strtol` has it. -/
def scanSigned (js : List UInt8) : Option Int :=
  (scanNumber true js).map fun (negative, n) =>
    if negative then max (-n) (-2 ^ 63) else min n (2 ^ 63 - 1)

/-! ## Values -/

/-- `parseUnsignedInteger32Value` and its siblings; `store` cuts the number down to
the width of the variable. -/
def parseUnsignedValue {α : Type} (store : Int → α) (json : Document) (tok : JsmnTok) :
    Except IotError α :=
  if tok.type ≠ .primitive then .error .jsonParseError
  else if json.bytes tok.start = 45 then .error .jsonParseError
  else
    match scanUnsigned (json.text tok.start) with
    | none => .error .jsonParseError
    | some v => .ok (store v)

def parseUnsignedInteger32Value : Document → JsmnTok → Except IotError UInt32 :=
  parseUnsignedValue fun v => UInt32.ofInt v

def parseUnsignedInteger16Value : Document → JsmnTok → Except IotError UInt16 :=
  parseUnsignedValue fun v => UInt16.ofInt v

def parseUnsignedInteger8Value : Document → JsmnTok → Except IotError UInt8 :=
  parseUnsignedValue fun v => UInt8.ofInt v

/-- `parseInteger32Value` and its siblings. -/
def parseSignedValue {α : Type} (store : Int → α) (json : Document) (tok : JsmnTok) :
    Except IotError α :=
  if tok.type ≠ .primitive then .error .jsonParseError
  else
    match scanSigned (json.text tok.start) with
    | none => .error .jsonParseError
    | some v => .ok (store v)

def parseInteger32Value : Document → JsmnTok → Except IotError Int32 :=
  parseSignedValue Int32.ofInt

def parseInteger16Value : Document → JsmnTok → Except IotError Int16 :=
  parseSignedValue Int16.ofInt

def parseInteger8Value : Document → JsmnTok → Except IotError Int8 :=
  parseSignedValue Int8.ofInt

def toLower (c : UInt8) : UInt8 := if 65 ≤ c ∧ c ≤ 90 then c + 32 else c

/-- How many characters of a word, in either case, the text starts with. -/
def matchWord : List UInt8 → List UInt8 → Nat
  | w :: word, c :: js => if toLower c = w then matchWord word js + 1 else 0
  | _, _ => 0

/-- The digits of a base with which a text starts, and the rest. -/
def spanDigits (base : Nat) (js : List UInt8) : List UInt8 × List UInt8 :=
  js.span fun c => (digitValue base c).isSome

/-- The floating point number with which a text starts, without exponent. -/
def scanFixed (base : Nat) (js : List UInt8) : Option (List UInt8 × List UInt8) :=
  let (whole, js) := spanDigits base js
  let (fraction, js) := match js with
    | 46 :: rest => ((46 :: (spanDigits base rest).1), (spanDigits base rest).2)
    | js => ([], js)
  if whole = [] ∧ fraction.length ≤ 1 then none else some (whole ++ fraction, js)

/-- The exponent with which a text starts, if there is one. Its letter cannot stand alone. -/
def scanExponent (letter : UInt8) : List UInt8 → Option (List UInt8)
  | [] => some []
  | c :: js =>
      if toLower c ≠ letter then some []
      else
        let (_, unsigned) := scanSign js
        match (spanDigits 10 unsigned).1 with
        | [] => none
        | digits => some (c :: js.take (js.length - unsigned.length) ++ digits)

def scanMantissa (base : Nat) (letter : UInt8) (js : List UInt8) : Option (List UInt8) :=
  (scanFixed base js).bind fun (mantissa, rest) => (scanExponent letter rest).map (mantissa ++ ·)

/-- `inf` or `infinity`. -/
def scanInfinity (js : List UInt8) : Option (List UInt8) :=
  let n := matchWord (ascii "infinity") js
  if n = 3 ∨ n = 8 then some (js.take n) else none

/-- `nan`, perhaps with letters, digits and underscores in parentheses. -/
def scanNan (js : List UInt8) : Option (List UInt8) :=
  if matchWord (ascii "nan") js < 3 then none
  else
    match js.drop 3 with
    | 40 :: rest =>
        let (chars, rest) := rest.span fun c => (digitValue 36 c).isSome || c = 95
        if rest.head? = some 41 then some (js.take (chars.length + 5)) else none
    | _ => some (js.take 3)

/-- The `%f` conversion of `sscanf`: the text of the number. It reads as long as what it has
read can become a number, and fails if that is none in the end. -/
def scanFloat (js : List UInt8) : Option (List UInt8) :=
  let js := js.dropWhile isSpace
  let (_, unsigned) := scanSign js
  let magnitude := match unsigned with
    | 48 :: x :: rest =>
        if toLower x = 120 then (scanMantissa 16 112 rest).map ([48, x] ++ ·)
        else scanMantissa 10 101 unsigned
    | c :: _ =>
        if toLower c = 105 then scanInfinity unsigned
        else if toLower c = 110 then scanNan unsigned
        else scanMantissa 10 101 unsigned
    | [] => none
  magnitude.map (js.take (js.length - unsigned.length) ++ ·)

example : [" -1.5e+3,", "0x1.8p1\x7d", "Infinity", "nan(q_1)", "1e,", "infin", "0x"].map
    (fun text => scanFloat (ascii text)) =
      [some (ascii "-1.5e+3"), some (ascii "0x1.8p1"), some (ascii "Infinity"),
        some (ascii "nan(q_1)"), none, none, none] := by decide

/-- `parseFloatValue` and `parseDoubleValue`. -/
def parseFloatValue (json : Document) (tok : JsmnTok) : Except IotError (List UInt8) :=
  if tok.type ≠ .primitive then .error .jsonParseError
  else
    match scanFloat (json.text tok.start) with
    | none => .error .jsonParseError
    | some literal => .ok literal

def parseBooleanValue (json : Document) (tok : JsmnTok) : Except IotError Bool :=
  if tok.type ≠ .primitive then .error .jsonParseError
  else if json.bytes.load tok.start 4 = ascii "true" then .ok true
  else if json.bytes.load tok.start 5 = ascii "false" then .ok false
  else .error .jsonParseError

/-- `parseStringValue`: the characters copied. Their number is cut down to 16 bits. -/
def parseStringValue (json : Document) (tok : JsmnTok) : Except IotError (List UInt8) :=
  if tok.type ≠ .string then .error .jsonParseError
  else .ok (json.bytes.load tok.start ((tok.stop - tok.start) % 65536).toNat)

/-- `UpdateValueIfNoObject`: the value that is stored. Its caller does not look at
the code, so that a value that cannot be converted is none. -/
def updateValueIfNoObject (json : Document) (type : JsonPrimitiveType) (tok : JsmnTok) :
    Option type.Data :=
  match type with
  | .bool => (parseBooleanValue json tok).toOption
  | .int32 => (parseInteger32Value json tok).toOption
  | .int16 => (parseInteger16Value json tok).toOption
  | .int8 => (parseInteger8Value json tok).toOption
  | .uint32 => (parseUnsignedInteger32Value json tok).toOption
  | .uint16 => (parseUnsignedInteger16Value json tok).toOption
  | .uint8 => (parseUnsignedInteger8Value json tok).toOption
  | .float => (parseFloatValue json tok).toOption
  | .double => (parseFloatValue json tok).toOption
  | .string => (parseStringValue json tok).toOption
  | .object => none

end MqttClient.Shadow
