import Mathlib.Algebra.Order.Ring.Int
import Mathlib.Data.List.Basic

/-! # The JSON tokenizer

The tokenizer marks the objects, arrays, strings and primitives of a text in an
array of tokens that its caller provides. It only overwrites the tokens it
allocates: what an earlier text has left behind them stays.

Every caller hands over the `strlen` of the text as its length. The characters in front of the
first zero byte are all there is here, and the tests of the loops for a zero are left out.
-/

namespace MqttClient.Shadow

/-- The characters of a string constant. -/
def ascii (s : String) : List UInt8 := s.toList.map fun c => UInt8.ofNat c.toNat

inductive JsmnType where
  | undefined | object | array | string | primitive
  deriving DecidableEq

/-- `jsmntok_t`: a type, the positions of the first character and of the one
behind the last, and the number of children. The end is -1 while it is open. -/
structure JsmnTok where
  type : JsmnType
  start : Nat
  stop : Int
  size : Nat
  deriving DecidableEq

/-- A token in memory that was zeroed. -/
def JsmnTok.blank : JsmnTok := ⟨.undefined, 0, 0, 0⟩

/-- An object or array that has not been closed yet. -/
def JsmnTok.isOpen (tok : JsmnTok) : Bool := tok.stop = -1

def JsmnTok.isContainer (tok : JsmnTok) : Bool := tok.type = .array || tok.type = .object

/-- `enum jsmnerr`. -/
inductive JsmnError where
  | nomem | inval | part
  deriving DecidableEq

/-- `jsmn_parser`, with the caller's tokens and the counter of `jsmn_parse`. The
position is an argument of its own. -/
structure JsmnParser where
  tokens : List JsmnTok
  toknext : Nat
  /-- The token to which the next one belongs; -1 in the source if there is none. -/
  toksuper : Option Nat
  count : Nat

namespace JsmnParser

/-- `jsmn_alloc_token` and what its caller fills in, for `numTokens` tokens. -/
def allocToken (p : JsmnParser) (numTokens : Nat) (tok : JsmnTok) : Except JsmnError JsmnParser :=
  if p.toknext ≥ numTokens then .error .nomem
  else .ok { p with tokens := p.tokens.set p.toknext tok, toknext := p.toknext + 1 }

/-- `tokens[parser->toksuper].size++`, if there is such a token. -/
def countChild (p : JsmnParser) : JsmnParser :=
  match p.toksuper with
  | none => p
  | some i => { p with tokens := p.tokens.modify i fun tok => { tok with size := tok.size + 1 } }

/-- The last of the first `n` tokens that is `ok`. -/
def lastToken (p : JsmnParser) (ok : JsmnTok → Bool) : Nat → Option Nat
  | 0 => none
  | n + 1 => if ok (p.tokens.getD n .blank) then some n else p.lastToken ok n

end JsmnParser

def isPrimitiveEnd (c : UInt8) : Bool :=
  c = 58 || c = 9 || c = 13 || c = 10 || c = 32 || c = 44 || c = 93 || c = 125

/-- The loop of `jsmn_parse_primitive`: how many characters the primitive has. -/
def scanPrimitive : List UInt8 → Except JsmnError Nat
  | [] => .ok 0
  | c :: js =>
      if isPrimitiveEnd c then .ok 0
      else if c < 32 ∨ c ≥ 127 then .error .inval
      else (· + 1) <$> scanPrimitive js

/-- What the loop of `jsmn_parse_string` looks at next. -/
inductive StringMode where
  | plain
  /-- Behind a backslash. -/
  | escape
  /-- Behind `\u`, with this many digits to go after the next one. -/
  | hex (n : Nat)

/-- The characters that may follow a backslash, but for the `u`. -/
def isEscaped (c : UInt8) : Bool :=
  c = 34 || c = 47 || c = 92 || c = 98 || c = 102 || c = 114 || c = 110 || c = 116

def isHexDigit (c : UInt8) : Bool :=
  (48 ≤ c && c ≤ 57) || (65 ≤ c && c ≤ 70) || (97 ≤ c && c ≤ 102)

/-- The loop of `jsmn_parse_string`, behind the opening quote: how many
characters stand before the closing one. -/
def scanString : StringMode → List UInt8 → Except JsmnError Nat
  | _, [] => .error .part
  | .plain, c :: js =>
      if c = 34 then .ok 0
      else (· + 1) <$> scanString (if c = 92 then .escape else .plain) js
  | .escape, c :: js =>
      if isEscaped c then (· + 1) <$> scanString .plain js
      else if c = 117 then (· + 1) <$> scanString (.hex 3) js
      else .error .inval
  | .hex n, c :: js =>
      if isHexDigit c then
        (· + 1) <$> scanString (match n with | 0 => .plain | n + 1 => .hex n) js
      else .error .inval

namespace JsmnParser

/-- `case '{': case '[':` of `jsmn_parse`. -/
def openToken (p : JsmnParser) (numTokens pos : Nat) (type : JsmnType) :
    JsmnParser × Except JsmnError Nat :=
  let p := { p with count := p.count + 1 }
  match p.allocToken numTokens ⟨type, pos, -1, 0⟩ with
  | .error e => (p, .error e)
  | .ok q => ({ q.countChild with toksuper := some p.toknext }, .ok 0)

/-- `case '}': case ']':` of `jsmn_parse`. The innermost open token is closed,
and the one around it becomes the superior token. -/
def closeToken (p : JsmnParser) (pos : Nat) (type : JsmnType) :
    JsmnParser × Except JsmnError Nat :=
  match p.lastToken JsmnTok.isOpen p.toknext with
  | none => (p, .error .inval)
  | some i =>
      if (p.tokens.getD i .blank).type ≠ type then (p, .error .inval)
      else
        let q := { p with tokens := p.tokens.modify i fun tok => { tok with stop := pos + 1 } }
        ({ q with toksuper := q.lastToken JsmnTok.isOpen (i + 1) }, .ok 0)

/-- A string or a primitive from `start`, found by its scanner. The number with
which it succeeds is that of the characters of the text that are done with. -/
def addLeaf (p : JsmnParser) (numTokens start : Nat) (type : JsmnType)
    (len : Except JsmnError Nat) (skipped : Nat → Nat) : JsmnParser × Except JsmnError Nat :=
  match len with
  | .error e => (p, .error e)
  | .ok n =>
      match p.allocToken numTokens ⟨type, start, start + n, 0⟩ with
      | .error e => (p, .error e)
      | .ok q => ({ q with count := q.count + 1 }.countChild, .ok (skipped n))

/-- `case ',':` of `jsmn_parse`. Behind a member's value the object around it
becomes the superior token again. -/
def nextMember (p : JsmnParser) : JsmnParser :=
  match p.toksuper with
  | none => p
  | some i =>
      if (p.tokens.getD i .blank).isContainer then p
      else
        match p.lastToken (fun tok => tok.isContainer && tok.isOpen) p.toknext with
        | none => p
        | some j => { p with toksuper := some j }

/-- The body of the loop of `jsmn_parse`, for the character `c` at `pos` with
`js` behind it: how many characters of `js` are done with as well. -/
def step (p : JsmnParser) (numTokens pos : Nat) (c : UInt8) (js : List UInt8) :
    JsmnParser × Except JsmnError Nat :=
  if c = 123 then p.openToken numTokens pos .object
  else if c = 91 then p.openToken numTokens pos .array
  else if c = 125 then p.closeToken pos .object
  else if c = 93 then p.closeToken pos .array
  else if c = 34 then p.addLeaf numTokens (pos + 1) .string (scanString .plain js) (· + 1)
  else if c = 9 ∨ c = 13 ∨ c = 10 ∨ c = 32 then (p, .ok 0)
  else if c = 58 then
    ({ p with toksuper := if p.toknext = 0 then none else some (p.toknext - 1) }, .ok 0)
  else if c = 44 then (p.nextMember, .ok 0)
  else p.addLeaf numTokens pos .primitive (scanPrimitive (c :: js)) (· - 1)

/-- The loop of `jsmn_parse` over the characters from `pos` on, of which `skip`
are done with already. -/
def run (numTokens : Nat) : List UInt8 → Nat → Nat → JsmnParser → JsmnParser × Option JsmnError
  | [], _, _, p => (p, none)
  | _ :: js, skip + 1, pos, p => run numTokens js skip (pos + 1) p
  | c :: js, 0, pos, p =>
      match p.step numTokens pos c js with
      | (q, .error e) => (q, some e)
      | (q, .ok skip) => run numTokens js skip (pos + 1) q

end JsmnParser

/-- `jsmn_init` and `jsmn_parse`: the number of tokens found, and the tokens as
they are then. -/
def jsmnParse (js : List UInt8) (tokens : List JsmnTok) : Except JsmnError Nat × List JsmnTok :=
  let (p, err) := JsmnParser.run tokens.length js 0 0 ⟨tokens, 0, none, 0⟩
  match err with
  | some e => (.error e, p.tokens)
  | none =>
      match p.lastToken JsmnTok.isOpen p.toknext with
      | some _ => (.error .part, p.tokens)
      | none => (.ok p.count, p.tokens)

example : (jsmnParse (ascii "\x7b\"a\":[1]\x7d") (List.replicate 5 .blank)).2.map (·.type) =
    [.object, .string, .array, .primitive, .undefined] := by decide

end MqttClient.Shadow
