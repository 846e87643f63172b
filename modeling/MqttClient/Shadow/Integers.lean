import MqttClient.Shadow.JsonUtils
import MqttClient.Text.JsonRecords
import MqttClient.Text.Decimals
import Mathlib.Data.List.TakeWhile

/-! # Integers in a document

A number is converted from the token's start on with conversions of `sscanf`. They stop
at the first character that does not fit, know other bases than ten and do not look at the
range of the variable. A JSON integer is an optional minus and digits without a leading
zero, and nothing else.
-/

open Text

namespace MqttClient.Shadow

/-- The integers that the parsers are made for. -/
inductive IntegerType where
  | int8 | int16 | int32 | uint8 | uint16 | uint32
  deriving DecidableEq

namespace IntegerType

def isSigned : IntegerType → Bool
  | int8 | int16 | int32 => true
  | uint8 | uint16 | uint32 => false

/-- The parser for the type; its result as a number. -/
def parse : IntegerType → Document → JsmnTok → Except IotError Int
  | int8, json, tok => (parseInteger8Value json tok).map Int8.toInt
  | int16, json, tok => (parseInteger16Value json tok).map Int16.toInt
  | int32, json, tok => (parseInteger32Value json tok).map Int32.toInt
  | uint8, json, tok => (parseUnsignedInteger8Value json tok).map fun v => v.toNat
  | uint16, json, tok => (parseUnsignedInteger16Value json tok).map fun v => v.toNat
  | uint32, json, tok => (parseUnsignedInteger32Value json tok).map fun v => v.toNat

/-- The least value of the type, and the least number above its values. -/
def bounds : IntegerType → Int × Int
  | int8 => (-2 ^ 7, 2 ^ 7)
  | int16 => (-2 ^ 15, 2 ^ 15)
  | int32 => (-2 ^ 31, 2 ^ 31)
  | uint8 => (0, 2 ^ 8)
  | uint16 => (0, 2 ^ 16)
  | uint32 => (0, 2 ^ 32)

/-- The number is a value of the type. -/
def Holds (type : IntegerType) (n : Int) : Prop := type.bounds.1 ≤ n ∧ n < type.bounds.2

instance (type : IntegerType) (n : Int) : Decidable (type.Holds n) :=
  inferInstanceAs (Decidable (_ ∧ _))

/-- What a variable of the type makes of a number. -/
def store : IntegerType → Int → Int
  | int8, n => (Int8.ofInt n).toInt
  | int16, n => (Int16.ofInt n).toInt
  | int32, n => (Int32.ofInt n).toInt
  | uint8, n => (UInt8.ofInt n).toNat
  | uint16, n => (UInt16.ofInt n).toNat
  | uint32, n => (UInt32.ofInt n).toNat

end IntegerType

/-- The number that a JSON integer literal denotes. -/
def integerLiteral (text : List UInt8) : Option Int :=
  match readNumber text with
  | some (n, []) => some n
  | _ => none

/-- What a parser should make of a primitive: a value if the text is an integer literal
that the type holds, else an error. -/
def IntegerType.expected (type : IntegerType) (text : List UInt8) : Except IotError Int :=
  match integerLiteral text with
  | some n => if type.Holds n then .ok n else .error .jsonParseError
  | none => .error .jsonParseError

/-- The first character is of this kind. -/
def startsWith (kind : UInt8 → Bool) : List UInt8 → Bool
  | [] => false
  | c :: _ => kind c

/-- There is a number at the start of an unsigned text: a digit, which may have a plus. -/
def startsUnsigned : List UInt8 → Bool
  | 45 :: _ => false
  | text => startsWith isDigit (scanSign text).2

/-- There is a number at the start of a text: behind an optional sign a digit, or `0x` and a
hexadecimal digit. -/
def startsSigned (text : List UInt8) : Bool :=
  match (scanSign text).2 with
  | 48 :: 120 :: text | 48 :: 88 :: text => startsWith isHexDigit text
  | text => startsWith isDigit text

def IntegerType.starts (type : IntegerType) (text : List UInt8) : Bool :=
  if type.isSigned then startsSigned text else startsUnsigned text

/-- A primitive token of a document and its text: the characters up to the first one that
ends a primitive. -/
structure IsPrimitive (json : Document) (tok : JsmnTok) (text : List UInt8) : Prop where
  type : tok.type = .primitive
  stop : tok.stop = tok.start + text.length
  nonempty : text ≠ []
  scanned : ∃ rest, json.text tok.start = text ++ rest ∧
    scanPrimitive (text ++ rest) = .ok text.length

/-! ## Where the conversions stop -/

/-- What follows is nothing or ends a primitive. -/
def EndsPrimitive (rest : List UInt8) : Prop := ∀ c ∈ rest.head?, isPrimitiveEnd c = true

theorem scanPrimitive_cons {c : UInt8} {js : List UInt8} {n : Nat}
    (h : scanPrimitive (c :: js) = .ok n) :
    isPrimitiveEnd c = true ∧ n = 0 ∨
      isPrimitiveEnd c = false ∧ 32 ≤ c ∧ ∃ m, scanPrimitive js = .ok m ∧ n = m + 1 := by
  rw [scanPrimitive] at h
  split_ifs at h with hend hinval
  · cases h
    exact .inl ⟨hend, rfl⟩
  · refine .inr ⟨Bool.eq_false_iff.mpr hend, ?_, ?_⟩
    · exact UInt8.not_lt.mp fun hlt => hinval (.inl hlt)
    · cases hscan : scanPrimitive js with
      | error e => rw [hscan] at h; cases h
      | ok m =>
          rw [hscan] at h
          exact ⟨m, rfl, (Except.ok.inj h).symm⟩

/-- A primitive has no blanks, and it ends where it has to. -/
theorem of_scanPrimitive {text rest : List UInt8}
    (h : scanPrimitive (text ++ rest) = .ok text.length) :
    (∀ c ∈ text, isSpace c = false) ∧ EndsPrimitive rest := by
  induction text with
  | nil =>
      refine ⟨nofun, ?_⟩
      intro c hc
      cases rest with
      | nil => cases hc
      | cons d rest =>
          cases hc
          rcases scanPrimitive_cons h with ⟨hend, -⟩ | ⟨-, -, m, -, hm⟩
          · exact hend
          · cases hm
  | cons c text ih =>
      rcases scanPrimitive_cons h with ⟨-, hzero⟩ | ⟨hend, hle, m, hscan, hm⟩
      · cases hzero
      · rw [← Nat.succ.inj hm] at hscan
        obtain ⟨hspace, hrest⟩ := ih hscan
        refine ⟨List.forall_mem_cons.mpr ⟨?_, hspace⟩, hrest⟩
        rw [isSpace, Bool.or_eq_false_iff, Bool.and_eq_false_iff, decide_eq_false_iff_not,
          decide_eq_false_iff_not, decide_eq_false_iff_not]
        refine ⟨?_, .inr ?_⟩
        · intro heq
          rw [heq] at hend
          cases hend
        · intro hle'
          exact absurd (UInt8.le_trans hle hle') (by decide)

theorem isPrimitiveEnd_cases {c : UInt8} (h : isPrimitiveEnd c = true) :
    c ∈ ([58, 9, 13, 10, 32, 44, 93, 125] : List UInt8) := by
  simp only [isPrimitiveEnd, Bool.or_eq_true, decide_eq_true_eq] at h
  simp only [List.mem_cons, List.not_mem_nil, or_false]
  tauto

/-- No digit of any base ends a primitive. -/
theorem digitValue_of_isPrimitiveEnd {c : UInt8} (h : isPrimitiveEnd c = true) (base : Nat) :
    digitValue base c = none := by
  have hcases := isPrimitiveEnd_cases h
  simp only [List.mem_cons, List.not_mem_nil, or_false] at hcases
  rcases hcases with rfl | rfl | rfl | rfl | rfl | rfl | rfl | rfl <;> rfl

theorem ne_of_isPrimitiveEnd {c d : UInt8} (h : isPrimitiveEnd c = true)
    (hd : isPrimitiveEnd d = false) : c ≠ d := by
  intro heq
  rw [heq, hd] at h
  cases h

theorem leadingDigits_append (base : Nat) (text : List UInt8) {rest : List UInt8}
    (h : EndsPrimitive rest) : leadingDigits base (text ++ rest) = leadingDigits base text := by
  induction text with
  | nil =>
      cases rest with
      | nil => rfl
      | cons c rest =>
          rw [List.nil_append, leadingDigits, leadingDigits, digitValue_of_isPrimitiveEnd (h c rfl)]
  | cons c text ih =>
      rw [List.cons_append, leadingDigits, leadingDigits, ih]

theorem scanBase_of_ne {c : UInt8} (h : c ≠ 48) (text : List UInt8) :
    scanBase (c :: text) = (10, c :: text) := by
  unfold scanBase
  split
  next heq => exact absurd (List.cons.inj heq).1 h
  next heq => exact absurd (List.cons.inj heq).1 h
  next heq => exact absurd (List.cons.inj heq).1 h
  next => rfl

theorem scanBase_zero_of_ne {c : UInt8} (h : c ≠ 120) (h' : c ≠ 88) (text : List UInt8) :
    scanBase (48 :: c :: text) = (8, 48 :: c :: text) := by
  unfold scanBase
  split
  next heq => exact absurd (List.cons.inj (List.cons.inj heq).2).1 h
  next heq => exact absurd (List.cons.inj (List.cons.inj heq).2).1 h'
  next heq => rw [(List.cons.inj heq).2]
  next hne => exact absurd rfl (hne _)

theorem scanBase_append (text : List UInt8) {rest : List UInt8} (h : EndsPrimitive rest) :
    scanBase (text ++ rest) = ((scanBase text).1, (scanBase text).2 ++ rest) := by
  cases text with
  | nil =>
      cases rest with
      | nil => rfl
      | cons c rest => exact scanBase_of_ne (ne_of_isPrimitiveEnd (h c rfl) rfl) rest
  | cons c text =>
      by_cases hc : c = 48
      · subst hc
        cases text with
        | nil =>
            cases rest with
            | nil => rfl
            | cons d rest =>
                have hd := h d rfl
                exact scanBase_zero_of_ne (ne_of_isPrimitiveEnd hd rfl)
                  (ne_of_isPrimitiveEnd hd rfl) rest
        | cons d text =>
            by_cases hx : d = 120
            · subst hx
              rfl
            · by_cases hX : d = 88
              · subst hX
                rfl
              · rw [List.cons_append, List.cons_append, scanBase_zero_of_ne hx hX,
                  scanBase_zero_of_ne hx hX]
                rfl
      · rw [List.cons_append, scanBase_of_ne hc, scanBase_of_ne hc]
        rfl

theorem scanSign_of_ne {c : UInt8} (h : c ≠ 45) (h' : c ≠ 43) (text : List UInt8) :
    scanSign (c :: text) = (false, c :: text) := by
  unfold scanSign
  split
  next heq => exact absurd (List.cons.inj heq).1 h
  next heq => exact absurd (List.cons.inj heq).1 h'
  next => rfl

theorem scanSign_append {text rest : List UInt8} (h : text ≠ []) :
    scanSign (text ++ rest) = ((scanSign text).1, (scanSign text).2 ++ rest) := by
  cases text with
  | nil => exact absurd rfl h
  | cons c text =>
      by_cases hminus : c = 45
      · subst hminus
        rfl
      · by_cases hplus : c = 43
        · subst hplus
          rfl
        · rw [List.cons_append, scanSign_of_ne hminus hplus, scanSign_of_ne hminus hplus]
          rfl

/-- The conversions look at nothing behind the token. -/
theorem scanNumber_append (anyBase : Bool) {text rest : List UInt8} (htext : text ≠ [])
    (hspace : ∀ c ∈ text, isSpace c = false) (hrest : EndsPrimitive rest) :
    scanNumber anyBase (text ++ rest) = scanNumber anyBase text := by
  have hdrop : ∀ s, (text ++ s).dropWhile isSpace = text ++ s := by
    intro s
    cases text with
    | nil => exact absurd rfl htext
    | cons c text =>
        exact List.dropWhile_cons_of_neg (Bool.eq_false_iff.mp (hspace c List.mem_cons_self))
  have hdrop' := hdrop []
  rw [List.append_nil] at hdrop'
  unfold scanNumber
  rw [hdrop, hdrop', scanSign_append htext]
  cases anyBase with
  | false => simp only [leadingDigits_append _ _ hrest, Bool.false_eq_true, if_false]
  | true => simp only [scanBase_append _ hrest, leadingDigits_append _ _ hrest, if_true]

/-! ## What the conversions find -/

theorem digitValue_ten (c : UInt8) :
    digitValue 10 c = if isDigit c then some (c.toNat - 48) else none := by
  have hrange : ∀ c : UInt8, isDigit c = true ↔ 48 ≤ c.toNat ∧ c.toNat ≤ 57 := by
    intro c
    rw [isDigit, Bool.and_eq_true, decide_eq_true_eq, decide_eq_true_eq, UInt8.le_iff_toNat_le,
      UInt8.le_iff_toNat_le]
    rfl
  simp only [digitValue, hrange, UInt8.le_iff_toNat_le, UInt8.reduceToNat]
  split_ifs
  all_goals simp only [Option.filter_some, Option.filter_none, decide_eq_true_eq]
  · rw [if_pos (by omega)]
  · rw [if_neg (by omega)]
  · rw [if_neg (by omega)]

theorem leadingDigits_ten (text : List UInt8) :
    leadingDigits 10 text = (text.takeWhile isDigit).map fun c => c.toNat - 48 := by
  induction text with
  | nil => rfl
  | cons c text ih =>
      rw [leadingDigits, digitValue_ten]
      by_cases h : isDigit c = true
      · rw [if_pos h, List.takeWhile_cons_of_pos h, List.map_cons, ih]
      · rw [if_neg h, List.takeWhile_cons_of_neg h, List.map_nil]

theorem digitsValue_ten (ds : List UInt8) :
    digitsValue 10 (ds.map fun c => c.toNat - 48) = digitsNumber ds := List.foldl_map

/-- There are digits just when the first character is one. -/
theorem leadingDigits_ne_nil_iff {base : Nat} {kind : UInt8 → Bool}
    (hkind : ∀ c, (digitValue base c).isSome = kind c) (text : List UInt8) :
    leadingDigits base text ≠ [] ↔ startsWith kind text = true := by
  cases text with
  | nil => exact iff_of_false (fun h => h rfl) Bool.false_ne_true
  | cons c text =>
      rw [leadingDigits, startsWith, ← hkind]
      cases digitValue base c with
      | none => exact iff_of_false (fun h => h rfl) Bool.false_ne_true
      | some d => exact iff_of_true (List.cons_ne_nil _ _) rfl

theorem isSome_digitValue_ten (c : UInt8) : (digitValue 10 c).isSome = isDigit c := by
  rw [digitValue_ten]
  cases isDigit c <;> rfl

theorem isSome_digitValue_sixteen (c : UInt8) : (digitValue 16 c).isSome = isHexDigit c := by
  rw [Bool.eq_iff_iff]
  simp only [digitValue, isHexDigit, UInt8.le_iff_toNat_le, UInt8.reduceToNat, Bool.or_eq_true,
    Bool.and_eq_true, decide_eq_true_eq]
  split_ifs
  all_goals simp only [Option.isSome_filter, Option.any_some, Option.any_none, decide_eq_true_eq,
    Bool.false_eq_true, false_iff]
  all_goals omega

/-! ## Signed and unsigned texts -/

section Text

variable {text : List UInt8}

/-- The text has a character, and no blank in front. -/
def NotBlank (text : List UInt8) : Prop := ∃ c js, text = c :: js ∧ isSpace c = false

theorem NotBlank.dropWhile (h : NotBlank text) : text.dropWhile isSpace = text := by
  obtain ⟨c, js, rfl, hc⟩ := h
  exact List.dropWhile_cons_of_neg (Bool.eq_false_iff.mp hc)

/-- How a number is made of a base and a text behind the sign. -/
theorem scanNumber_eq (anyBase : Bool) (h : NotBlank text) (base : Nat) (js : List UInt8)
    (hbase : (if anyBase then scanBase (scanSign text).2 else (10, (scanSign text).2)) =
      (base, js)) :
    scanNumber anyBase text =
      if leadingDigits base js = [] then none
      else some ((scanSign text).1, digitsValue base (leadingDigits base js)) := by
  unfold scanNumber
  rw [h.dropWhile]
  simp only [hbase]
  cases leadingDigits base js with
  | nil => rfl
  | cons d ds => rw [if_neg (List.cons_ne_nil _ _)]

theorem isSome_scanNumber_unsigned (h : NotBlank text) :
    (scanNumber false text).isSome = startsWith isDigit (scanSign text).2 := by
  rw [scanNumber_eq false h _ _ rfl, Bool.eq_iff_iff, ← leadingDigits_ne_nil_iff
    isSome_digitValue_ten]
  split_ifs with hnil
  · exact iff_of_false Bool.false_ne_true (not_not.mpr hnil)
  · exact iff_of_true rfl hnil

theorem isSome_scanNumber_signed (h : NotBlank text) :
    (scanNumber true text).isSome = startsSigned text := by
  rw [startsSigned, Bool.eq_iff_iff]
  split
  -- by the base, which the first characters behind the sign decide
  next js heq =>
      rw [scanNumber_eq true h 16 js (by rw [heq]; rfl),
        ← leadingDigits_ne_nil_iff isSome_digitValue_sixteen]
      split_ifs with hnil
      · exact iff_of_false Bool.false_ne_true (not_not.mpr hnil)
      · exact iff_of_true rfl hnil
  next js heq =>
      rw [scanNumber_eq true h 16 js (by rw [heq]; rfl),
        ← leadingDigits_ne_nil_iff isSome_digitValue_sixteen]
      split_ifs with hnil
      · exact iff_of_false Bool.false_ne_true (not_not.mpr hnil)
      · exact iff_of_true rfl hnil
  next hx hX =>
      cases hjs : (scanSign text).2 with
      | nil =>
          rw [scanNumber_eq true h 10 [] (by rw [hjs]; rfl)]
          exact iff_of_false Bool.false_ne_true Bool.false_ne_true
      | cons c js =>
          rw [hjs] at hx hX
          by_cases hc : c = 48
          · subst hc
            have hbase : scanBase (48 :: js) = (8, 48 :: js) := by
              cases js with
              | nil => rfl
              | cons d js =>
                  apply scanBase_zero_of_ne
                  · intro heq
                    exact hx js (heq ▸ rfl)
                  · intro heq
                    exact hX js (heq ▸ rfl)
            rw [scanNumber_eq true h 8 (48 :: js) (by rw [hjs]; exact hbase)]
            exact iff_of_true rfl rfl
          · rw [scanNumber_eq true h 10 (c :: js)
              (by rw [hjs]; exact scanBase_of_ne hc js),
              ← leadingDigits_ne_nil_iff isSome_digitValue_ten]
            split_ifs with hnil
            · exact iff_of_false Bool.false_ne_true (not_not.mpr hnil)
            · exact iff_of_true rfl hnil

/-- The digits of a literal, all of them. -/
theorem of_readDigits {js : List UInt8} {n : Nat} (h : readDigits js = some (n, [])) :
    (∃ c t, js = c :: t ∧ isDigit c = true) ∧ (js = [48] ∨ js.head? ≠ some 48) ∧
      js.takeWhile isDigit = js ∧ digitsNumber js = n := by
  rw [readDigits] at h
  split_ifs at h with hfront
  obtain ⟨hn, hdrop⟩ := Prod.mk.inj (Option.some.inj h)
  have hall : js.takeWhile isDigit = js := by
    have happend := List.takeWhile_append_dropWhile (p := isDigit) (l := js)
    rwa [hdrop, List.append_nil] at happend
  rw [hall] at hn hfront
  rw [not_or] at hfront
  cases js with
  | nil => exact absurd rfl hfront.1
  | cons c t =>
      refine ⟨⟨c, t, rfl, ?_⟩, ?_, hall, hn⟩
      · exact List.takeWhile_eq_self_iff.mp hall c List.mem_cons_self
      · by_cases hc : c = 48
        · subst hc
          cases t with
          | nil => exact .inl rfl
          | cons d t => exact absurd ⟨rfl, Nat.succ_lt_succ (Nat.succ_pos _)⟩ hfront.2
        · right
          rw [List.head?_cons, ne_eq, Option.some.injEq]
          exact hc

/-- A literal is converted to its number in any case. -/
theorem scanNumber_of_readDigits (anyBase : Bool) (h : NotBlank text) {n : Nat}
    (hread : readDigits (scanSign text).2 = some (n, [])) :
    scanNumber anyBase text = some ((scanSign text).1, n) := by
  obtain ⟨⟨c, t, hjs, hc⟩, hzero, hall, hn⟩ := of_readDigits hread
  have hten : leadingDigits 10 (scanSign text).2 ≠ [] ∧
      digitsValue 10 (leadingDigits 10 (scanSign text).2) = n := by
    rw [leadingDigits_ten, digitsValue_ten, hall]
    refine ⟨?_, hn⟩
    rw [hjs]
    exact List.cons_ne_nil _ _
  cases anyBase with
  | false => rw [scanNumber_eq false h _ _ rfl, if_neg hten.1, hten.2]
  | true =>
      rcases hzero with hzero | hzero
      · rw [scanNumber_eq true h 8 [48] (by rw [hzero]; rfl)]
        rw [hzero] at hn
        rw [← hn]
        rfl
      · have hbase : scanBase (scanSign text).2 = (10, (scanSign text).2) := by
          rw [hjs] at hzero ⊢
          exact scanBase_of_ne (fun heq => hzero (heq ▸ rfl)) t
        rw [scanNumber_eq true h _ _ (if_pos rfl |>.trans hbase), if_neg hten.1, hten.2]

/-- The sign and the digits of a literal. -/
theorem of_integerLiteral {n : Int} (h : integerLiteral text = some n) :
    ∃ m : Nat, readDigits (scanSign text).2 = some (m, []) ∧
      ((∃ js, text = 45 :: js ∧ scanSign text = (true, js) ∧ n = -m) ∨
        ((∀ js, text ≠ 45 :: js) ∧ scanSign text = (false, text) ∧ n = m)) := by
  unfold integerLiteral at h
  split at h
  next n' hread =>
      cases h
      unfold readNumber at hread
      split at hread
      next js =>
          obtain ⟨⟨m, r⟩, hdigits, heq⟩ := Option.map_eq_some_iff.mp hread
          cases heq
          exact ⟨m, hdigits, .inl ⟨js, rfl, rfl, rfl⟩⟩
      next hminus =>
          obtain ⟨⟨m, r⟩, hdigits, heq⟩ := Option.map_eq_some_iff.mp hread
          cases heq
          obtain ⟨⟨c, t, rfl, hc⟩, -⟩ := of_readDigits hdigits
          have hsign : scanSign (c :: t) = (false, c :: t) := by
            apply scanSign_of_ne
            · intro heq
              exact hminus t (heq ▸ rfl)
            · intro heq
              rw [heq] at hc
              cases hc
          exact ⟨m, by rw [hsign]; exact hdigits, .inr ⟨fun js heq => hminus js heq, hsign, rfl⟩⟩
  next => cases h

end Text

/-! ## The parsers -/

/-- The first character of a C string. -/
theorem Document.byte_of_text {json : Document} {off : Nat} {c : UInt8} {js : List UInt8}
    (h : json.text off = c :: js) : json.bytes off = c := by
  rw [text] at h
  cases hn : json.size - off with
  | zero => rw [hn] at h; cases h
  | succ n =>
      rw [hn, textUpTo] at h
      split_ifs at h
      exact (List.cons.inj h).1

namespace IntegerType

variable {type : IntegerType} {json : Document} {tok : JsmnTok} {text : List UInt8}

/-- The conversion that the parser for the type makes. -/
def scan (type : IntegerType) (js : List UInt8) : Option Int :=
  if type.isSigned then scanSigned js else if js.head? = some 45 then none else scanUnsigned js

theorem parse_eq (h : IsPrimitive json tok text) :
    type.parse json tok =
      match type.scan text with
      | none => .error .jsonParseError
      | some n => .ok (type.store n) := by
  obtain ⟨rest, htext, hscan⟩ := h.scanned
  obtain ⟨hspace, hrest⟩ := of_scanPrimitive hscan
  have happend := fun anyBase => scanNumber_append anyBase h.nonempty hspace hrest
  have hsigned : scanSigned (json.text tok.start) = scanSigned text := by
    rw [scanSigned, scanSigned, htext, happend]
  have hunsigned : scanUnsigned (json.text tok.start) = scanUnsigned text := by
    rw [scanUnsigned, scanUnsigned, htext, happend]
  have hminus : json.bytes tok.start = 45 ↔ text.head? = some 45 := by
    cases text with
    | nil => exact absurd rfl h.nonempty
    | cons c js =>
        rw [Document.byte_of_text htext, List.head?_cons, Option.some.injEq]
  cases type
  all_goals
    simp only [parse, parseInteger8Value, parseInteger16Value, parseInteger32Value,
      parseUnsignedInteger8Value, parseUnsignedInteger16Value, parseUnsignedInteger32Value,
      parseSignedValue, parseUnsignedValue, h.type, ne_eq, not_true_eq_false, if_false, hsigned,
      hunsigned, hminus, scan, isSigned, if_true, Bool.false_eq_true]
  case int8 => cases scanSigned text <;> rfl
  case int16 => cases scanSigned text <;> rfl
  case int32 => cases scanSigned text <;> rfl
  all_goals
    split_ifs
    · rfl
    · cases scanUnsigned text <;> rfl

/-- The parser succeeds just when there is a number at the start. -/
theorem isSome_scan (type : IntegerType) (h : NotBlank text) :
    (type.scan text).isSome = type.starts text := by
  obtain ⟨c, js, rfl, hc⟩ := h
  rw [scan, starts]
  split_ifs with hsigned hminus
  · rw [scanSigned, Option.isSome_map, isSome_scanNumber_signed ⟨c, js, rfl, hc⟩]
  · rw [List.head?_cons, Option.some.injEq] at hminus
    rw [hminus]
    rfl
  · rw [scanUnsigned, Option.isSome_map, isSome_scanNumber_unsigned ⟨c, js, rfl, hc⟩]
    unfold startsUnsigned
    split
    next heq => exact absurd (congrArg List.head? heq) hminus
    next => rfl

/-- A variable keeps the numbers that its type holds. -/
theorem store_of_holds {n : Int} (h : type.Holds n) : type.store n = n := by
  obtain ⟨hlow, hhigh⟩ := h
  cases type with
  | int8 => exact Int8.toInt_ofInt_of_le hlow hhigh
  | int16 => exact Int16.toInt_ofInt_of_le hlow hhigh
  | int32 => exact Int32.toInt_ofInt_of_le hlow hhigh
  | uint8 =>
      simp only [bounds] at hlow hhigh
      rw [store, UInt8.ofInt, UInt8.toNat_ofNat']
      omega
  | uint16 =>
      simp only [bounds] at hlow hhigh
      rw [store, UInt16.ofInt, UInt16.toNat_ofNat']
      omega
  | uint32 =>
      simp only [bounds] at hlow hhigh
      rw [store, UInt32.ofInt, UInt32.toNat_ofNat']
      omega

/-- No type has more than 64 bits, and no unsigned one has a negative number. -/
theorem bounds_of_holds {n : Int} (h : type.Holds n) :
    -2 ^ 63 ≤ n ∧ n < 2 ^ 63 ∧ (type.isSigned = false → 0 ≤ n) := by
  obtain ⟨hlow, hhigh⟩ := h
  cases type
  all_goals
    simp only [bounds] at hlow hhigh
    refine ⟨by omega, by omega, fun hsigned => ?_⟩
    first | exact hlow | cases hsigned

/-- The number of digits of which the first one is not zero. -/
theorem digitsNumber_pos {c : UInt8} (js : List UInt8) (hc : isDigit c = true) (hne : c ≠ 48) :
    0 < digitsNumber (c :: js) := by
  have hmono : ∀ (js : List UInt8) (n : Nat),
      n ≤ js.foldl (fun n b => n * 10 + (b.toNat - 48)) n := by
    intro js
    induction js with
    | nil => exact fun n => le_rfl
    | cons b js ih =>
        intro n
        rw [List.foldl_cons]
        exact (by omega : n ≤ n * 10 + (b.toNat - 48)).trans (ih _)
  have hpos : 0 < 0 * 10 + (c.toNat - 48) := by
    rw [isDigit, Bool.and_eq_true, decide_eq_true_eq, UInt8.le_iff_toNat_le] at hc
    have hlow := hc.1
    have htoNat : c.toNat ≠ 48 := fun heq => hne (UInt8.toNat.inj heq)
    simp only [UInt8.reduceToNat] at hlow
    omega
  exact hpos.trans_le (hmono js _)

/-- A literal that the type holds is converted to its number, where there is a number at
the start. -/
theorem scan_of_literal (h : NotBlank text) {n : Int} (hliteral : integerLiteral text = some n)
    (hn : type.Holds n) (hstarts : type.starts text = true) : type.scan text = some n := by
  obtain ⟨m, hread, hsign⟩ := of_integerLiteral hliteral
  obtain ⟨hlow, hhigh, -⟩ := bounds_of_holds hn
  have hnumber := fun anyBase => scanNumber_of_readDigits anyBase h hread
  rw [scan]
  rw [starts] at hstarts
  split_ifs at hstarts ⊢ with hsigned hminus
  · rw [scanSigned, hnumber, Option.map_some]
    rcases hsign with ⟨js, -, hscan, rfl⟩ | ⟨-, hscan, rfl⟩
    · rw [hscan]
      simp only [if_true, Option.some.injEq]
      omega
    · rw [hscan]
      simp only [Bool.false_eq_true, if_false, Option.some.injEq]
      omega
  · obtain ⟨js, rfl⟩ := List.head?_eq_some_iff.mp hminus
    cases hstarts
  · rcases hsign with ⟨js, rfl, -, -⟩ | ⟨-, hscan, rfl⟩
    · exact absurd rfl hminus
    · rw [scanUnsigned, hnumber, Option.map_some, hscan]
      simp only [Bool.false_eq_true, if_false, Option.some.injEq]
      rw [if_neg (by omega)]

/-- There is a number at the start of every literal that the type holds, but for a zero with
a minus where the type is unsigned. -/
theorem starts_of_literal (h : NotBlank text) {n : Int} (hliteral : integerLiteral text = some n)
    (hn : type.Holds n) :
      type.starts text = true ∨ text = ascii "-0" ∧ type.starts text = false := by
  obtain ⟨m, hread, hsign⟩ := of_integerLiteral hliteral
  have hnumber := fun anyBase => scanNumber_of_readDigits anyBase h hread
  cases hsigned : type.isSigned with
  | true =>
      left
      rw [starts, if_pos hsigned, ← isSome_scanNumber_signed h, hnumber]
      rfl
  | false =>
      have hstarts : type.starts text = startsUnsigned text := by
        rw [starts, hsigned]
        rfl
      rw [hstarts]
      rcases hsign with ⟨js, rfl, hscan, rfl⟩ | ⟨hne, hscan, rfl⟩
      · right
        -- an unsigned type holds no number below zero, so this is a zero with a sign
        have hzero := (bounds_of_holds hn).2.2 hsigned
        rw [hscan] at hread
        obtain ⟨⟨c, t, heq, hc⟩, hfront, -, hnumber⟩ := of_readDigits hread
        obtain rfl : js = c :: t := heq
        change digitsNumber (c :: t) = m at hnumber
        change c :: t = [48] ∨ _ at hfront
        rcases hfront with hfront | hfront
        · refine ⟨?_, rfl⟩
          rw [hfront]
          rfl
        · have hpos := digitsNumber_pos t hc fun heq => hfront (heq ▸ rfl)
          omega
      · left
        have hsome := isSome_scanNumber_unsigned h
        rw [hnumber] at hsome
        unfold startsUnsigned
        split
        next js => exact absurd rfl (hne js)
        next => exact hsome.symm

theorem expected_of_holds {n : Int} (hliteral : integerLiteral text = some n) (hn : type.Holds n) :
    type.expected text = .ok n := by
  unfold expected
  rw [hliteral]
  exact if_pos hn

theorem expected_of_not_holds (h : ∀ n, integerLiteral text = some n → ¬ type.Holds n) :
    type.expected text = .error .jsonParseError := by
  unfold expected
  cases hliteral : integerLiteral text with
  | none => rfl
  | some n => exact if_neg (h n hliteral)

/-- A parser makes of a primitive what it should just when the text is an integer literal
that the type holds and its sign is not on an unsigned zero, or there is no number at its
start. -/
theorem parse_eq_expected_iff (type : IntegerType) (h : IsPrimitive json tok text) :
    type.parse json tok = type.expected text ↔
      if type.starts text then ∃ n, integerLiteral text = some n ∧ type.Holds n
      else text ≠ ascii "-0" := by
  have hblank : NotBlank text := by
    obtain ⟨rest, -, hscan⟩ := h.scanned
    cases text with
    | nil => exact absurd rfl h.nonempty
    | cons c js => exact ⟨c, js, rfl, (of_scanPrimitive hscan).1 c List.mem_cons_self⟩
  have hsome := isSome_scan type hblank
  rw [parse_eq h]
  by_cases hliteral : ∃ n, integerLiteral text = some n ∧ type.Holds n
  · obtain ⟨n, hn, hholds⟩ := hliteral
    rw [expected_of_holds hn hholds]
    rcases starts_of_literal hblank hn hholds with hstarts | ⟨htext, hstarts⟩
    · rw [scan_of_literal hblank hn hholds hstarts, if_pos hstarts]
      exact iff_of_true (congrArg Except.ok (store_of_holds hholds)) ⟨n, hn, hholds⟩
    · rw [hstarts] at hsome
      rw [Option.isSome_eq_false_iff.mp hsome |> Option.isNone_iff_eq_none.mp, hstarts]
      exact iff_of_false (fun heq => by cases heq) (not_not.mpr htext)
  · rw [expected_of_not_holds fun n hn hholds => hliteral ⟨n, hn, hholds⟩]
    cases hscan : type.scan text with
    | none =>
        rw [hscan] at hsome
        rw [← hsome]
        refine iff_of_true rfl ?_
        -- a zero with a minus would be a literal that every type holds
        intro htext
        exact hliteral ⟨0, htext ▸ rfl, by cases type <;> decide⟩
    | some n =>
        rw [hscan] at hsome
        rw [← hsome]
        exact iff_of_false (fun heq => by cases heq) hliteral

end IntegerType

/-- A document with one member, whose value is this primitive. -/
def primitiveDocument (text : List UInt8) : Document :=
  .ofText (ascii "\x7b\"key\":" ++ text ++ ascii "\x7d")

theorem isPrimitive_negative :
    IsPrimitive (primitiveDocument (ascii "-17")) ⟨.primitive, 7, 10, 0⟩ (ascii "-17") where
  type := rfl
  stop := rfl
  nonempty := by decide
  scanned := ⟨ascii "\x7d", by decide⟩

theorem parse_negative :
    IntegerType.int8.parse (primitiveDocument (ascii "-17")) ⟨.primitive, 7, 10, 0⟩ = .ok (-17) :=
  (IntegerType.int8.parse_eq_expected_iff isPrimitive_negative).mpr
    ((if_pos (by decide)).mpr ⟨-17, by decide⟩)

theorem isPrimitive_fraction :
    IsPrimitive (primitiveDocument (ascii "12.5")) ⟨.primitive, 7, 11, 0⟩ (ascii "12.5") where
  type := rfl
  stop := rfl
  nonempty := by decide
  scanned := ⟨ascii "\x7d", by decide⟩

/-- The conversion stops at the point of a fraction. -/
theorem not_parse_fraction :
    ¬ ∀ (type : IntegerType) (json : Document) (tok : JsmnTok) (text : List UInt8),
      IsPrimitive json tok text → type.parse json tok = type.expected text := by
  intro h
  have heq : (.ok 12 : Except IotError Int) = .error .jsonParseError :=
    h .int32 _ _ _ isPrimitive_fraction
  cases heq

end MqttClient.Shadow
