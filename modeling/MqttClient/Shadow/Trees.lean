import MqttClient.Shadow.Tokens
import MqttClient.Shadow.Integers
import MqttClient.Text.JsonScalars

/-! # What the tokenizer finds in a document

A JSON value is a tree. The tokenizer lists its nodes in the order in which they start in
the text, whatever blanks there are, and marks where each of them stands.
-/

open Text

namespace MqttClient.Shadow

/-! ## Trees -/

mutual

/-- A JSON value. Strings and primitives are given by their characters in the text. -/
inductive JsonValue where
  | string (chars : List UInt8)
  | primitive (chars : List UInt8)
  | array (elements : JsonElements)
  | object (members : JsonMembers)

inductive JsonElements where
  | nil
  | cons (value : JsonValue) (rest : JsonElements)

inductive JsonMembers where
  | nil
  | cons (key : List UInt8) (value : JsonValue) (rest : JsonMembers)

end

/-- A node of a tree; a key is a node of its own. -/
inductive JsonNode where
  | string (chars : List UInt8)
  | primitive (chars : List UInt8)
  | array | object
  deriving DecidableEq

def JsonValue.node : JsonValue → JsonNode
  | .string chars => .string chars
  | .primitive chars => .primitive chars
  | .array _ => .array
  | .object _ => .object

mutual

/-- The nodes in the order in which they start. -/
def JsonValue.nodes : JsonValue → List JsonNode
  | .string chars => [.string chars]
  | .primitive chars => [.primitive chars]
  | .array elements => .array :: elements.nodes
  | .object members => .object :: members.nodes

def JsonElements.nodes : JsonElements → List JsonNode
  | .nil => []
  | .cons value rest => value.nodes ++ rest.nodes

def JsonMembers.nodes : JsonMembers → List JsonNode
  | .nil => []
  | .cons key value rest => .string key :: (value.nodes ++ rest.nodes)

end

/-! ## Texts -/

/-- Nothing but blanks. -/
def IsBlanks (s : List UInt8) : Prop := ∀ b ∈ s, isBlank b = true

/-- What can stand between quotation marks: every quotation mark in it is escaped. -/
def IsStringText (chars : List UInt8) : Prop := scanString .plain (chars ++ [34]) = .ok chars.length

/-- What can stand for a number or a literal name. -/
structure IsPrimitiveText (chars : List UInt8) : Prop where
  nonempty : chars ≠ []
  scanned : scanPrimitive chars = .ok chars.length
  head : ∀ c ∈ chars.head?, c ≠ 123 ∧ c ≠ 91 ∧ c ≠ 34

/-- The comma in front of what follows. -/
def JsonElements.comma : JsonElements → List UInt8
  | .nil => []
  | .cons .. => [44]

def JsonMembers.comma : JsonMembers → List UInt8
  | .nil => []
  | .cons .. => [44]

mutual

def JsonValue.Spells : JsonValue → List UInt8 → Prop
  | .string chars, s => IsStringText chars ∧ s = quoted chars
  | .primitive chars, s => IsPrimitiveText chars ∧ s = chars
  | .array elements, s => ∃ body, elements.Spells body ∧ s = 91 :: (body ++ [93])
  | .object members, s => ∃ body, members.Spells body ∧ s = 123 :: (body ++ [125])

def JsonElements.Spells : JsonElements → List UInt8 → Prop
  | .nil, s => IsBlanks s
  | .cons value rest, s => ∃ before text after body, IsBlanks before ∧ value.Spells text ∧
      IsBlanks after ∧ rest.Spells body ∧ s = before ++ (text ++ (after ++ (rest.comma ++ body)))

def JsonMembers.Spells : JsonMembers → List UInt8 → Prop
  | .nil, s => IsBlanks s
  | .cons key value rest, s => ∃ before colon middle text after body, IsBlanks before ∧
      IsStringText key ∧ IsBlanks colon ∧ IsBlanks middle ∧ value.Spells text ∧ IsBlanks after ∧
      rest.Spells body ∧ s = before ++
        (quoted key ++ (colon ++ ([58] ++ (middle ++ (text ++ (after ++
        (rest.comma ++ body)))))))

end

/-- The text is one of the object, which may have blanks around it. -/
def JsonMembers.IsDocument (members : JsonMembers) (s : List UInt8) : Prop :=
  ∃ before text after, IsBlanks before ∧ (JsonValue.object members).Spells text ∧ IsBlanks after ∧
    s = before ++ (text ++ after)

theorem spells_string {chars : List UInt8} (h : IsStringText chars) :
    (JsonValue.string chars).Spells (quoted chars) := by
  rw [JsonValue.Spells]
  exact ⟨h, rfl⟩

theorem spells_primitive {chars : List UInt8} (h : IsPrimitiveText chars) :
    (JsonValue.primitive chars).Spells chars := by
  rw [JsonValue.Spells]
  exact ⟨h, rfl⟩

theorem spells_object {members : JsonMembers} {body : List UInt8}
    (h : members.Spells body) : (JsonValue.object members).Spells (123 :: (body ++ [125])) := by
  rw [JsonValue.Spells]
  exact ⟨body, h, rfl⟩

theorem spells_nil : JsonMembers.nil.Spells [] := by
  rw [JsonMembers.Spells]
  exact nofun

/-- A member without blanks but in front of it. -/
theorem spells_cons {key text body : List UInt8} {value : JsonValue}
    {rest : JsonMembers} (before : List UInt8) (hbefore : IsBlanks before) (hkey : IsStringText key)
    (hvalue : value.Spells text) (hrest : rest.Spells body) :
    (JsonMembers.cons key value rest).Spells
      (before ++ (quoted key ++ ([58] ++ (text ++ (rest.comma ++ body))))) := by
  rw [JsonMembers.Spells]
  exact ⟨before, [], [], text, [], body, hbefore, hkey, nofun, nofun, hvalue, nofun, hrest, rfl⟩

theorem JsonMembers.isDocument_of_spells {members : JsonMembers} {body s : List UInt8}
    (h : members.Spells body) (hs : s = 123 :: (body ++ [125])) : members.IsDocument s :=
  ⟨[], _, [], nofun, spells_object h, nofun, by rw [List.append_nil, List.nil_append, hs]⟩

/-! ## Scanning -/

theorem scanString_append {mode : StringMode} {chars : List UInt8} {n : Nat}
    (h : scanString mode (chars ++ [34]) = .ok n) (hn : n = chars.length) (rest : List UInt8) :
    scanString mode (chars ++ 34 :: rest) = .ok n := by
  subst hn
  -- what is behind a character ends at the same place
  have hnext {mode' : StringMode} {c : UInt8} {chars : List UInt8}
      (ih : scanString mode' (chars ++ [34]) = .ok chars.length →
        scanString mode' (chars ++ 34 :: rest) = .ok chars.length)
      (h : (· + 1) <$> scanString mode' (chars ++ [34]) = .ok (c :: chars).length) :
      (· + 1) <$> scanString mode' (chars ++ 34 :: rest) = .ok (c :: chars).length := by
    obtain ⟨m, hm, hlen⟩ := exists_of_map_ok h
    rw [List.length_cons] at hlen
    have hlen' : m = chars.length := by omega
    rw [ih (hlen' ▸ hm), List.length_cons]
    rfl
  induction chars generalizing mode with
  | nil =>
      cases mode with
      | plain => rfl
      | escape => exact absurd h (by simp [scanString, isEscaped])
      | hex n => exact absurd h (by simp [scanString, isHexDigit])
  | cons c chars ih =>
      cases mode with
      | plain =>
          rw [List.cons_append, scanString] at h ⊢
          split at h
          next => cases h
          next hquote => rw [if_neg hquote]; exact hnext ih h
      | escape =>
          rw [List.cons_append, scanString] at h ⊢
          split at h
          next hescaped => rw [if_pos hescaped]; exact hnext ih h
          next hescaped =>
              rw [if_neg hescaped]
              split at h
              next hunicode => rw [if_pos hunicode]; exact hnext ih h
              next => cases h
      | hex n =>
          simp only [List.cons_append, scanString] at h ⊢
          split at h
          next hhex => rw [if_pos hhex]; exact hnext ih h
          next => cases h

theorem IsStringText.scanned {chars : List UInt8} (h : IsStringText chars) (rest : List UInt8) :
    scanString .plain (chars ++ 34 :: rest) = .ok chars.length := scanString_append h rfl rest

theorem scanPrimitive_append {chars rest : List UInt8} (h : scanPrimitive chars = .ok chars.length)
    (hrest : EndsPrimitive rest) : scanPrimitive (chars ++ rest) = .ok chars.length := by
  induction chars with
  | nil =>
      cases rest with
      | nil => rfl
      | cons c rest =>
          rw [List.nil_append, scanPrimitive, if_pos (hrest c rfl)]
          rfl
  | cons c chars ih =>
      rw [scanPrimitive] at h
      rw [List.cons_append, scanPrimitive]
      split_ifs at h with hend hinval
      · cases h
      · rw [if_neg hend, if_neg hinval]
        obtain ⟨m, hm, hlen⟩ := exists_of_map_ok h
        rw [List.length_cons] at hlen
        have hlen' : m = chars.length := by omega
        rw [ih (hlen' ▸ hm), List.length_cons]
        rfl

/-- Characters that stand for themselves can be in a string. -/
theorem isStringText_of_isVerbatim {chars : List UInt8} (h : ∀ b ∈ chars, isSpecial b = false) :
    IsStringText chars := by
  unfold IsStringText
  induction chars with
  | nil => rfl
  | cons c chars ih =>
      have hc := h c List.mem_cons_self
      simp only [isSpecial, Bool.or_eq_false_iff, decide_eq_false_iff_not] at hc
      rw [List.cons_append, scanString, if_neg hc.1.1, if_neg hc.1.2,
        ih fun b hb => h b (List.mem_cons_of_mem c hb), List.length_cons]
      rfl

end MqttClient.Shadow
