import MqttClient.Shadow.Outlines

/-! # The language of the tokenizer

The tokenizer knows less of JSON than its grammar: between brackets that match there may be
strings, primitives, colons, commas and blanks in any order. The language is given here
without the tokenizer, and its strings and primitives are those that the scanners pass.
-/

namespace MqttClient.Shadow

/-! ## The grammar -/

/-- What can stand between quotation marks. -/
inductive StringText : List UInt8 → Prop
  | nil : StringText []
  | plain {c : UInt8} {s : List UInt8} (hquote : c ≠ 34) (hbackslash : c ≠ 92)
      (hs : StringText s) : StringText (c :: s)
  | escaped {c : UInt8} {s : List UInt8} (hc : isEscaped c = true) (hs : StringText s) :
      StringText (92 :: c :: s)
  | unicode {digits s : List UInt8} (hlength : digits.length = 4)
      (hdigits : ∀ d ∈ digits, isHexDigit d = true) (hs : StringText s) :
      StringText (92 :: 117 :: (digits ++ s))

/-- What can stand for a number or a literal name: printable characters that do not end it. -/
structure PrimitiveText (chars : List UInt8) : Prop where
  nonempty : chars ≠ []
  printable : ∀ c ∈ chars, isPrimitiveEnd c = false ∧ 32 ≤ c ∧ c < 127
  head : ∀ c ∈ chars.head?, c ≠ 123 ∧ c ≠ 91 ∧ c ≠ 34

/-- The brackets of an object and of an array. -/
inductive Brackets : JsmnType → UInt8 → UInt8 → Prop
  | object : Brackets .object 123 125
  | array : Brackets .array 91 93

/-- A colon, a comma or a blank. -/
def isSeparator (c : UInt8) : Bool :=
  c = 58 || c = 44 || c = 9 || c = 13 || c = 10 || c = 32

/-- The text `s` at `pos`, with `rest` behind it, has these tokens. A primitive lasts until
a character that ends it. -/
inductive Yields : List UInt8 → Nat → List UInt8 → List JsmnTok → Prop
  | nil {rest : List UInt8} {pos : Nat} : Yields rest pos [] []
  | separator {rest s : List UInt8} {pos : Nat} {c : UInt8} {toks : List JsmnTok}
      (hc : isSeparator c = true) (hs : Yields rest (pos + 1) s toks) :
      Yields rest pos (c :: s) toks
  | string {rest chars s : List UInt8} {pos : Nat} {toks : List JsmnTok}
      (hchars : StringText chars) (hs : Yields rest (pos + (chars.length + 2)) s toks) :
      Yields rest pos (34 :: (chars ++ 34 :: s))
        (⟨.string, pos + 1, (pos + 1 : Nat) + chars.length, 0⟩ :: toks)
  | primitive {rest chars s : List UInt8} {pos : Nat} {toks : List JsmnTok}
      (hchars : PrimitiveText chars) (hend : EndsPrimitive (s ++ rest))
      (hs : Yields rest (pos + chars.length) s toks) :
      Yields rest pos (chars ++ s) (⟨.primitive, pos, pos + chars.length, 0⟩ :: toks)
  | container {rest body s : List UInt8} {pos : Nat} {type : JsmnType} {opening closing : UInt8}
      {inner toks : List JsmnTok} (hbrackets : Brackets type opening closing)
      (hbody : Yields (closing :: (s ++ rest)) (pos + 1) body inner)
      (hs : Yields rest (pos + (body.length + 2)) s toks) :
      Yields rest pos (opening :: (body ++ closing :: s))
        (⟨type, pos, pos + (body.length + 2), 0⟩ :: (inner ++ toks))

/-- The text has tokens. -/
def IsTokenizable (js : List UInt8) : Prop := ∃ toks, Yields [] 0 js toks

/-! ## Scanning a string -/

/-- What can stand in front of the closing quote, from the middle of a string on. -/
def StringMode.Text : StringMode → List UInt8 → Prop
  | .plain, s => StringText s
  | .escape, s => StringText (92 :: s)
  | .hex n, s => ∃ digits t, s = digits ++ t ∧ digits.length = n + 1 ∧
      (∀ d ∈ digits, isHexDigit d = true) ∧ StringText t

namespace StringMode

theorem text_plain {c : UInt8} {s : List UInt8} (hquote : c ≠ 34)
    (h : (if c = 92 then StringMode.escape else .plain).Text s) :
    StringMode.plain.Text (c :: s) := by
  by_cases hc : c = 92
  · rw [if_pos hc] at h
    rw [hc]
    exact h
  · rw [if_neg hc] at h
    exact .plain hquote hc h

theorem text_unicode {s : List UInt8} (h : (StringMode.hex 3).Text s) :
    StringMode.escape.Text (117 :: s) := by
  obtain ⟨digits, t, rfl, hlength, hdigits, ht⟩ := h
  exact .unicode hlength hdigits ht

theorem text_hex {c : UInt8} {s : List UInt8} {n : Nat} (hc : isHexDigit c = true)
    (h : (match n with | 0 => StringMode.plain | n + 1 => .hex n).Text s) :
    (StringMode.hex n).Text (c :: s) := by
  cases n with
  | zero => exact ⟨[c], s, rfl, rfl, List.forall_mem_singleton.mpr hc, h⟩
  | succ n =>
      obtain ⟨digits, t, rfl, hlength, hdigits, ht⟩ := h
      exact ⟨c :: digits, t, rfl, by rw [List.length_cons, hlength],
        List.forall_mem_cons.mpr ⟨hc, hdigits⟩, ht⟩

end StringMode

/-- What the scanner has passed when it succeeds. -/
theorem text_of_scanString {mode : StringMode} {js : List UInt8} {n : Nat}
    (h : scanString mode js = .ok n) :
    ∃ chars rest, js = chars ++ 34 :: rest ∧ chars.length = n ∧ mode.Text chars := by
  induction js generalizing mode n with
  | nil => cases mode <;> cases h
  | cons c js ih =>
      have hnext {next : StringMode} (hscan : (· + 1) <$> scanString next js = .ok n)
          (htext : ∀ chars, next.Text chars → mode.Text (c :: chars)) :
          ∃ chars rest, c :: js = chars ++ 34 :: rest ∧ chars.length = n ∧ mode.Text chars := by
        obtain ⟨k, hk, rfl⟩ := exists_of_map_ok hscan
        obtain ⟨chars, rest, rfl, rfl, hchars⟩ := ih hk
        exact ⟨c :: chars, rest, rfl, rfl, htext chars hchars⟩
      cases mode with
      | plain =>
          unfold scanString at h
          split at h
          next hquote =>
              cases h
              exact ⟨[], js, by rw [hquote]; rfl, rfl, .nil⟩
          next hquote => exact hnext h fun chars hchars => StringMode.text_plain hquote hchars
      | escape =>
          unfold scanString at h
          split at h
          next hescaped => exact hnext h fun chars hchars => .escaped hescaped hchars
          split at h
          next hunicode =>
              exact hnext h fun chars hchars => hunicode ▸ StringMode.text_unicode hchars
          next => cases h
      | hex k =>
          unfold scanString at h
          split at h
          next hhex => exact hnext h fun chars hchars => StringMode.text_hex hhex hchars
          next => cases h

/-- And it succeeds on that. -/
theorem StringText.scanString {chars : List UInt8} (h : StringText chars) (rest : List UInt8) :
    scanString .plain (chars ++ 34 :: rest) = .ok chars.length := by
  induction h with
  | nil => rfl
  | @plain c s hquote hbackslash _ ih =>
      rw [List.cons_append, Shadow.scanString, if_neg hquote, if_neg hbackslash, ih]
      rfl
  | @escaped c s hc _ ih =>
      have hescape : Shadow.scanString .escape (c :: (s ++ 34 :: rest)) = .ok (s.length + 1) := by
        rw [Shadow.scanString, if_pos hc, ih]
        rfl
      rw [List.cons_append, List.cons_append, Shadow.scanString, if_neg (by decide), if_pos rfl,
        hescape]
      rfl
  | @unicode digits s hlength hdigits _ ih =>
      obtain ⟨a, b, c, d, rfl⟩ : ∃ a b c d, digits = [a, b, c, d] := by
        rcases digits with _ | ⟨a, _ | ⟨b, _ | ⟨c, _ | ⟨d, _ | ⟨e, digits⟩⟩⟩⟩⟩ <;>
          simp at hlength ⊢
      simp only [List.forall_mem_cons] at hdigits
      obtain ⟨ha, hb, hc, hd, -⟩ := hdigits
      have hdigits : Shadow.scanString (.hex 3) (a :: b :: c :: d :: (s ++ 34 :: rest)) =
          .ok (s.length + 4) := by
        simp only [Shadow.scanString, ha, hb, hc, hd, ih, if_true]
        rfl
      have hescape : Shadow.scanString .escape (117 :: a :: b :: c :: d :: (s ++ 34 :: rest)) =
          .ok (s.length + 5) := by
        rw [Shadow.scanString, if_neg (by decide), if_pos rfl, hdigits]
        rfl
      simp only [List.cons_append, List.nil_append]
      rw [Shadow.scanString, if_neg (by decide), if_pos rfl, hescape]
      rfl

/-- From the middle of a string that the text does not end, characters lead to its end. -/
theorem exists_text_of_scanString {mode : StringMode} {js : List UInt8}
    (h : scanString mode js = .error .part) : ∃ t, mode.Text (js ++ t) := by
  induction js generalizing mode with
  | nil =>
      -- what is left open in each mode can be closed
      cases mode with
      | plain => exact ⟨[], .nil⟩
      | escape => exact ⟨[110], .escaped rfl .nil⟩
      | hex n =>
          refine ⟨List.replicate (n + 1) 48, List.replicate (n + 1) 48, [], ?_, ?_, ?_, .nil⟩
          · rw [List.nil_append, List.append_nil]
          · rw [List.length_replicate]
          · intro d hd
            rw [List.eq_of_mem_replicate hd]
            rfl
  | cons c js ih =>
      have hnext {next : StringMode} (hscan : (· + 1) <$> scanString next js = .error .part)
          (htext : ∀ chars, next.Text chars → mode.Text (c :: chars)) :
          ∃ t, mode.Text (c :: js ++ t) := by
        have hrest : scanString next js = .error .part := by
          cases hr : scanString next js with
          | error e => rw [hr] at hscan; cases hscan; rfl
          | ok k => rw [hr] at hscan; cases hscan
        obtain ⟨t, ht⟩ := ih hrest
        exact ⟨t, htext _ ht⟩
      cases mode with
      | plain =>
          unfold scanString at h
          split at h
          next => cases h
          next hquote => exact hnext h fun chars hchars => StringMode.text_plain hquote hchars
      | escape =>
          unfold scanString at h
          split at h
          next hescaped => exact hnext h fun chars hchars => .escaped hescaped hchars
          split at h
          next hunicode =>
              exact hnext h fun chars hchars => hunicode ▸ StringMode.text_unicode hchars
          next => cases h
      | hex k =>
          unfold scanString at h
          split at h
          next hhex => exact hnext h fun chars hchars => StringMode.text_hex hhex hchars
          next => cases h

/-- Unless the text ends within the string, what is behind the text does not matter. -/
theorem scanString_append_of_ne {mode : StringMode} {js : List UInt8} {r : Except JsmnError Nat}
    (h : scanString mode js = r) (hr : r ≠ .error .part) (t : List UInt8) :
    scanString mode (js ++ t) = r := by
  induction js generalizing mode r with
  | nil => cases mode <;> exact absurd h.symm hr
  | cons c js ih =>
      have hnext (next : StringMode) (hscan : (· + 1) <$> scanString next js = r) :
          (· + 1) <$> scanString next (js ++ t) = r := by
        rw [ih rfl fun hpart => hr (by rw [← hscan, hpart]; rfl)]
        exact hscan
      cases mode with
      | plain =>
          rw [List.cons_append, scanString]
          unfold scanString at h
          split at h
          next hquote => rw [if_pos hquote]; exact h
          next hquote => rw [if_neg hquote]; exact hnext _ h
      | escape =>
          rw [List.cons_append, scanString]
          unfold scanString at h
          split at h
          next hescaped => rw [if_pos hescaped]; exact hnext _ h
          next hescaped =>
              rw [if_neg hescaped]
              split at h
              next hunicode => rw [if_pos hunicode]; exact hnext _ h
              next hunicode => rw [if_neg hunicode]; exact h
      | hex k =>
          simp only [List.cons_append, scanString] at h ⊢
          split at h
          next hhex => rw [if_pos hhex]; exact hnext _ h
          next hhex => rw [if_neg hhex]; exact h

/-! ## Scanning a primitive -/

/-- What the scanner has passed when it succeeds. -/
theorem exists_of_scanPrimitive {js : List UInt8} {n : Nat} (h : scanPrimitive js = .ok n) :
    ∃ chars rest, js = chars ++ rest ∧ chars.length = n ∧ EndsPrimitive rest ∧
      ∀ c ∈ chars, isPrimitiveEnd c = false ∧ 32 ≤ c ∧ c < 127 := by
  induction js generalizing n with
  | nil =>
      cases h
      exact ⟨[], [], rfl, rfl, nofun, nofun⟩
  | cons c js ih =>
      rw [scanPrimitive] at h
      split_ifs at h with hend hinval
      · cases h
        refine ⟨[], c :: js, rfl, rfl, ?_, nofun⟩
        intro d hd
        cases hd
        exact hend
      · obtain ⟨k, hk, rfl⟩ := exists_of_map_ok h
        obtain ⟨chars, rest, rfl, rfl, hrest, hchars⟩ := ih hk
        refine ⟨c :: chars, rest, rfl, rfl, hrest, List.forall_mem_cons.mpr ⟨⟨?_, ?_, ?_⟩, hchars⟩⟩
        · exact Bool.eq_false_iff.mpr hend
        · exact UInt8.not_lt.mp fun hlt => hinval (.inl hlt)
        · exact UInt8.not_le.mp fun hle => hinval (.inr hle)

/-- And it succeeds on that. -/
theorem scanPrimitive_of_printable {chars : List UInt8}
    (h : ∀ c ∈ chars, isPrimitiveEnd c = false ∧ 32 ≤ c ∧ c < 127) :
    scanPrimitive chars = .ok chars.length := by
  induction chars with
  | nil => rfl
  | cons c chars ih =>
      obtain ⟨⟨hend, hge, hlt⟩, hchars⟩ := List.forall_mem_cons.mp h
      have hinval : ¬ (c < 32 ∨ c ≥ 127) :=
        not_or.mpr ⟨UInt8.not_lt.mpr hge, UInt8.not_le.mpr hlt⟩
      rw [scanPrimitive, hend, if_neg Bool.false_ne_true, if_neg hinval, ih hchars]
      rfl

theorem PrimitiveText.scanPrimitive {chars rest : List UInt8} (h : PrimitiveText chars)
    (hrest : EndsPrimitive rest) : scanPrimitive (chars ++ rest) = .ok chars.length :=
  scanPrimitive_append (scanPrimitive_of_printable h.printable) hrest

/-- Unless the primitive lasts to the end of the text, what is behind the text does not
matter. -/
theorem scanPrimitive_append_of_ne {js : List UInt8} {r : Except JsmnError Nat}
    (h : scanPrimitive js = r) (hr : r ≠ .ok js.length) (t : List UInt8) :
    scanPrimitive (js ++ t) = r := by
  induction js generalizing r with
  | nil => exact absurd h.symm hr
  | cons c js ih =>
      rw [List.cons_append, scanPrimitive]
      rw [scanPrimitive] at h
      split_ifs at h ⊢ with hend hinval
      · exact h
      · exact h
      · rw [ih rfl]
        · exact h
        · intro hlength
          rw [hlength] at h
          exact hr h.symm

/-! ## Texts and their tokens -/

namespace Yields

variable {rest s t : List UInt8} {pos : Nat} {toks toks' : List JsmnTok}

theorem append (hs : Yields (t ++ rest) pos s toks) (ht : Yields rest (pos + s.length) t toks') :
    Yields rest pos (s ++ t) (toks ++ toks') := by
  generalize hbehind : t ++ rest = behind at hs
  induction hs with
  | nil => exact ht
  | separator hc _ ih =>
      refine .separator hc (ih ?_ hbehind)
      rwa [List.length_cons, ← Nat.add_assoc, Nat.add_right_comm] at ht
  | @string _ chars s pos toks hchars _ ih =>
      have hs : Yields rest (pos + (chars.length + 2)) (s ++ t) (toks ++ toks') := by
        apply ih _ hbehind
        convert ht using 1
        simp
        omega
      rw [List.cons_append, List.append_assoc]
      exact .string hchars hs
  | @primitive _ chars s pos toks hchars hend _ ih =>
      have hs : Yields rest (pos + chars.length) (s ++ t) (toks ++ toks') := by
        apply ih _ hbehind
        convert ht using 1
        simp
        omega
      rw [List.append_assoc]
      refine .primitive hchars ?_ hs
      -- a primitive still ends where it did
      rwa [List.append_assoc, hbehind]
  | @container _ body s pos type opening closing inner toks hbrackets hbody _ _ ih =>
      have hs : Yields rest (pos + (body.length + 2)) (s ++ t) (toks ++ toks') := by
        apply ih _ hbehind
        convert ht using 1
        simp
        omega
      simp only [List.cons_append, List.append_assoc]
      refine .container hbrackets ?_ hs
      rwa [List.append_assoc, hbehind]

/-- What is behind a text matters only for the primitive at its end. -/
theorem behind {rest' : List UInt8} (h : Yields rest pos s toks)
    (hends : EndsPrimitive rest → EndsPrimitive rest') : Yields rest' pos s toks := by
  induction h generalizing rest' with
  | nil => exact .nil
  | separator hc _ ih => exact .separator hc (ih hends)
  | string hchars _ ih => exact .string hchars (ih hends)
  | @primitive _ chars s pos toks hchars hend _ ih =>
      refine .primitive hchars ?_ (ih hends)
      cases s with
      | nil => exact hends hend
      | cons c s => exact hend
  | @container _ body s pos type opening closing inner toks hbrackets _ _ ihbody ih =>
      exact .container hbrackets (ihbody id) (ih hends)

/-- The tokens are closed. -/
theorem closed (h : Yields rest pos s toks) : ∀ tok ∈ toks, tok.isOpen = false := by
  have hclosed {type : JsmnType} {start stop : Nat} :
      (⟨type, start, (stop : Int), 0⟩ : JsmnTok).isOpen = false := by
    simp only [JsmnTok.isOpen, decide_eq_false_iff_not]
    omega
  induction h with
  | nil => exact List.forall_mem_nil _
  | separator _ _ ih => exact ih
  | string _ _ ih => exact List.forall_mem_cons.mpr ⟨by exact_mod_cast hclosed, ih⟩
  | primitive _ _ _ ih => exact List.forall_mem_cons.mpr ⟨by exact_mod_cast hclosed, ih⟩
  | container _ _ _ ihbody ih =>
      refine List.forall_mem_cons.mpr ⟨by exact_mod_cast hclosed, ?_⟩
      exact List.forall_mem_append.mpr ⟨ihbody, ih⟩

/-- There are no more tokens than characters. -/
theorem length_le (h : Yields rest pos s toks) : toks.length ≤ s.length := by
  induction h with
  | nil => exact Nat.le_refl 0
  | separator _ _ ih => exact Nat.le_succ_of_le ih
  | string _ _ ih => simp; omega
  | @primitive _ chars _ _ _ hchars _ _ ih =>
      have hpos : 0 < chars.length := List.length_pos_of_ne_nil hchars.nonempty
      simp
      omega
  | container _ _ _ ihbody ih => simp; omega

end Yields

end MqttClient.Shadow
