import MqttClient.Text.JsonScalars

/-! # Escapes in JSON

What an escaped string denotes, seen escape by escape, and when it is enough to leave out
the backslashes in order to get what it denotes.
-/

namespace Text

/-- The characters behind the backslashes of the escapes. -/
def escapes : List UInt8 → List UInt8
  | b :: c :: s => if b = 92 then c :: escapes s else escapes (c :: s)
  | _ => []

theorem escapes_bare {b : UInt8} (h : b ≠ 92) (s : List UInt8) : escapes (b :: s) = escapes s := by
  cases s with
  | nil => rfl
  | cons c s => rw [escapes, if_neg h]

theorem escapes_escape (c : UInt8) (s : List UInt8) : escapes (92 :: c :: s) = c :: escapes s := by
  rw [escapes, if_pos rfl]

/-- Every backslash is left out. -/
def withoutBackslashes (s : List UInt8) : List UInt8 := s.filter (· ≠ 92)

theorem withoutBackslashes_append (s t : List UInt8) :
    withoutBackslashes (s ++ t) = withoutBackslashes s ++ withoutBackslashes t :=
  List.filter_append s t

theorem withoutBackslashes_cons {b : UInt8} (h : b ≠ 92) (s : List UInt8) :
    withoutBackslashes (b :: s) = b :: withoutBackslashes s :=
  List.filter_cons_of_pos (decide_eq_true h)

theorem withoutBackslashes_backslash (s : List UInt8) :
    withoutBackslashes (92 :: s) = withoutBackslashes s :=
  List.filter_cons_of_neg (by decide)

theorem not_mem_withoutBackslashes (s : List UInt8) : 92 ∉ withoutBackslashes s := fun h =>
  of_decide_eq_true (List.mem_filter.mp h).2 rfl

/-- An escaped string and what it denotes. Of the character that `\u` denotes it matters
only that its escape is longer. -/
inductive Denotes : List UInt8 → List UInt8 → Prop where
  | nil : Denotes [] []
  | bare {b : UInt8} {e t : List UInt8} (hb : b ≠ 92) (hzero : b ≠ 0) (h : Denotes e t) :
      Denotes (b :: e) (b :: t)
  | short {b c : UInt8} {e t : List UInt8} (hc : shortEscapes.lookup b = some c)
      (h : Denotes e t) : Denotes (92 :: b :: e) (c :: t)
  | unicode {x c e t : List UInt8} (hc : c.length ≤ (withoutBackslashes x).length)
      (hzero : ∀ b ∈ x, b ≠ 0) (h : Denotes e t) : Denotes (92 :: 117 :: (x ++ e)) (c ++ t)

/-! ## Reading -/

theorem ne_of_hexDigit {b c : UInt8} {d : Nat} (h : hexDigit b = some d) (hc : hexDigit c = none) :
    b ≠ c := by
  intro heq
  rw [heq, hc] at h
  cases h

theorem digits_of_readHex {n v u : Nat} {s r : List UInt8} (h : readHex n v s = some (u, r)) :
    ∃ x, s = x ++ r ∧ (withoutBackslashes x).length = n ∧ ∀ b ∈ x, b ≠ 0 := by
  induction n generalizing v s with
  | zero =>
      cases h
      exact ⟨[], rfl, rfl, nofun⟩
  | succ n ih =>
      cases s with
      | nil => cases h
      | cons b s =>
          obtain ⟨d, hd, h⟩ := Option.bind_eq_some_iff.mp h
          obtain ⟨x, hx, hlen, hzero⟩ := ih h
          refine ⟨b :: x, by rw [hx]; rfl, ?_, ?_⟩
          · rw [withoutBackslashes_cons (ne_of_hexDigit hd (by decide)), List.length_cons, hlen]
          · exact List.forall_mem_cons.mpr ⟨ne_of_hexDigit hd (by decide), hzero⟩

theorem escape_of_readUnicode {s c r : List UInt8} (h : readUnicode s = some (c, r)) :
    ∃ x, s = x ++ r ∧ c.length ≤ (withoutBackslashes x).length ∧ ∀ b ∈ x, b ≠ 0 := by
  obtain ⟨⟨u, s₁⟩, hhex, hread⟩ := Option.bind_eq_some_iff.mp h
  obtain ⟨x, rfl, hlen, hzero⟩ := digits_of_readHex hhex
  simp only at hread
  split_ifs at hread with hhigh hlow
  · split at hread
    next s₂ =>
        -- the other half stands behind a second `\u`
        obtain ⟨⟨l, s₃⟩, hhex', hlow⟩ := Option.bind_eq_some_iff.mp hread
        obtain ⟨y, rfl, hlen', hzero'⟩ := digits_of_readHex hhex'
        simp only at hlow
        split_ifs at hlow
        obtain ⟨rfl, rfl⟩ := Prod.mk.inj (Option.some.inj hlow)
        refine ⟨x ++ 92 :: 117 :: y, by rw [List.append_assoc]; rfl, ?_, ?_⟩
        · rw [withoutBackslashes_append, withoutBackslashes_backslash,
            withoutBackslashes_cons (by decide), List.length_append, List.length_cons, hlen, hlen',
            String.length_utf8EncodeChar]
          exact (Char.utf8Size_le_four _).trans (by omega)
        · rw [List.forall_mem_append, List.forall_mem_cons, List.forall_mem_cons]
          exact ⟨hzero, by decide, by decide, hzero'⟩
    · cases hread
  · cases hread
    refine ⟨x, rfl, ?_, hzero⟩
    rw [hlen]
    have hlt := (length_of_readHex hhex).2
    exact (length_utf8EncodeChar_le (u := u) (by omega)).trans (by omega)

/-- What is read as the characters of a string is an escaped string and its closing
quotation mark. -/
theorem denotes_of_readChars {n : Nat} {s t r : List UInt8} (h : readChars n s = some (t, r)) :
    ∃ e, s = e ++ 34 :: r ∧ Denotes e t := by
  induction n generalizing s t with
  | zero => cases h
  | succ n ih =>
      cases s with
      | nil => cases h
      | cons b s =>
          rw [readChars] at h
          split_ifs at h with hquote hescape hcontrol
          · cases h
            exact ⟨[], by rw [hquote]; rfl, .nil⟩
          · -- an escape, and then the rest of the string
            subst hescape
            obtain ⟨⟨c, s₁⟩, hread, h⟩ := Option.bind_eq_some_iff.mp h
            obtain ⟨⟨t', r'⟩, hrest, h⟩ := Option.map_eq_some_iff.mp h
            cases h
            obtain ⟨e, rfl, hdenotes⟩ := ih hrest
            cases s with
            | nil => cases hread
            | cons b s =>
                rw [readEscape] at hread
                split_ifs at hread with hunicode
                · subst hunicode
                  obtain ⟨x, rfl, hlen, hzero⟩ := escape_of_readUnicode hread
                  refine ⟨92 :: 117 :: (x ++ e), ?_, .unicode hlen hzero hdenotes⟩
                  simp only [List.cons_append, List.append_assoc]
                · obtain ⟨c', hc, heq⟩ := Option.map_eq_some_iff.mp hread
                  cases heq
                  exact ⟨92 :: b :: e, rfl, .short hc hdenotes⟩
          · obtain ⟨⟨t', r'⟩, hrest, h⟩ := Option.map_eq_some_iff.mp h
            cases h
            obtain ⟨e, rfl, hdenotes⟩ := ih hrest
            have hzero : b ≠ 0 := by
              intro heq
              exact hcontrol (heq ▸ by decide)
            exact ⟨b :: e, rfl, .bare hescape hzero hdenotes⟩

theorem denotes_of_readString {e t : List UInt8} (h : readString (quoted e) = some (t, [])) :
    Denotes e t := by
  rw [readString, quoted, List.cons_append, expect_cons (by decide), Option.bind_some] at h
  obtain ⟨e', heq, hdenotes⟩ := denotes_of_readChars h
  rwa [List.append_cancel_right heq]

/-! ## Leaving out the backslashes -/

namespace Denotes

theorem ne_zero {e t : List UInt8} (h : Denotes e t) : ∀ b ∈ e, b ≠ 0 := by
  induction h with
  | nil => exact nofun
  | bare _ hzero _ ih => exact List.forall_mem_cons.mpr ⟨hzero, ih⟩
  | @short b c e t hc _ ih =>
      have hb : b ≠ 0 := by
        intro heq
        rw [heq] at hc
        cases hc
      exact List.forall_mem_cons.mpr ⟨by decide, List.forall_mem_cons.mpr ⟨hb, ih⟩⟩
  | unicode _ hzero _ ih =>
      rw [List.forall_mem_cons, List.forall_mem_cons, List.forall_mem_append]
      exact ⟨by decide, by decide, hzero, ih⟩

/-- A text without backslashes is no longer than what is left of its escaped string. -/
theorem length_le {e t : List UInt8} (h : Denotes e t) (ht : 92 ∉ t) :
    t.length ≤ (withoutBackslashes e).length := by
  induction h with
  | nil => exact le_rfl
  | @bare b e t hb _ _ ih =>
      rw [withoutBackslashes_cons hb, List.length_cons, List.length_cons]
      exact Nat.succ_le_succ (ih fun hmem => ht (List.mem_cons_of_mem _ hmem))
  | @short b c e t hc _ ih =>
      have hb : b ≠ 92 := by
        intro heq
        rw [heq] at hc
        cases hc
        exact ht List.mem_cons_self
      rw [withoutBackslashes_backslash, withoutBackslashes_cons hb, List.length_cons,
        List.length_cons]
      exact Nat.succ_le_succ (ih fun hmem => ht (List.mem_cons_of_mem _ hmem))
  | @unicode x c e t hc _ _ ih =>
      have hrest := ih fun hmem => ht (List.mem_append_right _ hmem)
      rw [withoutBackslashes_backslash, withoutBackslashes_cons (by decide),
        withoutBackslashes_append, List.length_cons, List.length_append, List.length_append]
      omega

/-- A short escape is left with the character that it denotes just for a quotation mark and a
slash. -/
theorem short_eq_iff {b c : UInt8} (h : shortEscapes.lookup b = some c) (hb : b ≠ 92) :
    b = c ↔ b = 34 ∨ b = 47 := by
  obtain ⟨before, after, hsplit, -⟩ := List.lookup_eq_some_iff.mp h
  have hmem : (b, c) ∈ shortEscapes := hsplit ▸ List.mem_append_right _ List.mem_cons_self
  simp only [shortEscapes, List.mem_cons, Prod.mk.injEq, List.not_mem_nil, or_false] at hmem
  rcases hmem with ⟨rfl, rfl⟩ | ⟨rfl, rfl⟩ | ⟨rfl, rfl⟩ | ⟨rfl, rfl⟩ | ⟨rfl, rfl⟩ | ⟨rfl, rfl⟩ |
    ⟨rfl, rfl⟩ | ⟨rfl, rfl⟩
  case inr.inl => exact absurd rfl hb
  all_goals decide

/-- The backslashes are all that there is to an escaped string just when nothing but quotation
marks and slashes is escaped. -/
theorem withoutBackslashes_eq_iff {e t : List UInt8} (h : Denotes e t) :
    withoutBackslashes e = t ↔ ∀ c ∈ escapes e, c = 34 ∨ c = 47 := by
  induction h with
  | nil => exact iff_of_true rfl nofun
  | bare hb _ _ ih =>
      rw [withoutBackslashes_cons hb, escapes_bare hb, List.cons.injEq, and_iff_right rfl]
      exact ih
  | @short b c e t hc _ ih =>
      rw [withoutBackslashes_backslash, escapes_escape, List.forall_mem_cons]
      by_cases hb : b = 92
      · subst hb
        cases hc
        apply iff_of_false
        · intro heq
          rw [withoutBackslashes_backslash] at heq
          exact not_mem_withoutBackslashes e (heq ▸ List.mem_cons_self)
        · intro hall
          exact absurd hall.1 (by decide)
      · rw [withoutBackslashes_cons hb, List.cons.injEq, short_eq_iff hc hb, ih]
  | @unicode x c e t hc _ hdenotes ih =>
      rw [escapes_escape]
      apply iff_of_false
      · intro heq
        have hlen := congrArg List.length heq
        have hmem : 92 ∉ t := fun hmem =>
          not_mem_withoutBackslashes _ (heq ▸ List.mem_append_right c hmem)
        have hrest := hdenotes.length_le hmem
        rw [withoutBackslashes_backslash, withoutBackslashes_cons (by decide),
          withoutBackslashes_append, List.length_cons, List.length_append,
          List.length_append] at hlen
        omega
      · intro hall
        exact absurd (hall 117 List.mem_cons_self) (by decide)

end Denotes

end Text
