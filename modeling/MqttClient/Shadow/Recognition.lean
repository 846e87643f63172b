import MqttClient.Shadow.Grammar
import MqttClient.Shadow.Topics

/-! # What the tokenizer accepts

A step of the tokenizer takes the tokens found so far to others, and the text in front of it is
at every point one that has these tokens and may lack closing brackets. So the texts that are
accepted are those of the grammar, with exactly their tokens.
-/

namespace MqttClient.Shadow

/-! ## Steps -/

/-- What a step does for the character `c` at `pos` with `js` behind it, of which `skip` are
done with as well: it takes the tokens found so far to others. -/
inductive TokenStep (n pos : Nat) :
    UInt8 → List UInt8 → Nat → List JsmnTok → List JsmnTok → Prop
  | separator {c : UInt8} {js : List UInt8} {toks : List JsmnTok} (hc : isSeparator c = true) :
      TokenStep n pos c js 0 toks toks
  | string {chars rest : List UInt8} {toks : List JsmnTok} (hchars : StringText chars)
      (hroom : toks.length < n) :
      TokenStep n pos 34 (chars ++ 34 :: rest) (chars.length + 1) toks
        (toks ++ [⟨.string, pos + 1, (pos + 1 : Nat) + chars.length, 0⟩])
  | primitive {c : UInt8} {chars rest : List UInt8} {toks : List JsmnTok}
      (hchars : PrimitiveText (c :: chars)) (hend : EndsPrimitive rest)
      (hroom : toks.length < n) :
      TokenStep n pos c (chars ++ rest) chars.length toks
        (toks ++ [⟨.primitive, pos, pos + (c :: chars).length, 0⟩])
  | opening {type : JsmnType} {opening closing : UInt8} {js : List UInt8} {toks : List JsmnTok}
      (hbrackets : Brackets type opening closing) (hroom : toks.length < n) :
      TokenStep n pos opening js 0 toks (toks ++ [⟨type, pos, -1, 0⟩])
  | closing {type : JsmnType} {opening closing : UInt8} {js : List UInt8}
      {front inner : List JsmnTok} {start : Nat} (hbrackets : Brackets type opening closing)
      (hinner : ∀ tok ∈ inner, tok.isOpen = false) :
      TokenStep n pos closing js 0 (front ++ ⟨type, start, -1, 0⟩ :: inner)
        (front ++ ⟨type, start, pos + 1, 0⟩ :: inner)

section Turns

variable {n pos skip : Nat} {c : UInt8} {js : List UInt8} {toks toks' : List JsmnTok}

theorem TokenStep.length_le (h : TokenStep n pos c js skip toks toks') :
    toks'.length ≤ toks.length + 1 := by
  cases h with
  | separator hc => exact Nat.le_succ _
  | string hchars hroom | primitive hchars hend hroom | opening hbrackets hroom =>
      rw [List.length_append, List.length_singleton]
  | closing hbrackets hinner => simp

/-- With room for a token it does not matter for how many more there is. -/
theorem TokenStep.room {m : Nat} (h : TokenStep n pos c js skip toks toks') (hm : toks.length < m) :
    TokenStep m pos c js skip toks toks' := by
  cases h with
  | separator hc => exact .separator hc
  | string hchars hroom => exact .string hchars hm
  | primitive hchars hend hroom => exact .primitive hchars hend hm
  | opening hbrackets hroom => exact .opening hbrackets hm
  | closing hbrackets hinner => exact .closing hbrackets hinner

end Turns

namespace JsmnParser

section Steps

variable {p q : JsmnParser} {n pos skip : Nat} {c : UInt8} {js : List UInt8}
  {toks toks' : List JsmnTok}

/-- The last token that is `ok`, and what is behind it. -/
theorem ok_of_lastToken {ok : JsmnTok → Bool} {k i : Nat} (h : p.lastToken ok k = some i) :
    ok (p.tokens.getD i .blank) = true ∧
      ∀ j, i < j → j < k → ok (p.tokens.getD j .blank) = false := by
  induction k with
  | zero => cases h
  | succ k ih =>
      rw [lastToken] at h
      split at h
      next hok =>
          cases h
          exact ⟨hok, fun j hij hjk => by omega⟩
      next hok =>
          obtain ⟨hi, hafter⟩ := ih h
          refine ⟨hi, fun j hij hjk => ?_⟩
          rcases Nat.lt_succ_iff_lt_or_eq.mp hjk with hlt | rfl
          · exact hafter j hij hlt
          · exact Bool.eq_false_iff.mpr hok

/-- The tokens around the last one that is open. -/
theorem Outlines.exists_of_lastToken {i : Nat} (h : p.Outlines n toks)
    (hlast : p.lastToken JsmnTok.isOpen p.toknext = some i) :
    ∃ front inner, toks = front ++ ⟨(p.tokens.getD i .blank).type,
        (p.tokens.getD i .blank).start, -1, 0⟩ :: inner ∧
      ∀ tok ∈ inner, tok.isOpen = false := by
  have hi : i < toks.length := h.toknext ▸ lt_of_lastToken hlast
  obtain ⟨hopen, hafter⟩ := ok_of_lastToken hlast
  have hat : toks[i] = (⟨(p.tokens.getD i .blank).type, (p.tokens.getD i .blank).start, -1, 0⟩ :
      JsmnTok) := by
    have houtline := h.tokens i hi
    rw [List.getD_eq_getElem _ _ hi] at houtline
    have hstop : (p.tokens.getD i .blank).stop = -1 := by simpa [JsmnTok.isOpen] using hopen
    rw [← houtline, JsmnTok.outline, hstop]
  refine ⟨toks.take i, toks.drop (i + 1), ?_, ?_⟩
  · rw [← hat, ← List.drop_eq_getElem_cons hi, List.take_append_drop]
  · intro tok htok
    obtain ⟨j, hj, rfl⟩ := List.getElem_of_mem htok
    rw [List.length_drop] at hj
    have hlt : i + 1 + j < toks.length := by omega
    have houtline := h.tokens (i + 1 + j) hlt
    rw [List.getD_eq_getElem _ _ hlt] at houtline
    rw [List.getElem_drop, ← houtline]
    exact hafter (i + 1 + j) (by omega) (h.toknext ▸ hlt)

/-- A step that succeeds is one of these. -/
theorem Outlines.exists_turn (h : p.Outlines n toks)
    (hstep : p.step n pos c js = (q, .ok skip)) :
    ∃ toks', q.Outlines n toks' ∧ TokenStep n pos c js skip toks toks' := by
  have hopen {type : JsmnType} {closing : UInt8} (hbrackets : Brackets type c closing)
      (hok : p.openToken n pos type = (q, .ok skip)) :
      ∃ toks', q.Outlines n toks' ∧ TokenStep n pos c js skip toks toks' := by
    have hroom : toks.length < n := by
      by_contra hfull
      simp only [JsmnParser.openToken, allocToken, h.toknext,
        if_pos (Nat.le_of_not_lt hfull)] at hok
      cases hok
    obtain ⟨r, hr, hout⟩ := h.openToken hroom pos type
    rw [hr] at hok
    cases hok
    exact ⟨_, hout, .opening hbrackets hroom⟩
  have hclose {type : JsmnType} {opening : UInt8} (hbrackets : Brackets type opening c)
      (hok : p.closeToken pos type = (q, .ok skip)) :
      ∃ toks', q.Outlines n toks' ∧ TokenStep n pos c js skip toks toks' := by
    cases hlast : p.lastToken JsmnTok.isOpen p.toknext with
    | none =>
        simp only [JsmnParser.closeToken, hlast] at hok
        cases hok
    | some i =>
        obtain ⟨front, inner, htoks, hinner⟩ := h.exists_of_lastToken hlast
        have htype : (p.tokens.getD i .blank).type = type := by
          by_contra hne
          simp only [JsmnParser.closeToken, hlast, if_pos hne] at hok
          cases hok
        rw [htype] at htoks
        subst htoks
        obtain ⟨r, hr, hout⟩ := h.closeToken hinner pos
        rw [hr] at hok
        cases hok
        exact ⟨_, hout, .closing hbrackets hinner⟩
  have hleaf {start : Nat} {type : JsmnType} {len : Except JsmnError Nat} {skipped : Nat → Nat}
      (hok : p.addLeaf n start type len skipped = (q, .ok skip)) :
      ∃ k, len = .ok k ∧ skip = skipped k ∧ toks.length < n ∧
        q.Outlines n (toks ++ [⟨type, start, start + k, 0⟩]) := by
    cases len with
    | error e => cases hok
    | ok k =>
        have hroom : toks.length < n := by
          by_contra hfull
          simp only [JsmnParser.addLeaf, allocToken, h.toknext,
            if_pos (Nat.le_of_not_lt hfull)] at hok
          cases hok
        obtain ⟨r, hr, hout⟩ := h.addLeaf hroom start type k skipped
        rw [hr] at hok
        cases hok
        exact ⟨k, rfl, rfl, hroom, hout⟩
  unfold JsmnParser.step at hstep
  split at hstep
  next hc => exact hopen (hc ▸ Brackets.object) hstep
  split at hstep
  next hc => exact hopen (hc ▸ Brackets.array) hstep
  split at hstep
  next hc => exact hclose (hc ▸ Brackets.object) hstep
  split at hstep
  next hc => exact hclose (hc ▸ Brackets.array) hstep
  split at hstep
  next hc =>
      obtain ⟨k, hk, rfl, hroom, hout⟩ := hleaf hstep
      obtain ⟨chars, rest, rfl, rfl, hchars⟩ := text_of_scanString hk
      subst hc
      exact ⟨_, hout, .string hchars hroom⟩
  split at hstep
  next hc =>
      cases hstep
      refine ⟨toks, h, .separator ?_⟩
      rcases hc with rfl | rfl | rfl | rfl <;> rfl
  split at hstep
  next hc =>
      cases hstep
      exact ⟨toks, h.setSuper _, .separator (hc ▸ rfl)⟩
  split at hstep
  next hc =>
      cases hstep
      exact ⟨toks, h.nextMember, .separator (hc ▸ rfl)⟩
  next hobject harray hobject' harray' hquote hblank hcolon hcomma =>
      obtain ⟨k, hk, rfl, hroom, hout⟩ := hleaf hstep
      obtain ⟨chars, rest, hjs, rfl, hrest, hchars⟩ := exists_of_scanPrimitive hk
      cases chars with
      | nil =>
          -- none of the characters that end a primitive is left
          have hend : isPrimitiveEnd c = true :=
            hrest c (by rw [← List.nil_append rest, ← hjs]; rfl)
          rw [not_or, not_or, not_or] at hblank
          have hcases := isPrimitiveEnd_cases hend
          simp only [List.mem_cons, List.not_mem_nil, or_false] at hcases
          rcases hcases with h | h | h | h | h | h | h | h
          · exact absurd h hcolon
          · exact absurd h hblank.1
          · exact absurd h hblank.2.1
          · exact absurd h hblank.2.2.1
          · exact absurd h hblank.2.2.2
          · exact absurd h hcomma
          · exact absurd h harray'
          · exact absurd h hobject'
      | cons d chars =>
          cases hjs
          refine ⟨_, hout, .primitive ⟨List.cons_ne_nil _ _, hchars, ?_⟩ hrest hroom⟩
          intro d hd
          cases hd
          exact ⟨hobject, harray, hquote⟩

/-- Each of these is what a step does. -/
theorem Outlines.exists_step (h : p.Outlines n toks)
    (hturn : TokenStep n pos c js skip toks toks') :
    ∃ q, p.step n pos c js = (q, .ok skip) ∧ q.Outlines n toks' := by
  cases hturn with
  | separator hc =>
      simp only [isSeparator, Bool.or_eq_true, decide_eq_true_eq] at hc
      rcases hc with ((((rfl | rfl) | rfl) | rfl) | rfl) | rfl
      · -- only the colon and the comma change the parser
        exact ⟨_, rfl, h.setSuper _⟩
      · exact ⟨_, rfl, h.nextMember⟩
      all_goals exact ⟨p, rfl, h⟩
  | @string chars rest _ hchars hroom =>
      obtain ⟨q, hq, hout⟩ := h.addLeaf hroom (pos + 1) .string chars.length (· + 1)
      refine ⟨q, ?_, hout⟩
      rw [← hq, ← hchars.scanString rest]
      rfl
  | @primitive _ chars rest _ hchars hend hroom =>
      obtain ⟨q, hq, hout⟩ := h.addLeaf hroom pos .primitive (c :: chars).length (· - 1)
      refine ⟨q, ?_, hout⟩
      have hscan := hchars.scanPrimitive hend
      rw [List.cons_append] at hscan
      obtain ⟨hobject, harray, hquote⟩ := hchars.head c rfl
      have hne {d : UInt8} (hd : isPrimitiveEnd d = true) : c ≠ d := by
        intro heq
        have hfalse := (hchars.printable c List.mem_cons_self).1
        rw [heq, hd] at hfalse
        cases hfalse
      have hblank : ¬ (c = 9 ∨ c = 13 ∨ c = 10 ∨ c = 32) :=
        not_or.mpr ⟨hne rfl, not_or.mpr ⟨hne rfl, not_or.mpr ⟨hne rfl, hne rfl⟩⟩⟩
      unfold JsmnParser.step
      rw [if_neg hobject, if_neg harray, if_neg (hne rfl), if_neg (hne rfl), if_neg hquote,
        if_neg hblank, if_neg (hne rfl), if_neg (hne rfl), hscan, hq]
      rfl
  | opening hbrackets hroom =>
      cases hbrackets with
      | object => exact h.openToken hroom pos .object
      | array => exact h.openToken hroom pos .array
  | closing hbrackets hinner =>
      cases hbrackets with
      | object => exact h.closeToken hinner pos
      | array => exact h.closeToken hinner pos

end Steps

end JsmnParser

/-! ## Texts that are open -/

/-- The text `s` from the beginning on, with `rest` behind it, has these tokens, and those of
the brackets that have not been closed yet are open. -/
inductive Opened : List UInt8 → List UInt8 → List JsmnTok → Prop
  | top {rest s : List UInt8} {toks : List JsmnTok} (hs : Yields rest 0 s toks) :
      Opened rest s toks
  | inside {rest t s : List UInt8} {outer toks : List JsmnTok} {type : JsmnType}
      {opening closing : UInt8} (hbrackets : Brackets type opening closing)
      (ht : Opened (opening :: (s ++ rest)) t outer) (hs : Yields rest (t.length + 1) s toks) :
      Opened rest (t ++ opening :: s) (outer ++ ⟨type, t.length, -1, 0⟩ :: toks)

/-- The last token that is open stands in one place only. -/
theorem append_open_inj {front front' inner inner' : List JsmnTok} {tok tok' : JsmnTok}
    (h : front ++ tok :: inner = front' ++ tok' :: inner') (htok : tok.isOpen = true)
    (htok' : tok'.isOpen = true) (hinner : ∀ tok ∈ inner, tok.isOpen = false)
    (hinner' : ∀ tok ∈ inner', tok.isOpen = false) :
    front = front' ∧ tok = tok' ∧ inner = inner' := by
  have hnot {a : JsmnTok} {l : List JsmnTok} (ha : a.isOpen = true)
      (hl : ∀ tok ∈ l, tok.isOpen = false) : a ∉ l := by
    intro hmem
    rw [hl a hmem] at ha
    cases ha
  rcases List.append_eq_append_iff.mp h with ⟨between, hfront, hrest⟩ | ⟨between, hfront, hrest⟩
  · cases between with
    | nil =>
        rw [List.append_nil] at hfront
        obtain ⟨htoks, hinners⟩ := List.cons.inj hrest
        exact ⟨hfront.symm, htoks, hinners⟩
    | cons a between =>
        obtain ⟨-, hrest⟩ := List.cons.inj hrest
        have hmem : tok' ∈ inner := by
          rw [hrest]
          exact List.mem_append_right _ List.mem_cons_self
        exact absurd hmem (hnot htok' hinner)
  · cases between with
    | nil =>
        rw [List.append_nil] at hfront
        obtain ⟨htoks, hinners⟩ := List.cons.inj hrest
        exact ⟨hfront, htoks.symm, hinners.symm⟩
    | cons a between =>
        obtain ⟨-, hrest⟩ := List.cons.inj hrest
        have hmem : tok ∈ inner' := by
          rw [hrest]
          exact List.mem_append_right _ List.mem_cons_self
        exact absurd hmem (hnot htok hinner')

namespace Opened

variable {n skip : Nat} {rest s u js : List UInt8} {c : UInt8}
  {toks toks' front inner : List JsmnTok}

/-- More text within the innermost brackets. -/
theorem extend (h : Opened (u ++ rest) s toks) (hu : Yields rest s.length u toks') :
    Opened rest (s ++ u) (toks ++ toks') := by
  generalize hbehind : u ++ rest = behind at h
  cases h with
  | top hs =>
      subst hbehind
      exact .top (hs.append (by rwa [Nat.zero_add]))
  | @inside _ t s outer toks type opening closing hbrackets ht hs =>
      subst hbehind
      have hinner : Yields rest (t.length + 1) (s ++ u) (toks ++ toks') := by
        apply hs.append
        convert hu using 1
        simp
        omega
      simp only [List.append_assoc, List.cons_append]
      refine .inside hbrackets ?_ hinner
      rwa [List.append_assoc]

/-- The text around and within the innermost brackets. -/
theorem exists_inside {tok : JsmnTok} (h : Opened rest s (front ++ tok :: inner))
    (htok : tok.isOpen = true) (hinner : ∀ tok ∈ inner, tok.isOpen = false) :
    ∃ t body type opening closing, s = t ++ opening :: body ∧ tok = ⟨type, t.length, -1, 0⟩ ∧
      Brackets type opening closing ∧ Opened (opening :: (body ++ rest)) t front ∧
      Yields rest (t.length + 1) body inner := by
  generalize htoks : front ++ tok :: inner = toks at h
  cases h with
  | top hs =>
      have hclosed := hs.closed tok
      rw [← htoks, htok] at hclosed
      cases hclosed (List.mem_append_right _ List.mem_cons_self)
  | @inside _ t s outer toks type opening closing hbrackets ht hs =>
      obtain ⟨rfl, rfl, rfl⟩ := append_open_inj htoks htok rfl hinner hs.closed
      exact ⟨t, s, type, opening, closing, rfl, rfl, hbrackets, ht, hs⟩

/-- A text none of whose tokens is open is complete. -/
theorem yields (h : Opened rest s toks) (hclosed : ∀ tok ∈ toks, tok.isOpen = false) :
    Yields rest 0 s toks := by
  cases h with
  | top hs => exact hs
  | @inside _ t s outer toks type opening closing hbrackets ht hs =>
      cases hclosed ⟨type, t.length, -1, 0⟩ (List.mem_append_right _ List.mem_cons_self)

end Opened

theorem Brackets.inj {type : JsmnType} {opening opening' closing closing' : UInt8}
    (h : Brackets type opening closing) (h' : Brackets type opening' closing') :
    opening = opening' ∧ closing = closing' := by
  cases h <;> cases h' <;> exact ⟨rfl, rfl⟩

/-- A step keeps the brackets in order. -/
theorem Opened.turn {n skip : Nat} {s js : List UInt8} {c : UInt8} {toks toks' : List JsmnTok}
    (h : Opened (c :: js) s toks) (hturn : TokenStep n s.length c js skip toks toks') :
    ∃ passed rest, js = passed ++ rest ∧ passed.length = skip ∧
      Opened rest (s ++ c :: passed) toks' := by
  cases hturn with
  | separator hc =>
      have hone : Yields js s.length [c] [] := .separator hc .nil
      have hext : Opened js (s ++ [c]) (toks ++ []) := Opened.extend h hone
      rw [List.append_nil] at hext
      exact ⟨[], js, rfl, rfl, hext⟩
  | @string chars rest _ hchars hroom =>
      have hone : Yields rest s.length (34 :: (chars ++ 34 :: [])) [_] := .string hchars .nil
      refine ⟨chars ++ [34], rest, by simp, by simp, ?_⟩
      apply Opened.extend _ hone
      simpa using h
  | @primitive _ chars rest _ hchars hend hroom =>
      have hone : Yields rest s.length ((c :: chars) ++ []) [_] := .primitive hchars hend .nil
      rw [List.append_nil] at hone
      exact ⟨chars, rest, rfl, rfl, Opened.extend (u := c :: chars) h hone⟩
  | opening hbrackets hroom =>
      exact ⟨[], js, rfl, rfl, .inside hbrackets h .nil⟩
  | @closing type opening _ _ front inner start hbrackets hinner =>
      -- the bracket closes the innermost container that is open
      obtain ⟨t, body, type', opening', closing', rfl, htok, hbrackets', ht, hbody⟩ :=
        h.exists_inside rfl hinner
      cases htok
      obtain ⟨rfl, rfl⟩ := hbrackets.inj hbrackets'
      have hone : Yields js t.length (opening :: (body ++ c :: [])) (_ :: (inner ++ [])) :=
        .container hbrackets hbody .nil
      have hext : Opened js (t ++ (opening :: (body ++ [c]))) _ :=
        Opened.extend (by simpa using ht) hone
      have hstop : ((t ++ opening :: body).length : Int) + 1 = t.length + (body.length + 2) := by
        rw [List.length_append, List.length_cons]
        omega
      refine ⟨[], js, rfl, rfl, ?_⟩
      rw [List.append_nil] at hext
      rw [hstop, List.append_assoc, List.cons_append]
      exact hext

/-! ## Runs -/

section Runs

open JsmnParser

variable {p q : JsmnParser} {n pos : Nat} {js rest s : List UInt8} {toks front : List JsmnTok}

/-- What a run over all of the text has found. -/
theorem JsmnParser.Outlines.exists_opened (h : p.Outlines n toks) (hs : Opened js s toks)
    (hrun : run n js 0 s.length p = (q, none)) :
    ∃ toks', q.Outlines n toks' ∧ Opened [] (s ++ js) toks' := by
  induction hlength : js.length using Nat.strong_induction_on generalizing js s toks p with
  | _ k ih =>
      cases js with
      | nil =>
          rw [run] at hrun
          cases hrun
          exact ⟨toks, h, by rwa [List.append_nil]⟩
      | cons c js =>
          cases hstep : p.step n s.length c js with
          | mk r res =>
              cases res with
              | error e =>
                  simp only [run, hstep] at hrun
                  cases hrun
              | ok skip =>
                  obtain ⟨toks', hr, hturn⟩ := h.exists_turn hstep
                  obtain ⟨passed, rest, rfl, rfl, hopened⟩ := hs.turn hturn
                  have hpos : s.length + 1 + passed.length = (s ++ c :: passed).length := by
                    simp
                    omega
                  rw [run_step hstep, run_skip, hpos] at hrun
                  have hlt : rest.length < k := by
                    rw [← hlength, List.length_cons, List.length_append]
                    omega
                  have hend := ih rest.length hlt hr hopened hrun rfl
                  rwa [List.append_assoc, List.cons_append] at hend

theorem JsmnParser.Outlines.exists_run {c : UInt8} {toks' : List JsmnTok}
    (h : p.Outlines n toks) (passed rest : List UInt8)
    (hturn : TokenStep n pos c (passed ++ rest) passed.length toks toks') :
    ∃ q, run n (c :: (passed ++ rest)) 0 pos p = run n rest 0 (pos + (passed.length + 1)) q ∧
      q.Outlines n toks' := by
  obtain ⟨q, hstep, hq⟩ := h.exists_step hturn
  refine ⟨q, ?_, hq⟩
  rw [run_step hstep, run_skip, Nat.add_assoc, Nat.add_comm 1]

/-- Over a text the tokenizer finds the text's tokens, if there is room for them. -/
theorem Yields.exists_run (h : Yields rest pos s toks) (hp : p.Outlines n front)
    (hroom : front.length + toks.length ≤ n) :
    ∃ q, run n (s ++ rest) 0 pos p = run n rest 0 (pos + s.length) q ∧
      q.Outlines n (front ++ toks) := by
  -- by the pieces of the text, each of which is one turn of the loop or a pair of brackets
  induction h generalizing p front with
  | nil => exact ⟨p, rfl, by rwa [List.append_nil]⟩
  | @separator rest s pos c toks hc _ ih =>
      obtain ⟨q, hrun, hq⟩ := hp.exists_run [] (s ++ rest) (.separator hc)
      obtain ⟨r, hrest, hr⟩ := ih hq hroom
      refine ⟨r, ?_, hr⟩
      rw [List.cons_append, List.length_cons, Nat.add_comm s.length, ← Nat.add_assoc]
      exact hrun.trans hrest
  | @string rest chars s pos toks hchars _ ih =>
      rw [List.length_cons] at hroom
      have hturn : TokenStep n pos 34 ((chars ++ [34]) ++ (s ++ rest)) (chars ++ [34]).length front
          (front ++ [⟨.string, pos + 1, (pos + 1 : Nat) + chars.length, 0⟩]) := by
        rw [List.append_assoc, List.length_append]
        exact .string hchars (by omega)
      obtain ⟨q, hrun, hq⟩ := hp.exists_run _ _ hturn
      rw [List.length_append, List.length_singleton] at hrun
      obtain ⟨r, hrest, hr⟩ := ih hq (by rw [List.length_append, List.length_singleton]; omega)
      refine ⟨r, ?_, by simpa using hr⟩
      calc run n (34 :: (chars ++ 34 :: s) ++ rest) 0 pos p
          = run n (34 :: (chars ++ [34] ++ (s ++ rest))) 0 pos p := by simp
        _ = run n (s ++ rest) 0 (pos + (chars.length + 2)) q := hrun
        _ = run n rest 0 (pos + (34 :: (chars ++ 34 :: s)).length) r := by
            rw [hrest]
            congr 1
            simp
            omega
  | @primitive rest chars s pos toks hchars hend _ ih =>
      rw [List.length_cons] at hroom
      obtain ⟨c, chars, rfl⟩ := List.exists_cons_of_ne_nil hchars.nonempty
      obtain ⟨q, hrun, hq⟩ := hp.exists_run _ _ (.primitive hchars hend (by omega))
      obtain ⟨r, hrest, hr⟩ := ih hq (by rw [List.length_append, List.length_singleton]; omega)
      refine ⟨r, ?_, by simpa using hr⟩
      calc run n (c :: chars ++ s ++ rest) 0 pos p
          = run n (c :: (chars ++ (s ++ rest))) 0 pos p := by simp
        _ = run n (s ++ rest) 0 (pos + (c :: chars).length) q := hrun
        _ = run n rest 0 (pos + (c :: chars ++ s).length) r := by
            rw [hrest, List.length_append, Nat.add_assoc]
  | @container rest body s pos type opening closing inner toks hbrackets hbody _ ihbody ih =>
      simp only [List.length_cons, List.length_append] at hroom
      obtain ⟨q, hopen, hq⟩ := hp.exists_run [] (body ++ closing :: (s ++ rest))
        (.opening hbrackets (by omega))
      obtain ⟨r, hinside, hr⟩ :=
        ihbody hq (by rw [List.length_append, List.length_singleton]; omega)
      rw [List.append_assoc, List.singleton_append] at hr
      obtain ⟨t, hclose, ht⟩ := hr.exists_run [] (s ++ rest) (.closing hbrackets hbody.closed)
      have hstop : ((pos + 1 + body.length : Nat) : Int) + 1 = pos + (body.length + 2) := by omega
      have hpos : pos + 1 + body.length + 1 = pos + (body.length + 2) := by omega
      rw [hstop] at ht
      obtain ⟨u, hrest, hu⟩ := ih ht (by simp only [List.length_append, List.length_cons]; omega)
      refine ⟨u, ?_, by simpa using hu⟩
      calc run n (opening :: (body ++ closing :: s) ++ rest) 0 pos p
          = run n (opening :: (body ++ closing :: (s ++ rest))) 0 pos p := by simp
        _ = run n (body ++ closing :: (s ++ rest)) 0 (pos + 1) q := hopen
        _ = run n (closing :: (s ++ rest)) 0 (pos + 1 + body.length) r := hinside
        _ = run n (s ++ rest) 0 (pos + 1 + body.length + 1) t := hclose
        _ = run n rest 0 (pos + (body.length + 2) + s.length) u := by rw [hpos, hrest]
        _ = run n rest 0 (pos + (opening :: (body ++ closing :: s)).length) u := by
            congr 1
            simp
            omega

theorem outlines_init (tokens : List JsmnTok) :
    Outlines ⟨tokens, 0, none, 0⟩ tokens.length [] :=
  ⟨rfl, rfl, rfl, fun i hi => absurd hi (Nat.not_lt_zero i)⟩

/-- The tokens in use, in the caller's array. -/
theorem JsmnParser.Outlines.map_take (h : p.Outlines n toks) (hroom : toks.length ≤ n) :
    (p.tokens.take toks.length).map JsmnTok.outline = toks := by
  apply List.ext_getElem
  · rw [List.length_map, List.length_take, h.length]
    omega
  · intro i hi hi'
    have hlt : i < p.tokens.length := by
      rw [h.length]
      omega
    have houtline := h.tokens i hi'
    rw [List.getD_eq_getElem _ _ hlt, List.getD_eq_getElem _ _ hi'] at houtline
    rw [List.getElem_map, List.getElem_take]
    exact houtline

theorem JsmnParser.Outlines.lastToken_eq_none_iff (h : p.Outlines n toks) :
    p.lastToken JsmnTok.isOpen p.toknext = none ↔ ∀ tok ∈ toks, tok.isOpen = false := by
  constructor
  · intro hlast tok htok
    obtain ⟨i, hi, rfl⟩ := List.getElem_of_mem htok
    rw [← List.getD_eq_getElem _ .blank hi, ← h.tokens i hi]
    exact not_ok_of_lastToken hlast (h.toknext ▸ hi)
  · intro hclosed
    apply lastToken_eq_none
    intro i hi
    rw [h.toknext] at hi
    have htok := hclosed _ (List.getElem_mem hi)
    rw [← List.getD_eq_getElem _ .blank hi, ← h.tokens i hi] at htok
    exact htok

/-- A text that is accepted has the tokens that are found. -/
theorem exists_yields_of_jsmnParse {tokens : List JsmnTok} {count : Nat}
    (h : (jsmnParse js tokens).1 = .ok count) :
    count ≤ tokens.length ∧ ∃ found, Yields [] 0 js found ∧ found.length = count ∧
      ((jsmnParse js tokens).2.take count).map JsmnTok.outline = found := by
  cases hrun : run tokens.length js 0 0 ⟨tokens, 0, none, 0⟩ with
  | mk p err =>
      rw [jsmnParse_eq js tokens hrun] at h ⊢
      obtain ⟨rfl, rfl, hlast⟩ := ok_of_result h
      have hsound := (sound_init tokens js.length).run (Nat.zero_add js.length) hrun
      have hroom : p.count ≤ tokens.length := hsound.count_eq ▸ hsound.next_le
      obtain ⟨found, hp, hopened⟩ := (outlines_init tokens).exists_opened (.top .nil) hrun
      refine ⟨hroom, found, ?_, hp.count.symm, ?_⟩
      · exact hopened.yields (hp.lastToken_eq_none_iff.mp hlast)
      · rw [hp.count]
        exact hp.map_take (hp.count ▸ hroom)

/-- A text that has tokens is accepted, if there is room for them. -/
theorem Yields.jsmnParse {tokens found : List JsmnTok} (h : Yields [] 0 js found)
    (hroom : found.length ≤ tokens.length) :
    (Shadow.jsmnParse js tokens).1 = .ok found.length ∧
      ((Shadow.jsmnParse js tokens).2.take found.length).map JsmnTok.outline = found := by
  obtain ⟨p, hrun, hp⟩ := h.exists_run (outlines_init tokens) (by simpa using hroom)
  rw [List.append_nil] at hrun
  rw [List.nil_append] at hp
  have hlast := hp.lastToken_eq_none_iff.mpr h.closed
  have hend : run tokens.length js 0 0 ⟨tokens, 0, none, 0⟩ = (p, none) := hrun
  rw [jsmnParse_eq js tokens hend]
  refine ⟨?_, hp.map_take hroom⟩
  simp only [JsmnParser.result, hlast, hp.count]

end Runs

/-- The tokenizer accepts exactly the texts of the grammar that there is room for, and finds
exactly their tokens. -/
theorem jsmnParse_iff_yields (js : Text) (tokens found : List JsmnTok) :
    ((jsmnParse js.chars tokens).1 = .ok found.length ∧
        ((jsmnParse js.chars tokens).2.take found.length).map JsmnTok.outline = found) ↔
      Yields [] 0 js.chars found ∧ found.length ≤ tokens.length := by
  constructor
  · rintro ⟨hok, hfound⟩
    obtain ⟨hroom, toks, hyields, -, htoks⟩ := exists_yields_of_jsmnParse hok
    exact ⟨hfound ▸ htoks ▸ hyields, hroom⟩
  · rintro ⟨hyields, hroom⟩
    exact hyields.jsmnParse hroom

end MqttClient.Shadow
