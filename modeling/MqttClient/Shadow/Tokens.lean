import MqttClient.Shadow.Jsmn

/-! # What the tokenizer leaves behind

Of the tokens in the caller's array those that are found depend on the text alone.
They lie within the text and are closed.
-/

namespace MqttClient.Shadow

namespace JsmnTok

/-- What a write to one place of the array leaves at the others. -/
theorem getD_set (tokens : List JsmnTok) (k i : Nat) (tok : JsmnTok) :
    (tokens.set k tok).getD i .blank =
      if i = k ∧ k < tokens.length then tok else tokens.getD i .blank := by
  rw [List.getD_eq_getElem?_getD, List.getElem?_set, List.getD_eq_getElem?_getD]
  by_cases hik : i = k
  · subst hik
    by_cases hlt : i < tokens.length <;> simp [hlt]
  · simp [hik, Ne.symm hik]

/-- What a change at one place of the array leaves at the others. -/
theorem getD_modify (tokens : List JsmnTok) (k i : Nat) (f : JsmnTok → JsmnTok) :
    (tokens.modify k f).getD i .blank =
      if i = k ∧ k < tokens.length then f (tokens.getD i .blank) else tokens.getD i .blank := by
  rw [List.getD_eq_getElem?_getD, List.getElem?_modify, List.getD_eq_getElem?_getD]
  by_cases hik : i = k
  · subst hik
    by_cases hlt : i < tokens.length <;> simp [hlt]
  · simp [hik, Ne.symm hik]

end JsmnTok

namespace JsmnParser

/-! ## The last token with a property -/

/-- The last token with a property depends on the first `n` tokens only. -/
theorem lastToken_congr {p q : JsmnParser} {ok : JsmnTok → Bool} {n : Nat}
    (h : ∀ i < n, p.tokens.getD i .blank = q.tokens.getD i .blank) :
    p.lastToken ok n = q.lastToken ok n := by
  induction n with
  | zero => rfl
  | succ n ih =>
      have hrest := ih fun i hi => h i (Nat.lt_succ_of_lt hi)
      rw [lastToken, lastToken, h n (Nat.lt_succ_self n), hrest]

/-- It is one of them. -/
theorem lt_of_lastToken {p : JsmnParser} {ok : JsmnTok → Bool} {n i : Nat}
    (h : p.lastToken ok n = some i) : i < n := by
  induction n with
  | zero => cases h
  | succ n ih =>
      rw [lastToken] at h
      split at h
      next => cases h; exact Nat.lt_succ_self _
      next => exact Nat.lt_succ_of_lt (ih h)

/-- If there is none, each of them lacks the property. -/
theorem not_ok_of_lastToken {p : JsmnParser} {ok : JsmnTok → Bool} {n i : Nat}
    (h : p.lastToken ok n = none) (hi : i < n) : ok (p.tokens.getD i .blank) = false := by
  induction n with
  | zero => omega
  | succ n ih =>
      rw [lastToken] at h
      split at h
      next => cases h
      next hok =>
          rcases Nat.lt_succ_iff_lt_or_eq.mp hi with hlt | rfl
          · exact ih h hlt
          · simpa using hok

/-! ## Tokens that are not in use do not matter -/

/-- Two parsers that differ only in tokens that are not in use. -/
structure Agrees (p q : JsmnParser) : Prop where
  toknext : p.toknext = q.toknext
  toksuper : p.toksuper = q.toksuper
  count : p.count = q.count
  length : p.tokens.length = q.tokens.length
  tokens : ∀ i < p.toknext, p.tokens.getD i .blank = q.tokens.getD i .blank

/-- The superior token is in use. -/
def HasSuper (p : JsmnParser) : Prop := ∀ i, p.toksuper = some i → i < p.toknext

namespace Agrees

variable {p q : JsmnParser}

/-- Parsers that agree find the same last token. -/
theorem lastToken (h : p.Agrees q) (ok : JsmnTok → Bool) {n : Nat} (hn : n ≤ p.toknext) :
    p.lastToken ok n = q.lastToken ok n :=
  lastToken_congr fun i hi => h.tokens i (Nat.lt_of_lt_of_le hi hn)

/-- A change at one place is made on both sides. -/
theorem modify (h : p.Agrees q) (i : Nat) (f : JsmnTok → JsmnTok) :
    Agrees { p with tokens := p.tokens.modify i f } { q with tokens := q.tokens.modify i f } where
  toknext := h.toknext
  toksuper := h.toksuper
  count := h.count
  length := by simp [h.length]
  tokens := by
    intro j hj
    simp only [JsmnTok.getD_modify, h.length, h.tokens j hj]

theorem countChild (h : p.Agrees q) : p.countChild.Agrees q.countChild := by
  unfold JsmnParser.countChild
  cases hp : p.toksuper with
  | none =>
      have hq : q.toksuper = none := h.toksuper ▸ hp
      simp only [hq]
      exact h
  | some i =>
      have hq : q.toksuper = some i := h.toksuper ▸ hp
      have hmodify := h.modify i fun tok => { tok with size := tok.size + 1 }
      simp only [hp, hq] at hmodify ⊢
      exact hmodify

theorem setSuper (h : p.Agrees q) (i : Option Nat) :
    Agrees { p with toksuper := i } { q with toksuper := i } :=
  ⟨h.toknext, rfl, h.count, h.length, h.tokens⟩

theorem setCount (h : p.Agrees q) :
    Agrees { p with count := p.count + 1 } { q with count := q.count + 1 } :=
  ⟨h.toknext, h.toksuper, congrArg (· + 1) h.count, h.length, h.tokens⟩

/-- The same token is added to both. -/
theorem add (h : p.Agrees q) (tok : JsmnTok) :
    Agrees { p with tokens := p.tokens.set p.toknext tok, toknext := p.toknext + 1 }
      { q with tokens := q.tokens.set q.toknext tok, toknext := q.toknext + 1 } where
  toknext := congrArg (· + 1) h.toknext
  toksuper := h.toksuper
  count := h.count
  length := by simp [h.length]
  tokens := by
    intro i hi
    simp only [JsmnTok.getD_set, ← h.toknext, h.length]
    split
    next => rfl
    next hne =>
        rcases Nat.lt_succ_iff_lt_or_eq.mp hi with hlt | rfl
        · exact h.tokens i hlt
        · -- there is no room for the token
          have hlen : q.tokens.length ≤ p.toknext := by
            by_contra hlt
            exact hne ⟨rfl, by omega⟩
          have hlen' : p.tokens.length ≤ p.toknext := h.length ▸ hlen
          simp [hlen, hlen']

variable {n pos : Nat} {type : JsmnType}

/-- The other parser is the same but for its tokens. -/
theorem exists_eq (h : p.Agrees q) : ∃ tokens, q = { p with tokens := tokens } :=
  ⟨q.tokens, by rw [h.toknext, h.toksuper, h.count]⟩

/-- A bracket is opened alike, whatever the unused tokens hold. -/
theorem openToken (h : p.Agrees q) :
    (p.openToken n pos type).2 = (q.openToken n pos type).2 ∧
      (p.openToken n pos type).1.Agrees (q.openToken n pos type).1 := by
  obtain ⟨tokens, rfl⟩ := h.exists_eq
  simp only [JsmnParser.openToken, allocToken]
  by_cases hroom : p.toknext ≥ n
  · simp only [if_pos hroom]
    exact ⟨trivial, h.setCount⟩
  · simp only [if_neg hroom]
    exact ⟨trivial, ((h.setCount.add ⟨type, pos, -1, 0⟩).countChild).setSuper _⟩

/-- A bracket is closed alike. -/
theorem closeToken (h : p.Agrees q) :
    (p.closeToken pos type).2 = (q.closeToken pos type).2 ∧
      (p.closeToken pos type).1.Agrees (q.closeToken pos type).1 := by
  obtain ⟨tokens, rfl⟩ := h.exists_eq
  unfold JsmnParser.closeToken
  simp only [← h.lastToken _ (Nat.le_refl _)]
  cases hlast : p.lastToken JsmnTok.isOpen p.toknext with
  | none => exact ⟨rfl, h⟩
  | some i =>
      have hi : i < p.toknext := lt_of_lastToken hlast
      have hclosed := h.modify i fun tok => { tok with stop := pos + 1 }
      have htoken := h.tokens i hi
      simp only at htoken
      simp only [← htoken]
      by_cases htype : (p.tokens.getD i .blank).type ≠ type
      · simp only [if_pos htype]
        exact ⟨trivial, h⟩
      · simp only [if_neg htype, hclosed.lastToken _ (Nat.succ_le_of_lt hi)]
        exact ⟨trivial, hclosed.setSuper _⟩

/-- A string or a primitive is added alike. -/
theorem addLeaf (h : p.Agrees q) {len : Except JsmnError Nat} {skipped : Nat → Nat} :
    (p.addLeaf n pos type len skipped).2 = (q.addLeaf n pos type len skipped).2 ∧
      (p.addLeaf n pos type len skipped).1.Agrees (q.addLeaf n pos type len skipped).1 := by
  obtain ⟨tokens, rfl⟩ := h.exists_eq
  unfold JsmnParser.addLeaf
  cases len with
  | error e => exact ⟨rfl, h⟩
  | ok k =>
      by_cases hroom : p.toknext ≥ n
      · simp only [allocToken, if_pos hroom]
        exact ⟨trivial, h⟩
      · simp only [allocToken, if_neg hroom]
        exact ⟨trivial, (h.add ⟨type, pos, pos + k, 0⟩).setCount.countChild⟩

/-- After a comma both go back to the same container. -/
theorem nextMember (h : p.Agrees q) (hsuper : p.HasSuper) : p.nextMember.Agrees q.nextMember := by
  obtain ⟨tokens, rfl⟩ := h.exists_eq
  unfold JsmnParser.nextMember
  simp only [← h.lastToken _ (Nat.le_refl _)]
  cases hp : p.toksuper with
  | none =>
      simp only [hp] at h
      exact h
  | some i =>
      have htoken := h.tokens i (hsuper i hp)
      simp only at htoken
      simp only [hp] at h
      simp only [← htoken]
      split
      next => exact h
      next =>
          split
          next => exact h
          next => exact h.setSuper _

/-- A step finds the same in both. -/
theorem step (h : p.Agrees q) (hsuper : p.HasSuper) (c : UInt8) (js : List UInt8) :
    (p.step n pos c js).2 = (q.step n pos c js).2 ∧
      (p.step n pos c js).1.Agrees (q.step n pos c js).1 := by
  unfold JsmnParser.step
  split
  next => exact h.openToken
  split
  next => exact h.openToken
  split
  next => exact h.closeToken
  split
  next => exact h.closeToken
  split
  next => exact h.addLeaf
  split
  next => exact ⟨rfl, h⟩
  split
  next =>
      obtain ⟨tokens, rfl⟩ := h.exists_eq
      exact ⟨rfl, h.setSuper _⟩
  split
  next => exact ⟨rfl, h.nextMember hsuper⟩
  next => exact h.addLeaf

end Agrees

end JsmnParser

/-! ## Tokens lie within the text -/

/-- The token starts at or before `pos`, and if it is closed it ends within `limit`
characters. -/
structure JsmnTok.FitsIn (tok : JsmnTok) (pos limit : Nat) : Prop where
  start_le : tok.start ≤ pos
  stop_of_closed : tok.stop ≠ -1 → (tok.start : Int) ≤ tok.stop ∧ tok.stop ≤ limit

/-- A token that fits in still does further on. -/
theorem JsmnTok.FitsIn.mono {tok : JsmnTok} {pos pos' limit : Nat} (h : tok.FitsIn pos limit)
    (hle : pos ≤ pos') : tok.FitsIn pos' limit :=
  ⟨Nat.le_trans h.start_le hle, h.stop_of_closed⟩

theorem exists_of_map_ok {r : Except JsmnError Nat} {n : Nat} (h : (· + 1) <$> r = .ok n) :
    ∃ k, r = .ok k ∧ n = k + 1 := by
  cases r with
  | error e => cases h
  | ok k => cases h; exact ⟨k, rfl, rfl⟩

/-- A primitive ends within the text. -/
theorem length_of_scanPrimitive {js : List UInt8} {n : Nat} (h : scanPrimitive js = .ok n) :
    n ≤ js.length := by
  induction js generalizing n with
  | nil => cases h; exact Nat.le_refl 0
  | cons c js ih =>
      rw [scanPrimitive] at h
      split at h
      next => cases h; exact Nat.zero_le _
      next =>
          split at h
          next => cases h
          next =>
              obtain ⟨k, hk, rfl⟩ := exists_of_map_ok h
              exact Nat.succ_le_succ (ih hk)

/-- The closing quote stands behind the characters that are counted. -/
theorem length_of_scanString {mode : StringMode} {js : List UInt8} {n : Nat}
    (h : scanString mode js = .ok n) : n < js.length := by
  induction js generalizing mode n with
  | nil => cases mode <;> cases h
  | cons c js ih =>
      have hrest {mode' : StringMode} (hscan : (· + 1) <$> scanString mode' js = .ok n) :
          n < (c :: js).length := by
        obtain ⟨k, hk, rfl⟩ := exists_of_map_ok hscan
        exact Nat.succ_lt_succ (ih hk)
      cases mode with
      | plain =>
          unfold scanString at h
          split at h
          next => cases h; exact Nat.succ_pos _
          next => exact hrest h
      | escape =>
          unfold scanString at h
          split at h
          next => exact hrest h
          split at h
          next => exact hrest h
          next => cases h
      | hex k =>
          unfold scanString at h
          split at h
          next => exact hrest h
          next => cases h

namespace JsmnParser

/-! ## The array keeps its length -/

section Length

variable {n pos : Nat} {p : JsmnParser}

theorem length_countChild (p : JsmnParser) : p.countChild.tokens.length = p.tokens.length := by
  unfold JsmnParser.countChild
  split
  next => rfl
  next => exact List.length_modify ..

theorem length_openToken (type : JsmnType) :
    (p.openToken n pos type).1.tokens.length = p.tokens.length := by
  simp only [openToken, allocToken]
  by_cases hroom : p.toknext ≥ n
  · simp only [if_pos hroom]
  · simp only [if_neg hroom, length_countChild, List.length_set]

theorem length_closeToken (type : JsmnType) :
    (p.closeToken pos type).1.tokens.length = p.tokens.length := by
  unfold closeToken
  split
  next => rfl
  next => split <;> simp

theorem length_addLeaf (start : Nat) (type : JsmnType) (len : Except JsmnError Nat)
    (skipped : Nat → Nat) :
    (p.addLeaf n start type len skipped).1.tokens.length = p.tokens.length := by
  cases len with
  | error e => rfl
  | ok k =>
      by_cases hroom : p.toknext ≥ n
      · simp only [addLeaf, allocToken, if_pos hroom]
      · simp only [addLeaf, allocToken, if_neg hroom, length_countChild, List.length_set]

theorem length_nextMember : p.nextMember.tokens.length = p.tokens.length := by
  unfold nextMember
  split
  next => rfl
  next =>
      split
      next => rfl
      next => split <;> rfl

theorem length_step (c : UInt8) (js : List UInt8) :
    (p.step n pos c js).1.tokens.length = p.tokens.length := by
  unfold step
  split
  next => exact length_openToken _
  split
  next => exact length_openToken _
  split
  next => exact length_closeToken _
  split
  next => exact length_closeToken _
  split
  next => exact length_addLeaf _ _ _ _
  split
  next => rfl
  split
  next => rfl
  split
  next => exact length_nextMember
  next => exact length_addLeaf _ _ _ _

/-- A run neither lengthens nor shortens the array. -/
theorem length_run (js : List UInt8) (skip : Nat) :
    (run n js skip pos p).1.tokens.length = p.tokens.length := by
  induction js generalizing skip pos p with
  | nil => simp only [run]
  | cons c js ih =>
      cases skip with
      | succ skip =>
          simp only [run]
          exact ih skip
      | zero =>
          have hlength : (p.step n pos c js).1.tokens.length = p.tokens.length := length_step c js
          simp only [run]
          cases hp : p.step n pos c js with
          | mk q r =>
              rw [hp] at hlength
              cases r with
              | error e => exact hlength
              | ok skip => exact (ih skip).trans hlength

end Length

/-- The tokens of a parser in front of `pos`, in a text of `limit` characters, where
there is room for `n` tokens. -/
structure Sound (n limit pos : Nat) (p : JsmnParser) : Prop where
  super : p.HasSuper
  length_eq : p.tokens.length = n
  next_le : p.toknext ≤ n
  count_eq : p.count = p.toknext
  fits : ∀ i < p.toknext, (p.tokens.getD i .blank).FitsIn pos limit

namespace Sound

variable {limit pos n : Nat} {p q : JsmnParser} {type : JsmnType} {skip : Nat}

theorem mono (h : p.Sound n limit pos) {pos' : Nat} (hle : pos ≤ pos') : p.Sound n limit pos' :=
  ⟨h.super, h.length_eq, h.next_le, h.count_eq, fun i hi => (h.fits i hi).mono hle⟩

theorem countChild (h : p.Sound n limit pos) : p.countChild.Sound n limit pos := by
  unfold JsmnParser.countChild
  split
  next => exact h
  next i _ =>
      refine ⟨h.super, by simpa using h.length_eq, h.next_le, h.count_eq, ?_⟩
      intro j hj
      have hfits := h.fits j hj
      simp only [JsmnTok.getD_modify]
      split
      next => exact ⟨hfits.start_le, hfits.stop_of_closed⟩
      next => exact hfits

theorem toknext_countChild (p : JsmnParser) : p.countChild.toknext = p.toknext := by
  unfold JsmnParser.countChild
  split <;> rfl

theorem setSuper (h : p.Sound n limit pos) {i : Option Nat} (hi : ∀ j, i = some j → j < p.toknext) :
    Sound n limit pos { p with toksuper := i } :=
  ⟨hi, h.length_eq, h.next_le, h.count_eq, h.fits⟩

/-- A token is added for which there is room. -/
theorem add (h : p.Sound n limit pos) (tok : JsmnTok) (hroom : p.toknext < n)
    (htok : tok.FitsIn pos limit) : Sound n limit pos
      { p with
        tokens := p.tokens.set p.toknext tok
        toknext := p.toknext + 1
        count := p.count + 1 } where
  super := fun i hi => Nat.lt_succ_of_lt (h.super i hi)
  length_eq := by rw [List.length_set, h.length_eq]
  next_le := hroom
  count_eq := congrArg (· + 1) h.count_eq
  fits := by
    intro i hi
    simp only [JsmnTok.getD_set]
    split
    next => exact htok
    next hne =>
        rcases Nat.lt_succ_iff_lt_or_eq.mp hi with hlt | rfl
        · exact h.fits i hlt
        · exact absurd ⟨rfl, h.length_eq ▸ hroom⟩ hne

/-- A token that is opened starts at the position reached. -/
theorem openToken (h : p.Sound n limit pos)
    (hok : p.openToken n pos type = (q, .ok skip)) : q.Sound n limit pos := by
  simp only [JsmnParser.openToken, allocToken] at hok
  by_cases hroom : p.toknext ≥ n
  · simp only [if_pos hroom] at hok
    cases hok
  · simp only [if_neg hroom] at hok
    cases hok
    have hadd := h.add ⟨type, pos, -1, 0⟩ (Nat.lt_of_not_le hroom)
      ⟨Nat.le_refl _, fun hne => absurd rfl hne⟩
    apply hadd.countChild.setSuper
    intro j hj
    cases hj
    rw [toknext_countChild]
    exact Nat.lt_succ_self _

/-- A token that is closed stops behind the position reached. -/
theorem closeToken (h : p.Sound n limit pos) (hpos : pos < limit)
    (hok : p.closeToken pos type = (q, .ok skip)) : q.Sound n limit pos := by
  unfold JsmnParser.closeToken at hok
  split at hok
  next => cases hok
  next i hlast =>
      split at hok
      next => cases hok
      next =>
          cases hok
          have hi := lt_of_lastToken hlast
          have hclosed : Sound n limit pos
              { p with tokens := p.tokens.modify i fun tok => { tok with stop := pos + 1 } } := by
            refine ⟨h.super, by simpa using h.length_eq, h.next_le, h.count_eq, ?_⟩
            intro j hj
            have hfits := h.fits j hj
            simp only [JsmnTok.getD_modify]
            split
            next =>
                have hstart := hfits.start_le
                exact ⟨hstart, fun _ => ⟨by simp only; omega, by simp only; omega⟩⟩
            next => exact hfits
          apply hclosed.setSuper
          intro j hj
          have hlt := lt_of_lastToken hj
          simp only
          omega

/-- A string or a primitive lies within the text. -/
theorem addLeaf (h : p.Sound n limit pos) {len : Except JsmnError Nat} {skipped : Nat → Nat}
    {start : Nat} (hstart : start ≤ pos) (hlen : ∀ k, len = .ok k → start + k ≤ limit)
    (hok : p.addLeaf n start type len skipped = (q, .ok skip)) :
    q.Sound n limit pos := by
  unfold JsmnParser.addLeaf at hok
  split at hok
  next => cases hok
  next k =>
      have hstop := hlen k rfl
      by_cases hroom : p.toknext ≥ n
      · simp only [allocToken, if_pos hroom] at hok
        cases hok
      · simp only [allocToken, if_neg hroom] at hok
        cases hok
        apply countChild
        exact h.add _ (Nat.lt_of_not_le hroom)
          ⟨hstart, fun _ => ⟨by simp only; omega, by simp only; omega⟩⟩

/-- After a comma the parser goes back to one of its own tokens. -/
theorem nextMember (h : p.Sound n limit pos) : p.nextMember.Sound n limit pos := by
  unfold JsmnParser.nextMember
  split
  next => exact h
  next =>
      split
      next => exact h
      next =>
          split
          next => exact h
          next j hlast =>
              apply h.setSuper
              intro k hk
              cases hk
              exact lt_of_lastToken hlast

/-- A step from the character at `pos` on. -/
theorem step (h : p.Sound n limit pos) {c : UInt8} {js : List UInt8}
    (hlimit : pos + 1 + js.length = limit)
    (hok : p.step n pos c js = (q, .ok skip)) : q.Sound n limit (pos + 1) := by
  unfold JsmnParser.step at hok
  split at hok
  next => exact (h.openToken hok).mono (Nat.le_succ _)
  split at hok
  next => exact (h.openToken hok).mono (Nat.le_succ _)
  split at hok
  next => exact (h.closeToken (by omega) hok).mono (Nat.le_succ _)
  split at hok
  next => exact (h.closeToken (by omega) hok).mono (Nat.le_succ _)
  split at hok
  next =>
      apply (h.mono (Nat.le_succ pos)).addLeaf (Nat.le_refl _) _ hok
      intro k hk
      have hlt := length_of_scanString hk
      omega
  split at hok
  next => cases hok; exact h.mono (Nat.le_succ _)
  split at hok
  next =>
      cases hok
      apply (h.mono (Nat.le_succ pos)).setSuper
      intro j hj
      split at hj
      next => cases hj
      next => cases hj; omega
  split at hok
  next => cases hok; exact h.nextMember.mono (Nat.le_succ _)
  next =>
      apply Sound.mono _ (Nat.le_succ pos)
      apply h.addLeaf (Nat.le_refl _) _ hok
      intro k hk
      have hle := length_of_scanPrimitive hk
      simp only [List.length_cons] at hle
      omega

end Sound

/-! ## Runs -/

section Run

variable {limit n skip pos : Nat} {p q : JsmnParser} {js : List UInt8}

/-- A run depends on the tokens that are in use, and on no others. -/
theorem Agrees.run (h : p.Agrees q) (hsound : p.Sound n limit pos)
    (hlimit : pos + js.length = limit) :
    (JsmnParser.run n js skip pos p).2 = (JsmnParser.run n js skip pos q).2 ∧
      (JsmnParser.run n js skip pos p).1.Agrees (JsmnParser.run n js skip pos q).1 := by
  induction js generalizing skip pos p q with
  | nil => exact ⟨by simp only [JsmnParser.run], by simpa only [JsmnParser.run] using h⟩
  | cons c js ih =>
      rw [List.length_cons] at hlimit
      cases skip with
      | succ skip =>
          simp only [JsmnParser.run]
          exact ih h (hsound.mono (Nat.le_succ _)) (by omega)
      | zero =>
          simp only [JsmnParser.run]
          obtain ⟨hresult, hagrees⟩ : (p.step n pos c js).2 = (q.step n pos c js).2 ∧
              (p.step n pos c js).1.Agrees (q.step n pos c js).1 := h.step hsound.super c js
          cases hp : p.step n pos c js with
          | mk p' r =>
              cases hq : q.step n pos c js with
              | mk q' r' =>
                  rw [hp, hq] at hresult hagrees
                  cases hresult
                  cases r with
                  | error e => exact ⟨rfl, hagrees⟩
                  | ok skip => exact ih hagrees (hsound.step (by omega) hp) (by omega)

/-- What a run leaves behind lies within the text. -/
theorem Sound.run (h : p.Sound n limit pos) (hlimit : pos + js.length = limit)
    (hok : JsmnParser.run n js skip pos p = (q, none)) : q.Sound n limit limit := by
  induction js generalizing skip pos p with
  | nil =>
      simp only [JsmnParser.run] at hok
      cases hok
      exact h.mono (by simpa using Nat.le_of_eq hlimit)
  | cons c js ih =>
      rw [List.length_cons] at hlimit
      cases skip with
      | succ skip =>
          simp only [JsmnParser.run] at hok
          exact ih (h.mono (Nat.le_succ _)) (by omega) hok
      | zero =>
          simp only [JsmnParser.run] at hok
          cases hp : p.step n pos c js with
          | mk p' r =>
              rw [hp] at hok
              cases r with
              | error e => cases hok
              | ok skip => exact ih (h.step (by omega) hp) (by omega) hok

/-- The parser with which `jsmn_parse` begins. -/
theorem sound_init (tokens : List JsmnTok) (limit : Nat) :
    Sound tokens.length limit 0 ⟨tokens, 0, none, 0⟩ where
  super := nofun
  length_eq := rfl
  next_le := Nat.zero_le _
  count_eq := rfl
  fits := fun i hi => absurd hi (Nat.not_lt_zero i)

end Run

end JsmnParser

/-! ## Documents -/

/-- The result of a parse that is in a given state when it ends. -/
def JsmnParser.result (p : JsmnParser) : Option JsmnError → Except JsmnError Nat
  | some e => .error e
  | none =>
      match p.lastToken JsmnTok.isOpen p.toknext with
      | some _ => .error .part
      | none => .ok p.count

/-- Parsing is a run from the start, and what becomes of its parser. -/
theorem jsmnParse_eq (js : List UInt8) (tokens : List JsmnTok) {p : JsmnParser}
    {err : Option JsmnError}
    (h : JsmnParser.run tokens.length js 0 0 ⟨tokens, 0, none, 0⟩ = (p, err)) :
    jsmnParse js tokens = (p.result err, p.tokens) := by
  unfold jsmnParse
  rw [h]
  cases err with
  | some e => rfl
  | none =>
      cases hlast : p.lastToken JsmnTok.isOpen p.toknext <;>
        simp only [JsmnParser.result, hlast]

/-- Parsers that agree have the same result. -/
theorem JsmnParser.Agrees.result {p q : JsmnParser} (h : p.Agrees q) (err : Option JsmnError) :
    p.result err = q.result err := by
  obtain ⟨tokens, rfl⟩ := h.exists_eq
  cases err with
  | some e => rfl
  | none =>
      unfold JsmnParser.result
      rw [h.lastToken _ (Nat.le_refl _)]

/-- A parse that succeeds has counted the tokens, and has closed them. -/
theorem JsmnParser.ok_of_result {p : JsmnParser} {err : Option JsmnError} {count : Nat}
    (h : p.result err = .ok count) :
    err = none ∧ p.count = count ∧ p.lastToken JsmnTok.isOpen p.toknext = none := by
  cases err with
  | some e => cases h
  | none =>
      cases hlast : p.lastToken JsmnTok.isOpen p.toknext with
      | some i =>
          simp only [JsmnParser.result, hlast] at h
          cases h
      | none =>
          simp only [JsmnParser.result, hlast] at h
          cases h
          exact ⟨rfl, rfl, rfl⟩

/-- Parsing keeps the length of the array. -/
theorem length_jsmnParse (js : List UInt8) (tokens : List JsmnTok) :
    (jsmnParse js tokens).2.length = tokens.length := by
  cases hp : JsmnParser.run tokens.length js 0 0 ⟨tokens, 0, none, 0⟩ with
  | mk p err =>
      have hlength : (JsmnParser.run tokens.length js 0 0 ⟨tokens, 0, none, 0⟩).1.tokens.length =
          tokens.length := JsmnParser.length_run js 0
      rw [hp] at hlength
      rw [jsmnParse_eq js tokens hp]
      exact hlength

/-- What is found depends on the text alone, if there is room for the same number of
tokens. -/
theorem jsmnParse_congr (js : List UInt8) {tokens tokens' : List JsmnTok}
    (hlength : tokens.length = tokens'.length) :
    (jsmnParse js tokens).1 = (jsmnParse js tokens').1 ∧
      ∀ count, (jsmnParse js tokens).1 = .ok count → ∀ i < count,
        (jsmnParse js tokens).2.getD i .blank = (jsmnParse js tokens').2.getD i .blank := by
  have hinit : JsmnParser.Agrees ⟨tokens, 0, none, 0⟩ ⟨tokens', 0, none, 0⟩ :=
    ⟨rfl, rfl, rfl, hlength, fun i hi => absurd hi (Nat.not_lt_zero i)⟩
  have hsound := JsmnParser.sound_init tokens js.length
  obtain ⟨herr, hagrees⟩ :
      (JsmnParser.run tokens.length js 0 0 ⟨tokens, 0, none, 0⟩).2 =
          (JsmnParser.run tokens.length js 0 0 ⟨tokens', 0, none, 0⟩).2 ∧
        (JsmnParser.run tokens.length js 0 0 ⟨tokens, 0, none, 0⟩).1.Agrees
          (JsmnParser.run tokens.length js 0 0 ⟨tokens', 0, none, 0⟩).1 :=
    hinit.run hsound (Nat.zero_add js.length)
  cases hp : JsmnParser.run tokens.length js 0 0 ⟨tokens, 0, none, 0⟩ with
  | mk p err =>
      cases hq : JsmnParser.run tokens.length js 0 0 ⟨tokens', 0, none, 0⟩ with
      | mk q err' =>
          rw [hp, hq] at herr hagrees
          dsimp only at herr hagrees
          subst herr
          rw [jsmnParse_eq js tokens hp, jsmnParse_eq js tokens' (hlength ▸ hq)]
          refine ⟨hagrees.result err, ?_⟩
          intro count hcount i hi
          obtain ⟨rfl, rfl, -⟩ := JsmnParser.ok_of_result hcount
          have hend := hsound.run (Nat.zero_add js.length) hp
          exact hagrees.tokens i (hend.count_eq ▸ hi)

section Found

variable {js : List UInt8} {tokens tokens' : List JsmnTok} {count i : Nat}

/-- The state in which a parse has succeeded. -/
theorem exists_sound_of_jsmnParse (h : jsmnParse js tokens = (.ok count, tokens')) :
    ∃ p : JsmnParser, p.Sound tokens.length js.length js.length ∧ p.tokens = tokens' ∧
      p.count = count ∧ p.lastToken JsmnTok.isOpen p.toknext = none := by
  cases hp : JsmnParser.run tokens.length js 0 0 ⟨tokens, 0, none, 0⟩ with
  | mk p err =>
      rw [jsmnParse_eq js tokens hp] at h
      obtain ⟨hresult, htokens⟩ := Prod.mk.inj h
      obtain ⟨rfl, hcount, hlast⟩ := JsmnParser.ok_of_result hresult
      have hend := (JsmnParser.sound_init tokens js.length).run (Nat.zero_add js.length) hp
      exact ⟨p, hend, htokens, hcount, hlast⟩

/-- The tokens that are found are closed and lie within the text. -/
theorem fitsIn_of_jsmnParse (h : jsmnParse js tokens = (.ok count, tokens')) (hi : i < count) :
    ((tokens'.getD i .blank).start : Int) ≤ (tokens'.getD i .blank).stop ∧
      (tokens'.getD i .blank).stop ≤ js.length := by
  obtain ⟨p, hsound, rfl, rfl, hlast⟩ := exists_sound_of_jsmnParse h
  have hlt : i < p.toknext := hsound.count_eq ▸ hi
  have hclosed : (p.tokens.getD i .blank).isOpen = false :=
    JsmnParser.not_ok_of_lastToken hlast hlt
  exact (hsound.fits i hlt).stop_of_closed (by simpa [JsmnTok.isOpen] using hclosed)

end Found

end MqttClient.Shadow
