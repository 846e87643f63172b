import MqttClient.Shadow.Recognition

/-! # Texts that are not accepted

A text that the tokenizer does not accept is reported as incomplete exactly if more characters
can complete it, and as invalid if none can.
-/

namespace MqttClient.Shadow

/-! ## Where the scanners fail -/

theorem error_of_scanString {mode : StringMode} {js : List UInt8} {e : JsmnError}
    (h : scanString mode js = .error e) : e = .part ∨ e = .inval := by
  induction js generalizing mode with
  | nil => cases mode <;> cases h <;> exact .inl rfl
  | cons c js ih =>
      have hnext {next : StringMode} (hscan : (· + 1) <$> scanString next js = .error e) :
          e = .part ∨ e = .inval := by
        cases hr : scanString next js with
        | error e' => rw [hr] at hscan; cases hscan; exact ih hr
        | ok k => rw [hr] at hscan; cases hscan
      cases mode with
      | plain =>
          unfold scanString at h
          split at h
          next => cases h
          next => exact hnext h
      | escape =>
          unfold scanString at h
          split at h
          next => exact hnext h
          split at h
          next => exact hnext h
          next => cases h; exact .inr rfl
      | hex k =>
          unfold scanString at h
          split at h
          next => exact hnext h
          next => cases h; exact .inr rfl

theorem error_of_scanPrimitive {js : List UInt8} {e : JsmnError}
    (h : scanPrimitive js = .error e) : e = .inval := by
  induction js with
  | nil => cases h
  | cons c js ih =>
      rw [scanPrimitive] at h
      split_ifs at h
      · cases h
        rfl
      · cases hr : scanPrimitive js with
        | error e' => rw [hr] at h; cases h; exact ih hr
        | ok k => rw [hr] at h; cases h

namespace JsmnParser

section Failures

variable {p q : JsmnParser} {n pos skip : Nat} {c : UInt8} {js : List UInt8}
  {toks toks' : List JsmnTok}

/-- What a step reports when it fails. -/
theorem Outlines.of_step_error {e : JsmnError} (h : p.Outlines n toks)
    (hstep : p.step n pos c js = (q, .error e)) :
    e = .nomem ∧ n ≤ toks.length ∨
      e = .part ∧ c = 34 ∧ scanString .plain js = .error .part ∨
      e = .inval ∧ ¬ (c = 34 ∧ scanString .plain js = .error .part) := by
  have hopen {type : JsmnType} (hfail : p.openToken n pos type = (q, .error e)) :
      e = .nomem ∧ n ≤ toks.length := by
    by_cases hroom : toks.length < n
    · obtain ⟨r, hr, -⟩ := h.openToken hroom pos type
      rw [hr] at hfail
      cases hfail
    · simp only [JsmnParser.openToken, allocToken, h.toknext, if_pos (Nat.le_of_not_lt hroom)]
        at hfail
      cases hfail
      exact ⟨rfl, Nat.le_of_not_lt hroom⟩
  have hclose {type : JsmnType} (hfail : p.closeToken pos type = (q, .error e)) : e = .inval := by
    unfold JsmnParser.closeToken at hfail
    split at hfail
    next => cases hfail; rfl
    next =>
        split at hfail
        next => cases hfail; rfl
        next => cases hfail
  have hleaf {start : Nat} {type : JsmnType} {len : Except JsmnError Nat} {skipped : Nat → Nat}
      (hfail : p.addLeaf n start type len skipped = (q, .error e)) :
      len = .error e ∨ e = .nomem ∧ n ≤ toks.length := by
    cases len with
    | error e' => cases hfail; exact .inl rfl
    | ok k =>
        by_cases hroom : toks.length < n
        · obtain ⟨r, hr, -⟩ := h.addLeaf hroom start type k skipped
          rw [hr] at hfail
          cases hfail
        · simp only [JsmnParser.addLeaf, allocToken, h.toknext,
            if_pos (Nat.le_of_not_lt hroom)] at hfail
          cases hfail
          exact .inr ⟨rfl, Nat.le_of_not_lt hroom⟩
  -- character by character, as in the step
  unfold JsmnParser.step at hstep
  split at hstep
  next => exact .inl (hopen hstep)
  split at hstep
  next => exact .inl (hopen hstep)
  split at hstep
  next hc => exact .inr (.inr ⟨hclose hstep, fun hquote => by rw [hc] at hquote; cases hquote.1⟩)
  split at hstep
  next hc => exact .inr (.inr ⟨hclose hstep, fun hquote => by rw [hc] at hquote; cases hquote.1⟩)
  split at hstep
  next hc =>
      rcases hleaf hstep with hscan | hnomem
      · rcases error_of_scanString hscan with rfl | rfl
        · exact .inr (.inl ⟨rfl, hc, hscan⟩)
        · refine .inr (.inr ⟨rfl, ?_⟩)
          rintro ⟨-, hpart⟩
          rw [hpart] at hscan
          cases hscan
      · exact .inl hnomem
  split at hstep
  next => cases hstep
  split at hstep
  next => cases hstep
  split at hstep
  next => cases hstep
  next hquote _ _ _ =>
      rcases hleaf hstep with hscan | hnomem
      · exact .inr (.inr ⟨error_of_scanPrimitive hscan, fun hpart => hquote hpart.1⟩)
      · exact .inl hnomem

/-- Two parsers with room for a token that have found the same do the same. -/
theorem Outlines.step_room {p' : JsmnParser} {m : Nat} (h : p.Outlines n toks)
    (h' : p'.Outlines m toks) (hn : toks.length < n) (hm : toks.length < m) (pos : Nat) (c : UInt8)
    (js : List UInt8) :
    (∃ q q' skip toks', p.step n pos c js = (q, .ok skip) ∧ p'.step m pos c js = (q', .ok skip) ∧
        q.Outlines n toks' ∧ q'.Outlines m toks' ∧ toks'.length ≤ toks.length + 1) ∨
      ∃ q q' e, p.step n pos c js = (q, .error e) ∧ p'.step m pos c js = (q', .error e) := by
  cases hstep : p.step n pos c js with
  | mk q r =>
      cases r with
      | ok skip =>
          obtain ⟨toks', hq, hturn⟩ := h.exists_turn hstep
          obtain ⟨q', hstep', hq'⟩ := h'.exists_step (hturn.room hm)
          exact .inl ⟨q, q', skip, toks', rfl, hstep', hq, hq', hturn.length_le⟩
      | error e =>
          cases hstep' : p'.step m pos c js with
          | mk q' r' =>
              cases r' with
              | ok skip =>
                  obtain ⟨toks', -, hturn⟩ := h'.exists_turn hstep'
                  obtain ⟨r, hr, -⟩ := h.exists_step (hturn.room hn)
                  rw [hstep] at hr
                  cases hr
              | error e' =>
                  have hsame : e = e' := by
                    rcases h.of_step_error hstep with ⟨-, hfull⟩ | ⟨rfl, hpart⟩ | ⟨rfl, hpart⟩ <;>
                      rcases h'.of_step_error hstep' with
                        ⟨-, hfull'⟩ | ⟨rfl, hpart'⟩ | ⟨rfl, hpart'⟩ <;>
                      first | rfl | omega | exact absurd hpart hpart' | exact absurd hpart' hpart
                  exact .inr ⟨q, q', e, rfl, hsame ▸ rfl⟩

/-- So do their runs over no more characters than there is room for. -/
theorem Outlines.run_room {p' : JsmnParser} {m : Nat} (h : p.Outlines n toks)
    (h' : p'.Outlines m toks) (hn : toks.length + js.length ≤ n)
    (hm : toks.length + js.length ≤ m) (skip pos : Nat) :
    (∃ q q' toks', run n js skip pos p = (q, none) ∧ run m js skip pos p' = (q', none) ∧
        q.Outlines n toks' ∧ q'.Outlines m toks') ∨
      ∃ q q' e, run n js skip pos p = (q, some e) ∧ run m js skip pos p' = (q', some e) := by
  induction js generalizing p p' toks skip pos with
  | nil => exact .inl ⟨p, p', toks, by rw [run], by rw [run], h, h'⟩
  | cons c js ih =>
      rw [List.length_cons] at hn hm
      cases skip with
      | succ skip => exact ih h h' (by omega) (by omega) skip (pos + 1)
      | zero =>
          rcases h.step_room h' (by omega) (by omega) pos c js with
            ⟨q, q', skip, toks', hstep, hstep', hq, hq', hlength⟩ | ⟨q, q', e, hstep, hstep'⟩
          · rw [run, run, hstep, hstep']
            exact ih hq hq' (by omega) (by omega) _ _
          · exact .inr ⟨q, q', e, by rw [run, hstep], by rw [run, hstep']⟩

end Failures

section Extensions

variable {p q : JsmnParser} {n pos skip : Nat} {c : UInt8} {js : List UInt8}

/-- A step does not look behind the text, unless a token lasts until its end. -/
theorem step_append {r : Except JsmnError Nat} (h : p.step n pos c js = (q, r))
    (hr : r = .error .inval ∨ ∃ k < js.length, r = .ok k) (t : List UInt8) :
    p.step n pos c (js ++ t) = (q, r) := by
  unfold JsmnParser.step at h ⊢
  by_cases hobject : c = 123
  · rw [if_pos hobject] at h ⊢
    exact h
  by_cases harray : c = 91
  · rw [if_neg hobject, if_pos harray] at h ⊢
    exact h
  by_cases hobject' : c = 125
  · rw [if_neg hobject, if_neg harray, if_pos hobject'] at h ⊢
    exact h
  by_cases harray' : c = 93
  · rw [if_neg hobject, if_neg harray, if_neg hobject', if_pos harray'] at h ⊢
    exact h
  rw [if_neg hobject, if_neg harray, if_neg hobject', if_neg harray'] at h ⊢
  by_cases hquote : c = 34
  · rw [if_pos hquote] at h ⊢
    rw [scanString_append_of_ne rfl _ t]
    · exact h
    · intro hpart
      rw [hpart] at h
      cases h
      rcases hr with hr | ⟨k, -, hr⟩
      · cases hr
      · cases hr
  · rw [if_neg hquote] at h ⊢
    split at h
    next hblank =>
        rw [if_pos hblank]
        exact h
    next hblank =>
        rw [if_neg hblank]
        split at h
        next hcolon =>
            rw [if_pos hcolon]
            exact h
        next hcolon =>
            rw [if_neg hcolon]
            split at h
            next hcomma =>
                rw [if_pos hcomma]
                exact h
            next hcomma =>
                rw [if_neg hcomma, ← List.cons_append, scanPrimitive_append_of_ne rfl _ t]
                · exact h
                · -- a primitive that ends with the text could go on in `t`
                  intro hlast
                  rw [hlast] at h
                  rcases hr with rfl | ⟨k, hk, rfl⟩
                  · simp only [addLeaf, allocToken] at h
                    split at h
                    next hfull =>
                        split at hfull
                        next => cases hfull; cases h
                        next => cases hfull
                    next => cases h
                  · simp only [addLeaf, allocToken] at h
                    split at h
                    next => cases h
                    next =>
                        cases h
                        simp at hk

theorem run_of_length_le (h : js.length ≤ skip) : run n js skip pos p = (p, none) := by
  induction js generalizing skip pos with
  | nil => rw [run]
  | cons c js ih =>
      cases skip with
      | zero => cases h
      | succ skip => exact ih (Nat.le_of_succ_le_succ h)

/-- An invalid text stays invalid whatever is behind it. -/
theorem run_append (h : run n js skip pos p = (q, some .inval)) (t : List UInt8) :
    run n (js ++ t) skip pos p = (q, some .inval) := by
  induction js generalizing skip pos p with
  | nil =>
      rw [run] at h
      cases h
  | cons c js ih =>
      rw [List.cons_append]
      cases skip with
      | succ skip => exact ih h
      | zero =>
          rw [run] at h ⊢
          cases hstep : p.step n pos c js with
          | mk r res =>
              rw [hstep] at h
              cases res with
              | error e =>
                  cases h
                  rw [step_append hstep (.inl rfl) t]
              | ok k =>
                  by_cases hk : k < js.length
                  · rw [step_append hstep (.inr ⟨k, hk, rfl⟩) t]
                    exact ih h
                  · simp only [run_of_length_le (Nat.le_of_not_lt hk)] at h
                    cases h

end Extensions

end JsmnParser

/-! ## Texts that can be completed -/

theorem Opened.behind {rest rest' s : List UInt8} {toks : List JsmnTok} (h : Opened rest s toks)
    (hends : EndsPrimitive rest → EndsPrimitive rest') : Opened rest' s toks := by
  induction h generalizing rest' with
  | top hs => exact .top (hs.behind hends)
  | inside hbrackets _ hs ih => exact .inside hbrackets (ih id) (hs.behind hends)

theorem Brackets.endsPrimitive {type : JsmnType} {opening closing : UInt8} {s : List UInt8}
    (h : Brackets type opening closing) : EndsPrimitive (closing :: s) := by
  intro c hc
  cases hc
  cases h <;> rfl

/-- A text that is open can go on with `u`, and then have its brackets closed. -/
theorem Opened.exists_yields {rest s u : List UInt8} {toks added : List JsmnTok}
    (h : Opened rest s toks) (hu : ∀ rest', EndsPrimitive rest' → Yields rest' s.length u added)
    (hends : EndsPrimitive rest → EndsPrimitive u) :
    ∃ t found, Yields [] 0 (s ++ (u ++ t)) found := by
  induction h generalizing u added with
  | @top rest s toks hs =>
      have hwhole : Yields [] 0 (s ++ u) (toks ++ added) := by
        apply Yields.append
        · rw [List.append_nil]
          exact hs.behind hends
        · rw [Nat.zero_add]
          exact hu [] nofun
      exact ⟨[], _, by rwa [List.append_nil]⟩
  | @inside rest t s outer toks type opening closing hbrackets ht hs ih =>
      have hbody (rest' : List UInt8) :
          Yields (closing :: ([] ++ rest')) (t.length + 1) (s ++ u) (toks ++ added) := by
        apply Yields.append
        · exact hs.behind fun hrest => (hends hrest).append hbrackets.endsPrimitive
        · convert hu _ hbrackets.endsPrimitive using 1
          simp
          omega
      have hpair (rest' : List UInt8) : Yields rest' t.length
          (opening :: ((s ++ u) ++ closing :: []))
          (⟨type, t.length, t.length + ((s ++ u).length + 2), 0⟩ :: ((toks ++ added) ++ [])) :=
        .container hbrackets (hbody rest') .nil
      obtain ⟨v, found, hfound⟩ := ih (fun rest' _ => hpair rest') id
      refine ⟨closing :: v, found, ?_⟩
      simpa using hfound

/-- A text that ends within a string can go on with the end of the string. -/
theorem Opened.exists_yields_string {js s : List UInt8} {toks : List JsmnTok}
    (h : Opened (34 :: js) s toks) (hscan : scanString .plain js = .error .part) :
    ∃ t found, Yields [] 0 (s ++ (34 :: js ++ t)) found := by
  obtain ⟨t, ht⟩ := exists_text_of_scanString hscan
  have hstring (rest : List UInt8) : Yields rest s.length (34 :: ((js ++ t) ++ 34 :: [])) [_] :=
    .string ht .nil
  obtain ⟨v, found, hfound⟩ := h.exists_yields (fun rest _ => hstring rest) id
  refine ⟨t ++ 34 :: v, found, ?_⟩
  simpa using hfound

section Completing

open JsmnParser

variable {p q : JsmnParser} {n : Nat} {js s : List UInt8} {toks : List JsmnTok}

/-- What a run that stops within a string has found. -/
theorem JsmnParser.Outlines.exists_yields (h : p.Outlines n toks) (hs : Opened js s toks)
    (hrun : run n js 0 s.length p = (q, some .part)) :
    ∃ t found, Yields [] 0 (s ++ (js ++ t)) found := by
  induction hlength : js.length using Nat.strong_induction_on generalizing js s toks p with
  | _ k ih =>
      cases js with
      | nil =>
          rw [run] at hrun
          cases hrun
      | cons c js =>
          cases hstep : p.step n s.length c js with
          | mk r res =>
              cases res with
              | error e =>
                  simp only [run, hstep] at hrun
                  cases hrun
                  rcases h.of_step_error hstep with ⟨hne, -⟩ | ⟨-, rfl, hscan⟩ | ⟨hne, -⟩
                  · cases hne
                  · exact hs.exists_yields_string hscan
                  · cases hne
              | ok skip =>
                  obtain ⟨toks', hr, hturn⟩ := h.exists_turn hstep
                  obtain ⟨passed, rest, rfl, rfl, hopened⟩ := hs.turn hturn
                  have hpos : s.length + 1 + passed.length = (s ++ c :: passed).length := by
                    simp
                    omega
                  rw [run_step hstep, run_skip, hpos] at hrun
                  have hlt : rest.length < k := by
                    rw [← hlength, List.length_cons, List.length_append]
                    omega
                  obtain ⟨t, found, hfound⟩ := ih rest.length hlt hr hopened hrun rfl
                  refine ⟨t, found, ?_⟩
                  simpa using hfound

/-- With room for as many tokens as characters it does not matter for how many more. -/
theorem jsmnParse_room {tokens tokens' : List JsmnTok} (h : js.length ≤ tokens.length)
    (h' : js.length ≤ tokens'.length) : (jsmnParse js tokens).1 = (jsmnParse js tokens').1 := by
  rcases (outlines_init tokens).run_room (outlines_init tokens') (by simpa using h)
      (by simpa using h') 0 0 with
    ⟨q, q', toks, hrun, hrun', hq, hq'⟩ | ⟨q, q', e, hrun, hrun'⟩
  · rw [jsmnParse_eq js tokens hrun, jsmnParse_eq js tokens' hrun']
    have hlast : q.lastToken JsmnTok.isOpen q.toknext = none ↔
        q'.lastToken JsmnTok.isOpen q'.toknext = none :=
      hq.lastToken_eq_none_iff.trans hq'.lastToken_eq_none_iff.symm
    have hcount : q.count = q'.count := hq.count.trans hq'.count.symm
    cases hclosed : q.lastToken JsmnTok.isOpen q.toknext with
    | none => simp only [JsmnParser.result, hclosed, hlast.mp hclosed, hcount]
    | some i =>
        cases hclosed' : q'.lastToken JsmnTok.isOpen q'.toknext with
        | none =>
            rw [hlast.mpr hclosed'] at hclosed
            cases hclosed
        | some j => simp only [JsmnParser.result, hclosed, hclosed']
  · rw [jsmnParse_eq js tokens hrun, jsmnParse_eq js tokens' hrun']
    rfl

theorem isTokenizable_iff {tokens : List JsmnTok} (h : js.length ≤ tokens.length) :
    IsTokenizable js ↔ ∃ count, (jsmnParse js tokens).1 = .ok count := by
  constructor
  · rintro ⟨found, hfound⟩
    exact ⟨_, (hfound.jsmnParse (Nat.le_trans hfound.length_le h)).1⟩
  · rintro ⟨count, hcount⟩
    obtain ⟨-, found, hfound, -⟩ := exists_yields_of_jsmnParse hcount
    exact ⟨found, hfound⟩

theorem not_isTokenizable_of_inval {tokens : List JsmnTok} (hroom : js.length ≤ tokens.length)
    (h : (jsmnParse js tokens).1 = .error .inval) (t : List UInt8) :
    ¬ IsTokenizable (js ++ t) := by
  have hspace : (js ++ t).length ≤ (List.replicate (js ++ t).length JsmnTok.blank).length := by
    rw [List.length_replicate]
  generalize htokens : List.replicate (js ++ t).length JsmnTok.blank = tokens' at hspace
  rw [isTokenizable_iff hspace]
  rintro ⟨count, hcount⟩
  have hprefix : js.length ≤ tokens'.length := by
    rw [List.length_append] at hspace
    omega
  rw [jsmnParse_room hroom hprefix] at h
  cases hrun : run tokens'.length js 0 0 ⟨tokens', 0, none, 0⟩ with
  | mk p err =>
      rw [jsmnParse_eq js tokens' hrun] at h
      have herr : err = some .inval := by
        cases err with
        | some e => cases h; rfl
        | none =>
            simp only [JsmnParser.result] at h
            split at h <;> cases h
      subst herr
      rw [jsmnParse_eq (js ++ t) tokens' (run_append hrun t)] at hcount
      cases hcount

theorem exists_isTokenizable_of_part {tokens : List JsmnTok}
    (h : (jsmnParse js tokens).1 = .error .part) : ∃ t, IsTokenizable (js ++ t) := by
  cases hrun : run tokens.length js 0 0 ⟨tokens, 0, none, 0⟩ with
  | mk p err =>
      rw [jsmnParse_eq js tokens hrun] at h
      cases err with
      | some e =>
          cases h
          obtain ⟨t, found, hfound⟩ := (outlines_init tokens).exists_yields (.top .nil) hrun
          exact ⟨t, found, hfound⟩
      | none =>
          obtain ⟨toks, -, hopened⟩ := (outlines_init tokens).exists_opened (.top .nil) hrun
          obtain ⟨t, found, hfound⟩ := hopened.exists_yields (u := []) (fun _ _ => .nil) id
          exact ⟨t, found, hfound⟩

/-- A run that finds no room has found as many tokens as there was room for. -/
theorem JsmnParser.Outlines.lt_of_nomem {skip pos : Nat} (h : p.Outlines n toks)
    (hrun : run n js skip pos p = (q, some .nomem)) : n < toks.length + js.length := by
  induction js generalizing skip pos p toks with
  | nil =>
      rw [run] at hrun
      cases hrun
  | cons c js ih =>
      rw [List.length_cons]
      cases skip with
      | succ skip =>
          have hlt := ih h hrun
          omega
      | zero =>
          cases hstep : p.step n pos c js with
          | mk r res =>
              rw [run, hstep] at hrun
              cases res with
              | error e =>
                  cases hrun
                  rcases h.of_step_error hstep with ⟨-, hfull⟩ | ⟨hne, -⟩ | ⟨hne, -⟩
                  · omega
                  · cases hne
                  · cases hne
              | ok k =>
                  obtain ⟨toks', hr, hturn⟩ := h.exists_turn hstep
                  have hlt := ih hr hrun
                  have hone := hturn.length_le
                  omega

theorem jsmnParse_ne_nomem {tokens : List JsmnTok} (hroom : js.length ≤ tokens.length) :
    (jsmnParse js tokens).1 ≠ .error .nomem := by
  intro h
  cases hrun : run tokens.length js 0 0 ⟨tokens, 0, none, 0⟩ with
  | mk p err =>
      rw [jsmnParse_eq js tokens hrun] at h
      cases err with
      | some e =>
          cases h
          have hlt := (outlines_init tokens).lt_of_nomem hrun
          rw [List.length_nil] at hlt
          omega
      | none =>
          simp only [JsmnParser.result] at h
          split at h <;> cases h

/-- If there is room for as many tokens as characters, a text is reported as incomplete
exactly if it has no tokens but some longer text that begins with it has, and as invalid
exactly if no text that begins with it has tokens. -/
theorem jsmnParse_error_iff (js : Text) {tokens : List JsmnTok}
    (hroom : js.chars.length ≤ tokens.length) :
    (jsmnParse js.chars tokens).1 ≠ .error .nomem ∧
      ((jsmnParse js.chars tokens).1 = .error .part ↔
        ¬ IsTokenizable js.chars ∧ ∃ t, IsTokenizable (js.chars ++ t)) ∧
      ((jsmnParse js.chars tokens).1 = .error .inval ↔ ∀ t, ¬ IsTokenizable (js.chars ++ t)) := by
  -- a text that can be parsed is its own completion
  have hself : IsTokenizable js.chars → ∃ t, IsTokenizable (js.chars ++ t) := fun h =>
    ⟨[], by rwa [List.append_nil]⟩
  have hnomem := jsmnParse_ne_nomem hroom
  have hpart : (jsmnParse js.chars tokens).1 = .error .part →
      ∃ t, IsTokenizable (js.chars ++ t) := exists_isTokenizable_of_part
  have hinval := not_isTokenizable_of_inval hroom
  have haccepted := isTokenizable_iff hroom
  cases hresult : (jsmnParse js.chars tokens).1 with
  | ok count =>
      have htokens : IsTokenizable js.chars := haccepted.mpr ⟨count, hresult⟩
      refine ⟨nofun, ⟨nofun, fun h => absurd htokens h.1⟩, ⟨nofun, fun h => ?_⟩⟩
      obtain ⟨t, ht⟩ := hself htokens
      exact absurd ht (h t)
  | error e =>
      have hnot : ¬ IsTokenizable js.chars := by
        intro htokens
        obtain ⟨count, hcount⟩ := haccepted.mp htokens
        rw [hresult] at hcount
        cases hcount
      cases e with
      | nomem => exact absurd hresult hnomem
      | part =>
          obtain ⟨t, ht⟩ := hpart hresult
          exact ⟨nofun, ⟨fun _ => ⟨hnot, t, ht⟩, fun _ => rfl⟩, ⟨nofun, fun h => absurd ht (h t)⟩⟩
      | inval =>
          refine ⟨nofun, ⟨nofun, ?_⟩, ⟨fun _ => hinval hresult, fun _ => rfl⟩⟩
          rintro ⟨-, t, ht⟩
          exact absurd ht (hinval hresult t)

/-- In an array a string that has not ended. -/
def unclosedText : Text := ⟨ascii "[\"a", by decide⟩

theorem jsmnParse_error_iff_unclosed :
    (jsmnParse unclosedText.chars (List.replicate 3 .blank)).1 = .error .part ∧
      (jsmnParse unclosedText.chars (List.replicate 3 .blank)).1 ≠ .error .nomem ∧
        ((jsmnParse unclosedText.chars (List.replicate 3 .blank)).1 = .error .part ↔
          ¬ IsTokenizable unclosedText.chars ∧ ∃ t, IsTokenizable (unclosedText.chars ++ t)) ∧
        ((jsmnParse unclosedText.chars (List.replicate 3 .blank)).1 = .error .inval ↔
          ∀ t, ¬ IsTokenizable (unclosedText.chars ++ t)) :=
  ⟨by decide, jsmnParse_error_iff unclosedText (by decide)⟩

end Completing

end MqttClient.Shadow
