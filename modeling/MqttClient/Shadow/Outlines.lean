import MqttClient.Shadow.Trees
import MqttClient.Shadow.Documents
import Mathlib.Data.List.GetD

/-! # The tokens of a tree

Apart from the numbers of children, what the tokenizer has found so far is a list to which
it appends and of which it closes the last open token. Over the text of a tree it appends
the tokens of the tree's nodes.
-/

open Text

namespace MqttClient.Shadow

/-- A token without the number of its children. -/
def JsmnTok.outline (tok : JsmnTok) : JsmnTok := { tok with size := 0 }

/-- The token marks the node in the text. -/
def JsonNode.Marks (js : List UInt8) (node : JsonNode) (tok : JsmnTok) : Prop :=
  match node with
  | .string chars => tok.type = .string ∧ tok.stop = tok.start + chars.length ∧
      ∃ rest, js.drop tok.start = chars ++ 34 :: rest
  | .primitive chars => tok.type = .primitive ∧ tok.stop = tok.start + chars.length ∧
      IsPrimitiveText chars ∧ ∃ rest, js.drop tok.start = chars ++ rest ∧ EndsPrimitive rest
  | .array => tok.type = .array ∧ tok.isOpen = false
  | .object => tok.type = .object ∧ tok.isOpen = false

/-- What a token marks does not depend on its number of children. -/
theorem JsonNode.Marks.outline {js : List UInt8} {node : JsonNode} {tok : JsmnTok} :
    node.Marks js tok.outline ↔ node.Marks js tok := by
  cases node <;> exact Iff.rfl

/-- A token that marks a node is closed. -/
theorem JsonNode.Marks.closed {js : List UInt8} {node : JsonNode} {tok : JsmnTok}
    (h : node.Marks js tok) : tok.isOpen = false := by
  cases node with
  | string chars | primitive chars =>
      have hstop := h.2.1
      simp only [JsmnTok.isOpen, decide_eq_false_iff_not]
      omega
  | array | object => exact h.2

namespace JsmnParser

/-- What has been found are these tokens, of `n` that there is room for. -/
structure Outlines (p : JsmnParser) (n : Nat) (toks : List JsmnTok) : Prop where
  length : p.tokens.length = n
  toknext : p.toknext = toks.length
  count : p.count = toks.length
  tokens : ∀ i < toks.length, (p.tokens.getD i .blank).outline = toks.getD i .blank

variable {p : JsmnParser} {n : Nat} {toks : List JsmnTok}

/-! ## Steps -/

/-- The last token with a property is one behind which none has it. -/
theorem lastToken_eq_some {ok : JsmnTok → Bool} {k i : Nat} (hi : i < k)
    (hok : ok (p.tokens.getD i .blank) = true)
    (hafter : ∀ j, i < j → j < k → ok (p.tokens.getD j .blank) = false) :
    p.lastToken ok k = some i := by
  induction k with
  | zero => omega
  | succ k ih =>
      rw [lastToken]
      by_cases hik : i = k
      · rw [if_pos (hik ▸ hok), hik]
      · rw [if_neg (by rw [hafter k (by omega) (by omega)]; exact Bool.false_ne_true)]
        exact ih (by omega) fun j hij hjk => hafter j hij (by omega)

/-- There is none if no token has the property. -/
theorem lastToken_eq_none {ok : JsmnTok → Bool} {k : Nat}
    (h : ∀ i < k, ok (p.tokens.getD i .blank) = false) : p.lastToken ok k = none := by
  induction k with
  | zero => rfl
  | succ k ih =>
      rw [lastToken, if_neg (by rw [h k (Nat.lt_succ_self k)]; exact Bool.false_ne_true)]
      exact ih fun i hi => h i (Nat.lt_succ_of_lt hi)

namespace Outlines

theorem setSuper (h : p.Outlines n toks) (i : Option Nat) :
    Outlines { p with toksuper := i } n toks := ⟨h.length, h.toknext, h.count, h.tokens⟩

theorem countChild (h : p.Outlines n toks) : p.countChild.Outlines n toks := by
  unfold JsmnParser.countChild
  split
  next => exact h
  next i _ =>
      refine ⟨(List.length_modify _ _ _).trans h.length, h.toknext, h.count, ?_⟩
      intro j hj
      rw [JsmnTok.getD_modify, ← h.tokens j hj]
      split <;> rfl

/-- One more token. -/
theorem append (h : p.Outlines n toks) (tok : JsmnTok) (hroom : toks.length < n) :
    Outlines { p with
        tokens := p.tokens.set p.toknext tok
        toknext := p.toknext + 1
        count := p.count + 1 } n (toks ++ [tok.outline]) := by
  have hlength : (toks ++ [tok.outline]).length = toks.length + 1 := by simp
  refine ⟨(List.length_set).trans h.length, ?_, ?_, ?_⟩
  · rw [hlength, h.toknext]
  · rw [hlength, h.count]
  · intro i hi
    rw [hlength] at hi
    rw [JsmnTok.getD_set, h.toknext, h.length]
    by_cases heq : i = toks.length
    · rw [if_pos ⟨heq, hroom⟩, heq, List.getD_append_right _ _ _ _ le_rfl, Nat.sub_self]
      rfl
    · rw [if_neg (fun hc => heq hc.1), List.getD_append _ _ _ _ (by omega), h.tokens i (by omega)]

/-- An opening bracket adds a token that is open. -/
theorem openToken (h : p.Outlines n toks) (hroom : toks.length < n) (pos : Nat) (type : JsmnType) :
    ∃ q, p.openToken n pos type = (q, .ok 0) ∧
      q.Outlines n (toks ++ [⟨type, pos, -1, 0⟩]) := by
  have hfree : ¬ p.toknext ≥ n := by
    rw [h.toknext]
    omega
  unfold JsmnParser.openToken allocToken
  simp only [if_neg hfree]
  exact ⟨_, rfl, ((h.append ⟨type, pos, -1, 0⟩ hroom).countChild).setSuper _⟩

/-- A string or a primitive adds a token of its length. -/
theorem addLeaf (h : p.Outlines n toks) (hroom : toks.length < n) (start : Nat) (type : JsmnType)
    (k : Nat) (skipped : Nat → Nat) :
    ∃ q, p.addLeaf n start type (.ok k) skipped = (q, .ok (skipped k)) ∧
      q.Outlines n (toks ++ [⟨type, start, start + k, 0⟩]) := by
  have hfree : ¬ p.toknext ≥ n := by
    rw [h.toknext]
    omega
  unfold JsmnParser.addLeaf allocToken
  simp only [if_neg hfree]
  exact ⟨_, rfl, (h.append ⟨type, start, start + k, 0⟩ hroom).countChild⟩

/-- A comma leaves the outline alone. -/
theorem nextMember (h : p.Outlines n toks) : p.nextMember.Outlines n toks := by
  unfold JsmnParser.nextMember
  split
  next => exact h
  next =>
      split
      next => exact h
      next =>
          split
          next => exact h
          next => exact h.setSuper _

/-- The last token that is open is closed. -/
theorem closeToken {front closed : List JsmnTok} {type : JsmnType} {start : Nat}
    (h : p.Outlines n (front ++ ⟨type, start, -1, 0⟩ :: closed))
    (hclosed : ∀ tok ∈ closed, tok.isOpen = false) (pos : Nat) :
    ∃ q, p.closeToken pos type = (q, .ok 0) ∧
      q.Outlines n (front ++ ⟨type, start, pos + 1, 0⟩ :: closed) := by
  have hlength : (front ++ (⟨type, start, -1, 0⟩ : JsmnTok) :: closed).length =
      front.length + (closed.length + 1) := by simp
  have hat : (p.tokens.getD front.length .blank).outline = ⟨type, start, -1, 0⟩ := by
    rw [h.tokens _ (by omega), List.getD_append_right _ _ _ _ le_rfl, Nat.sub_self]
    rfl
  -- the last token that is still open is the one between `front` and `closed`
  have hlast : p.lastToken JsmnTok.isOpen p.toknext = some front.length := by
    rw [h.toknext, hlength]
    apply lastToken_eq_some (by omega)
    · change (p.tokens.getD front.length .blank).outline.isOpen = true
      rw [hat]
      rfl
    · intro j hj hlt
      change (p.tokens.getD j .blank).outline.isOpen = false
      obtain ⟨i, rfl⟩ := Nat.exists_eq_add_of_lt hj
      rw [h.tokens _ (by omega), List.getD_append_right _ _ _ _ (by omega),
        show front.length + i + 1 - front.length = i + 1 by omega, List.getD_cons_succ]
      have hi : i < closed.length := by omega
      rw [List.getD_eq_getElem _ _ hi]
      exact hclosed _ (List.getElem_mem hi)
  have htype : (p.tokens.getD front.length .blank).type = type := congrArg JsmnTok.type hat
  unfold JsmnParser.closeToken
  simp only [hlast, htype, ne_eq, not_true_eq_false, if_false]
  have hmodified : Outlines
      { p with tokens := p.tokens.modify front.length fun tok => { tok with stop := pos + 1 } } n
      (front ++ ⟨type, start, pos + 1, 0⟩ :: closed) := by
    refine ⟨(List.length_modify _ _ _).trans h.length, ?_, ?_, ?_⟩
    · rw [h.toknext, hlength]
      simp
    · rw [h.count, hlength]
      simp
    intro i hi
    have hroom : front.length < p.tokens.length := by
      by_contra hge
      rw [List.getD_eq_default _ _ (by omega)] at hat
      have hstop := congrArg JsmnTok.stop hat
      simp [JsmnTok.outline, JsmnTok.blank] at hstop
    rw [JsmnTok.getD_modify]
    by_cases heq : i = front.length
    · rw [if_pos ⟨heq, hroom⟩, heq, List.getD_append_right _ _ _ _ le_rfl, Nat.sub_self]
      have hstart : (p.tokens.getD front.length .blank).start = start := congrArg JsmnTok.start hat
      rw [JsmnTok.outline, htype, hstart]
      rfl
    · rw [if_neg (fun hc => heq hc.1), h.tokens i (by simpa using hi)]
      rcases Nat.lt_or_gt_of_ne heq with hlt | hgt
      · rw [List.getD_append _ _ _ _ hlt, List.getD_append _ _ _ _ hlt]
      · obtain ⟨j, rfl⟩ := Nat.exists_eq_add_of_lt hgt
        rw [List.getD_append_right _ _ _ _ (by omega), List.getD_append_right _ _ _ _ (by omega),
          show front.length + j + 1 - front.length = j + 1 by omega, List.getD_cons_succ,
          List.getD_cons_succ]
  exact ⟨_, rfl, hmodified.setSuper _⟩

end Outlines

/-! ## Runs -/

/-- Characters that are done with already. -/
theorem run_skip (n : Nat) (s rest : List UInt8) (pos : Nat) (p : JsmnParser) :
    run n (s ++ rest) s.length pos p = run n rest 0 (pos + s.length) p := by
  induction s generalizing pos with
  | nil => rfl
  | cons c s ih =>
      rw [List.cons_append, List.length_cons, run, ih]
      congr 1
      omega

/-- A run begins with the step for its first character. -/
theorem run_step {n pos skip : Nat} {c : UInt8} {js : List UInt8} {p q : JsmnParser}
    (h : p.step n pos c js = (q, .ok skip)) :
      run n (c :: js) 0 pos p = run n js skip (pos + 1) q := by
  rw [run, h]

/-- Over the text `s`, which has `before` in front of it and `rest` behind it, the tokenizer
finds these nodes, if it has found `k` tokens before. -/
def Reads (n : Nat) (before s rest : List UInt8) (k : Nat) (nodes : List JsonNode) : Prop :=
  ∀ p toks, Outlines p n toks → toks.length = k → ∃ q found,
    run n (s ++ rest) 0 before.length p = run n rest 0 (before ++ s).length q ∧
      q.Outlines n (toks ++ found) ∧
      List.Forall₂ (JsonNode.Marks (before ++ (s ++ rest))) nodes found

section Reads

variable {before s t rest : List UInt8} {k : Nat} {nodes nodes' : List JsonNode}

/-- A text that follows another is read behind it. -/
theorem Reads.append (hs : Reads n before s (t ++ rest) k nodes)
    (ht : Reads n (before ++ s) t rest (k + nodes.length) nodes') :
    Reads n before (s ++ t) rest k (nodes ++ nodes') := by
  intro p toks hp hk
  obtain ⟨q, found, hrun, hq, hmarks⟩ := hs p toks hp hk
  have hlength : (toks ++ found).length = k + nodes.length := by
    rw [List.length_append, hk, hmarks.length_eq]
  obtain ⟨r, found', hrun', hr, hmarks'⟩ := ht q _ hq hlength
  refine ⟨r, found ++ found', ?_, ?_, ?_⟩
  · rw [List.append_assoc, hrun, hrun', List.append_assoc]
  · rw [← List.append_assoc]
    exact hr
  · rw [List.append_assoc] at hmarks'
    rw [List.append_assoc s]
    exact List.rel_append hmarks hmarks'

theorem reads_nil : Reads n before [] rest k [] := by
  intro p toks hp _
  refine ⟨p, [], ?_, ?_, .nil⟩
  · rw [List.nil_append, List.append_nil]
  · rw [List.append_nil]
    exact hp

/-- A character that is no node. -/
theorem reads_char {c : UInt8} (h : ∀ p toks, Outlines p n toks →
      ∃ q, p.step n before.length c rest = (q, .ok 0) ∧ q.Outlines n toks) :
    Reads n before [c] rest k [] := by
  intro p toks hp _
  obtain ⟨q, hstep, hq⟩ := h p toks hp
  refine ⟨q, [], ?_, ?_, .nil⟩
  · rw [List.singleton_append, run_step hstep, List.length_append, List.length_singleton]
  · rw [List.append_nil]
    exact hq

/-- Blanks have no tokens. -/
theorem reads_blanks (h : IsBlanks s) : Reads n before s rest k [] := by
  induction s generalizing before with
  | nil => exact reads_nil
  | cons b s ih =>
      have hb := h b List.mem_cons_self
      simp only [isBlank, Bool.or_eq_true, decide_eq_true_eq] at hb
      have hfirst : Reads n before [b] (s ++ rest) k [] := by
        apply reads_char
        intro p toks hp
        rcases hb with ((rfl | rfl) | rfl) | rfl <;> exact ⟨p, rfl, hp⟩
      exact hfirst.append (ih fun c hc => h c (List.mem_cons_of_mem b hc))

/-- Nor has a colon. -/
theorem reads_colon : Reads n before [58] rest k [] :=
  reads_char fun _ _ hp => ⟨_, rfl, hp.setSuper _⟩

/-- Nor has a comma. -/
theorem reads_comma : Reads n before [44] rest k [] :=
  reads_char fun _ _ hp => ⟨_, rfl, hp.nextMember⟩

/-- A string is read as one token. -/
theorem reads_string {chars : List UInt8} (h : IsStringText chars) (hroom : k < n) :
    Reads n before (quoted chars) rest k [.string chars] := by
  intro p toks hp hk
  obtain ⟨q, hleaf, hq⟩ :=
    hp.addLeaf (hk ▸ hroom) (before.length + 1) .string chars.length (· + 1)
  have hstep : p.step n before.length 34 (chars ++ 34 :: rest) = (q, .ok (chars.length + 1)) := by
    rw [← hleaf, ← h.scanned rest]
    rfl
  have htext : quoted chars ++ rest = 34 :: (chars ++ 34 :: rest) := by simp [quoted]
  have hskip := run_skip n (chars ++ [34]) rest (before.length + 1) q
  rw [List.length_append, List.length_singleton, List.append_assoc, List.singleton_append] at hskip
  refine ⟨q, _, ?_, hq, .cons ⟨rfl, rfl, rest, ?_⟩ .nil⟩
  · rw [htext, run_step hstep, hskip]
    congr 1
    simp [quoted]
    omega
  · rw [htext, List.drop_append]
    simp

/-- So is a primitive in front of a character that ends it. -/
theorem reads_primitive {chars : List UInt8} (h : IsPrimitiveText chars)
    (hrest : EndsPrimitive rest)
    (hroom : k < n) : Reads n before chars rest k [.primitive chars] := by
  intro p toks hp hk
  obtain ⟨q, hleaf, hq⟩ :=
    hp.addLeaf (hk ▸ hroom) before.length .primitive chars.length (· - 1)
  obtain ⟨c, cs, rfl⟩ := List.exists_cons_of_ne_nil h.nonempty
  have hend : isPrimitiveEnd c = false := by
    rcases scanPrimitive_cons h.scanned with ⟨-, hzero⟩ | ⟨hend, -⟩
    · cases hzero
    · exact hend
  obtain ⟨hobject, harray, hquote⟩ := h.head c rfl
  have hne {d : UInt8} (hd : isPrimitiveEnd d = true) : c ≠ d := by
    intro heq
    rw [heq, hd] at hend
    cases hend
  have hblank : ¬ (c = 9 ∨ c = 13 ∨ c = 10 ∨ c = 32) := by
    rintro (heq | heq | heq | heq)
    · exact hne rfl heq
    · exact hne rfl heq
    · exact hne rfl heq
    · exact hne rfl heq
  have hstep : p.step n before.length c (cs ++ rest) = (q, .ok cs.length) := by
    have hscan := scanPrimitive_append h.scanned hrest
    rw [List.cons_append] at hscan
    unfold JsmnParser.step
    rw [if_neg hobject, if_neg harray, if_neg (hne rfl), if_neg (hne rfl), if_neg hquote,
      if_neg hblank, if_neg (hne rfl), if_neg (hne rfl), hscan, hleaf]
    rfl
  refine ⟨q, _, ?_, hq, .cons ⟨rfl, rfl, h, rest, ?_, hrest⟩ .nil⟩
  · rw [List.cons_append, run_step hstep, run_skip]
    congr 1
    simp
    omega
  · exact List.drop_left

/-- An object or an array around what is in it. -/
theorem reads_container {node : JsonNode} {opening close : UInt8}
    (hnode : node = .object ∧ opening = 123 ∧ close = 125 ∨
      node = .array ∧ opening = 91 ∧ close = 93) (hroom : k < n)
    (hbody : Reads n (before ++ [opening]) s (close :: rest) (k + 1) nodes) :
    Reads n before (opening :: (s ++ [close])) rest k (node :: nodes) := by
  intro p toks hp hk
  have hopened (type : JsmnType) := hp.openToken (hk ▸ hroom) before.length type
  have hlength (type : JsmnType) :
      (toks ++ [(⟨type, before.length, -1, 0⟩ : JsmnTok)]).length = k + 1 := by
    rw [List.length_append, hk, List.length_singleton]
  have htext : opening :: (s ++ [close]) ++ rest = opening :: (s ++ close :: rest) := by simp
  have hwhole : before ++ [opening] ++ (s ++ close :: rest) =
      before ++ (opening :: (s ++ [close]) ++ rest) := by simp
  have hlast : (before ++ [opening]).length = before.length + 1 := by simp
  have hend : (before ++ [opening] ++ s).length + 1 =
      (before ++ opening :: (s ++ [close])).length := by
    simp
    omega
  -- which of the two it is matters only for the type
  obtain ⟨type, hopen, hclose, hmark⟩ : ∃ type,
      (∀ p pos js, step p n pos opening js = p.openToken n pos type) ∧
        (∀ p pos js, step p n pos close js = p.closeToken pos type) ∧
          ∀ js tok, tok.type = type → tok.isOpen = false → JsonNode.Marks js node tok := by
    rcases hnode with ⟨rfl, rfl, rfl⟩ | ⟨rfl, rfl, rfl⟩
    · exact ⟨.object, fun _ _ _ => rfl, fun _ _ _ => rfl, fun _ _ h h' => ⟨h, h'⟩⟩
    · exact ⟨.array, fun _ _ _ => rfl, fun _ _ _ => rfl, fun _ _ h h' => ⟨h, h'⟩⟩
  obtain ⟨q, hq, hqout⟩ := hopened type
  obtain ⟨r, found, hrun, hr, hmarks⟩ := hbody q _ hqout (hlength type)
  rw [List.append_assoc] at hr
  have hclosed : ∀ tok ∈ found, tok.isOpen = false := by
    intro tok htok
    obtain ⟨i, hi, rfl⟩ := List.getElem_of_mem htok
    have hget := List.forall₂_iff_get.mp hmarks
    exact (hget.2 i (hget.1 ▸ hi) hi).closed
  obtain ⟨u, hu, huout⟩ := hr.closeToken hclosed (before ++ [opening] ++ s).length
  refine ⟨u, _, ?_, huout, .cons (hmark _ _ rfl ?_) ?_⟩
  · rw [htext, run_step ((hopen _ _ _).trans hq), ← hlast, hrun,
      run_step ((hclose _ _ _).trans hu), hend]
  · simp only [JsmnTok.isOpen, decide_eq_false_iff_not]
    omega
  · rw [← hwhole]
    exact hmarks

end Reads

end JsmnParser

/-! ## Trees -/

theorem EndsPrimitive.append {s t : List UInt8} (hs : EndsPrimitive s) (ht : EndsPrimitive t) :
    EndsPrimitive (s ++ t) := by
  cases s with
  | nil => exact ht
  | cons c s => exact hs

/-- Blanks end a primitive, as does the end of the text. -/
theorem IsBlanks.endsPrimitive {s : List UInt8} (h : IsBlanks s) : EndsPrimitive s := by
  intro b hb
  have hblank := h b (List.mem_of_mem_head? hb)
  simp only [isBlank, Bool.or_eq_true, decide_eq_true_eq] at hblank
  rcases hblank with ((rfl | rfl) | rfl) | rfl <;> rfl

theorem endsPrimitive_comma (s : List UInt8) : EndsPrimitive (44 :: s) := by
  intro c hc
  cases hc
  rfl

/-- What comes behind an element ends it. -/
theorem JsonElements.endsPrimitive {rest : JsonElements} {body : List UInt8}
    (h : rest.Spells body) : EndsPrimitive (rest.comma ++ body) := by
  cases rest with
  | nil =>
      rw [JsonElements.Spells] at h
      exact h.endsPrimitive
  | cons value rest => exact endsPrimitive_comma body

/-- What comes behind a member ends its value. -/
theorem JsonMembers.endsPrimitive {rest : JsonMembers} {body : List UInt8}
    (h : rest.Spells body) : EndsPrimitive (rest.comma ++ body) := by
  cases rest with
  | nil =>
      rw [JsonMembers.Spells] at h
      exact h.endsPrimitive
  | cons key value rest => exact endsPrimitive_comma body

section Trees

open JsmnParser

variable {n : Nat}

theorem JsonElements.reads_comma (rest : JsonElements) {before behind : List UInt8} {k : Nat} :
    Reads n before rest.comma behind k [] := by
  cases rest with
  | nil => exact reads_nil
  | cons value rest => exact JsmnParser.reads_comma

theorem JsonMembers.reads_comma (rest : JsonMembers) {before behind : List UInt8} {k : Nat} :
    Reads n before rest.comma behind k [] := by
  cases rest with
  | nil => exact reads_nil
  | cons key value rest => exact JsmnParser.reads_comma

mutual

/-- A value is read with the tokens of its nodes, in order. -/
theorem JsonValue.reads (v : JsonValue) {before s behind : List UInt8} {k : Nat}
    (h : v.Spells s) (hroom : k + v.nodes.length ≤ n) (hbehind : EndsPrimitive behind) :
    Reads n before s behind k v.nodes := by
  cases v with
  | string chars =>
      rw [JsonValue.Spells] at h
      obtain ⟨htext, rfl⟩ := h
      simp only [JsonValue.nodes, List.length_singleton] at hroom ⊢
      exact reads_string htext (by omega)
  | primitive chars =>
      rw [JsonValue.Spells] at h
      obtain ⟨htext, rfl⟩ := h
      simp only [JsonValue.nodes, List.length_singleton] at hroom ⊢
      exact reads_primitive htext hbehind (by omega)
  | array elements =>
      rw [JsonValue.Spells] at h
      obtain ⟨body, hbody, rfl⟩ := h
      simp only [JsonValue.nodes, List.length_cons] at hroom ⊢
      apply reads_container (.inr ⟨rfl, rfl, rfl⟩) (by omega)
      exact elements.reads hbody (by omega) fun c hc => by cases hc; rfl
  | object members =>
      rw [JsonValue.Spells] at h
      obtain ⟨body, hbody, rfl⟩ := h
      simp only [JsonValue.nodes, List.length_cons] at hroom ⊢
      apply reads_container (.inl ⟨rfl, rfl, rfl⟩) (by omega)
      exact members.reads hbody (by omega) fun c hc => by cases hc; rfl

/-- So are the elements of an array. -/
theorem JsonElements.reads (elements : JsonElements) {before s behind : List UInt8} {k : Nat}
    (h : elements.Spells s) (hroom : k + elements.nodes.length ≤ n)
    (hbehind : EndsPrimitive behind) : Reads n before s behind k elements.nodes := by
  cases elements with
  | nil =>
      rw [JsonElements.Spells] at h
      exact reads_blanks h
  | cons value rest =>
      rw [JsonElements.Spells] at h
      obtain ⟨front, text, after, body, hfront, htext, hafter, hbody, rfl⟩ := h
      simp only [JsonElements.nodes, List.length_append] at hroom ⊢
      have hend : EndsPrimitive (after ++ (rest.comma ++ body) ++ behind) :=
        (hafter.endsPrimitive.append (JsonElements.endsPrimitive hbody)).append hbehind
      have hrest : Reads n (before ++ front ++ text ++ after) (rest.comma ++ body) behind
          (k + value.nodes.length) rest.nodes :=
        rest.reads_comma.append (rest.reads hbody (by simp; omega) hbehind)
      have hvalue : Reads n (before ++ front) (text ++ (after ++ (rest.comma ++ body))) behind k
          (value.nodes ++ rest.nodes) :=
        (value.reads htext (by omega) hend).append ((reads_blanks hafter).append hrest)
      exact (reads_blanks hfront).append hvalue

/-- So are the members of an object. -/
theorem JsonMembers.reads (members : JsonMembers) {before s behind : List UInt8} {k : Nat}
    (h : members.Spells s) (hroom : k + members.nodes.length ≤ n)
    (hbehind : EndsPrimitive behind) : Reads n before s behind k members.nodes := by
  cases members with
  | nil =>
      rw [JsonMembers.Spells] at h
      exact reads_blanks h
  | cons key value rest =>
      rw [JsonMembers.Spells] at h
      obtain ⟨front, colon, middle, text, after, body, hfront, hkey, hcolon, hmiddle, htext, hafter,
        hbody, rfl⟩ := h
      simp only [JsonMembers.nodes, List.length_cons, List.length_append] at hroom ⊢
      have hend : EndsPrimitive (after ++ (rest.comma ++ body) ++ behind) :=
        (hafter.endsPrimitive.append (JsonMembers.endsPrimitive hbody)).append hbehind
      have hrest :
        Reads n (before ++ front ++ quoted key ++ colon ++ [58] ++ middle ++ text ++ after)
          (rest.comma ++ body) behind (k + 1 + value.nodes.length) rest.nodes :=
        rest.reads_comma.append (rest.reads hbody (by simp; omega) hbehind)
      have hvalue : Reads n (before ++ front ++ quoted key ++ colon ++ [58] ++ middle)
          (text ++ (after ++ (rest.comma ++ body))) behind (k + 1) (value.nodes ++ rest.nodes) :=
        (value.reads htext (by omega) hend).append ((reads_blanks hafter).append hrest)
      have hpair : Reads n (before ++ front ++ quoted key)
          (colon ++ ([58] ++ (middle ++ (text ++ (after ++ (rest.comma ++ body)))))) behind (k + 1)
          (value.nodes ++ rest.nodes) :=
        (reads_blanks hcolon).append (reads_colon.append ((reads_blanks hmiddle).append hvalue))
      exact (reads_blanks hfront).append ((reads_string hkey (by simp; omega)).append hpair)

end

/-- So is a document, with the blanks around its object. -/
theorem JsonMembers.IsDocument.reads {members : JsonMembers} {s : List UInt8}
    (h : members.IsDocument s) (hroom : (JsonValue.object members).nodes.length ≤ n) :
    Reads n [] s [] 0 (JsonValue.object members).nodes := by
  obtain ⟨before, text, after, hbefore, htext, hafter, rfl⟩ := h
  have hobject : Reads n ([] ++ before) (text ++ after) [] 0
      ((JsonValue.object members).nodes ++ []) := by
    apply Reads.append
    · apply (JsonValue.object members).reads htext (by omega)
      exact hafter.endsPrimitive.append nofun
    · exact reads_blanks hafter
  rw [List.append_nil] at hobject
  exact (reads_blanks hbefore).append hobject

end Trees

/-- The tokens of a document mark its nodes. -/
def TokensMark (s : List UInt8) (nodes : List JsonNode) (tokens : JsonTokens) : Prop :=
  ∀ i (node : JsonNode), nodes[i]? = some node → node.Marks s (tokenAt tokens i)

/-- A document that there are enough tokens for is tokenized, node by node. -/
theorem jsmnParse_of_isDocument {members : JsonMembers} {s : List UInt8} {tokens : JsonTokens}
    (h : members.IsDocument s) (hroom : (JsonValue.object members).nodes.length ≤ tokens.length) :
    ∃ found, jsmnParse s tokens = (.ok (JsonValue.object members).nodes.length, found) ∧
      TokensMark s (JsonValue.object members).nodes found := by
  have hstart : JsmnParser.Outlines ⟨tokens, 0, none, 0⟩ tokens.length [] :=
    ⟨rfl, rfl, rfl, fun i hi => absurd hi (Nat.not_lt_zero i)⟩
  obtain ⟨q, found, hrun, hq, hmarks⟩ := h.reads hroom _ _ hstart rfl
  rw [List.append_nil, List.nil_append] at hrun hmarks
  rw [List.nil_append] at hq
  have hget := List.forall₂_iff_get.mp hmarks
  have htoken : ∀ i (hi : i < (JsonValue.object members).nodes.length),
      ((JsonValue.object members).nodes.get ⟨i, hi⟩).Marks s (q.tokens.getD i .blank) := by
    intro i hi
    have hi' : i < found.length := hget.1 ▸ hi
    rw [← JsonNode.Marks.outline, hq.tokens i hi', List.getD_eq_getElem _ _ hi']
    exact hget.2 i hi hi'
  have hclosed : q.lastToken JsmnTok.isOpen q.toknext = none := by
    apply JsmnParser.lastToken_eq_none
    intro i hi
    rw [hq.toknext, ← hget.1] at hi
    exact (htoken i hi).closed
  refine ⟨q.tokens, ?_, ?_⟩
  · unfold jsmnParse
    rw [List.length_nil] at hrun
    rw [hrun]
    simp only [JsmnParser.run, hclosed, hq.count, hget.1]
  · intro i node hnode
    obtain ⟨hi, rfl⟩ := List.getElem?_eq_some_iff.mp hnode
    exact htoken i hi

/-- So is the document in a buffer. -/
theorem isJsonValidAndParse_of_isDocument {members : JsonMembers} {s : List UInt8}
    {tokens : JsonTokens} {doc : Document} (h : members.IsDocument s) (hdoc : doc.Holds s)
    (hroom : (JsonValue.object members).nodes.length ≤ tokens.length) :
    ∃ found, isJsonValidAndParse doc tokens =
      (some (JsonValue.object members).nodes.length, found) ∧
      TokensMark s (JsonValue.object members).nodes found := by
  obtain ⟨found, hparse, hmarks⟩ := jsmnParse_of_isDocument h hroom
  refine ⟨found, ?_, hmarks⟩
  have htext : doc.text 0 = s := by rw [hdoc.text_eq (Nat.zero_le _), List.drop_zero]
  have hfirst : (tokenAt found 0).type = .object := (hmarks 0 .object rfl).1
  unfold isJsonValidAndParse
  rw [htext, hparse]
  dsimp only
  rw [if_neg]
  rintro (hnone | htype)
  · rw [JsonValue.nodes, List.length_cons] at hnone
    omega
  · exact htype hfirst

end MqttClient.Shadow
