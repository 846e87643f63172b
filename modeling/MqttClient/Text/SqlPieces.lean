import MqttClient.Text.Quoting
import MqttClient.Text.Sql

/-! # The pieces of a statement

A statement that is put together from keywords, quoted names and quoted texts is split into the
intended tokens if and only if every name and every text in it reads as itself. Of a statement
with a zero in it only what is in front of the zero is read.
-/

namespace Text

/-! ## Names and texts -/

inductive NameUnit : List UInt8 → List UInt8 → Prop
  | plain {b : UInt8} (h : b ≠ 96) : NameUnit [b] [b]
  | doubled : NameUnit [96, 96] [96]

inductive TextUnit : List UInt8 → List UInt8 → Prop
  | plain {b : UInt8} (hquote : b ≠ 39) (hescape : b ≠ 92) : TextUnit [b] [b]
  | doubled : TextUnit [39, 39] [39]
  | escaped (b : UInt8) : TextUnit [92, b] (unescaped b)

def sqlName : Quoting UInt8 where
  delimiter := 96
  isSpecial b := b = 96
  IsUnit := NameUnit
  isSpecial_delimiter := rfl
  countP_eq h := by cases h <;> rfl
  length_le h := by cases h <;> simp
  eq_of_length h hlength := by
    cases h with
    | plain => rfl
    | doubled => cases hlength

def sqlText : Quoting UInt8 where
  delimiter := 39
  isSpecial b := b = 39 || b = 92
  IsUnit := TextUnit
  isSpecial_delimiter := rfl
  countP_eq h := by
    cases h with
    | plain | doubled => rfl
    | escaped b =>
        unfold unescaped
        split_ifs with h₁ h₂ h₃ h₄ h₅ h₆ h₇
        · rw [h₁]; rfl
        · rw [h₂]; rfl
        · rw [h₃]; rfl
        · rw [h₄]; rfl
        · rw [h₅]; rfl
        · rw [h₆]; rfl
        · rfl
        · rfl
  length_le h := by
    cases h with
    | plain | doubled => simp
    | escaped b =>
        unfold unescaped
        split_ifs <;> simp
  eq_of_length h hlength := by
    cases h with
    | plain => rfl
    | doubled => cases hlength
    | escaped b =>
        unfold unescaped at hlength ⊢
        split_ifs at hlength ⊢ <;> first | rfl | cases hlength

/-- No quote, and no backslash but in front of `%` and `_`. -/
def isPlainText : List UInt8 → Bool
  | [] => true
  | [b] => b ≠ 39 && b ≠ 92
  | b :: c :: s =>
      if b = 92 then (c = 37 || c = 95) && isPlainText s else b ≠ 39 && isPlainText (c :: s)

/-- A byte that is neither a quote nor a backslash stands for itself. -/
theorem isPlainText_cons {b : UInt8} {s : List UInt8} (hquote : b ≠ 39) (hescape : b ≠ 92) :
    isPlainText (b :: s) = isPlainText s := by
  cases s with
  | nil => simp [isPlainText, hquote, hescape]
  | cons c s => simp [isPlainText, hquote, hescape]

/-- A spelling of the text's own length has nothing to escape. -/
theorem isPlainText_of_spells {r m : List UInt8} (h : sqlText.Spells r m)
    (hlength : m.length = r.length) : isPlainText r = true := by
  induction h with
  | nil => rfl
  | cons h hrest ih =>
      have hunit := sqlText.length_le h
      have hle := hrest.length_le
      simp only [List.length_append] at hlength
      have hplain := ih (by omega)
      have hsame := sqlText.eq_of_length h (by omega)
      cases h with
      | plain hquote hescape => exact (isPlainText_cons hquote hescape).trans hplain
      | doubled => cases hsame
      | escaped b =>
          have hb : b = 37 ∨ b = 95 := by
            unfold unescaped at hsame
            split_ifs at hsame <;> simp_all
          simpa [isPlainText, hplain] using hb

/-- A plain text spells itself. -/
theorem spells_of_isPlainText : ∀ {s : List UInt8}, isPlainText s = true → sqlText.Spells s s
  | [], _ => .nil
  | [b], h => by
      simp only [isPlainText, ne_eq, Bool.and_eq_true, decide_not, Bool.not_eq_true',
        decide_eq_false_iff_not] at h
      have hunit : sqlText.IsUnit [b] [b] := TextUnit.plain h.1 h.2
      exact .cons hunit .nil
  | b :: c :: s, h => by
      rw [isPlainText] at h
      split at h
      next hescape =>
        obtain ⟨hc, hs⟩ := Bool.and_eq_true_iff.mp h
        have hself : unescaped c = [92, c] := by
          simp only [Bool.or_eq_true, decide_eq_true_eq] at hc
          rcases hc with rfl | rfl <;> rfl
        have hunit : sqlText.IsUnit [92, c] [92, c] := hself ▸ TextUnit.escaped c
        rw [hescape]
        exact .cons hunit (spells_of_isPlainText hs)
      next hescape =>
        obtain ⟨hquote, hs⟩ := Bool.and_eq_true_iff.mp h
        exact .cons (TextUnit.plain (of_decide_eq_true hquote) hescape) (spells_of_isPlainText hs)

/-- The texts that read as themselves. -/
theorem spells_self_text {s : List UInt8} : sqlText.Spells s s ↔ isPlainText s = true :=
  ⟨fun h => isPlainText_of_spells h rfl, spells_of_isPlainText⟩

/-- A spelling of the name's own length has no backtick. -/
theorem not_mem_of_spells {r m : List UInt8} (h : sqlName.Spells r m)
    (hlength : m.length = r.length) : 96 ∉ r := by
  induction h with
  | nil => exact List.not_mem_nil
  | cons h hrest ih =>
      have hunit := sqlName.length_le h
      have hle := hrest.length_le
      simp only [List.length_append] at hlength
      cases h with
      | plain hb => simpa [hb.symm] using ih (by simp_all)
      | doubled =>
          simp only [List.length_cons, List.length_nil] at hlength
          omega

/-- A text without quotes and backslashes is plain. -/
theorem isPlainText_of_forall {s : List UInt8} (h : ∀ b ∈ s, b ≠ 39 ∧ b ≠ 92) :
    isPlainText s = true := by
  induction s with
  | nil => rfl
  | cons b s ih =>
      obtain ⟨hquote, hescape⟩ := h b List.mem_cons_self
      rw [isPlainText_cons hquote hescape]
      exact ih fun c hc => h c (List.mem_cons_of_mem b hc)

/-- The names that read as themselves. -/
theorem spells_self_name {s : List UInt8} : sqlName.Spells s s ↔ 96 ∉ s := by
  refine ⟨fun h => not_mem_of_spells h rfl, fun h => ?_⟩
  induction s with
  | nil => exact .nil
  | cons b s ih =>
      obtain ⟨hb, hs⟩ := not_or.mp (List.mem_cons.not.mp h)
      exact .cons (NameUnit.plain (Ne.symm hb)) (ih hs)

/-! ## Tokens from a state on -/

/-- The lexer runs over one part of a statement after the other. -/
theorem LexState.run_append (state : LexState) (s t : List UInt8) :
    state.run (s ++ t) =
      ((state.run s).1 ++ ((state.run s).2.run t).1, ((state.run s).2.run t).2) := by
  induction s generalizing state with
  | nil => rfl
  | cons b s ih => rw [List.cons_append, run, run, ih, List.append_assoc]

/-- The tokens of what is left of a statement. -/
def sqlTokensFrom (state : LexState) (s : List UInt8) : Option (List SqlToken) :=
  (state.run s).2.last.map ((state.run s).1 ++ ·)

theorem sqlTokensFrom_start (s : List UInt8) : sqlTokensFrom .start s = sqlTokens s := rfl

theorem sqlTokensFrom_nil (state : LexState) : sqlTokensFrom state [] = state.last :=
  Option.map_id'

/-- One byte is taken, and the tokens go on from the next state. -/
theorem sqlTokensFrom_cons (state : LexState) (b : UInt8) (s : List UInt8) :
    sqlTokensFrom state (b :: s) =
      (sqlTokensFrom (state.next b).2 s).map ((state.next b).1 ++ ·) := by
  rw [sqlTokensFrom, sqlTokensFrom, LexState.run, Option.map_map]
  congr 1
  funext tokens
  exact List.append_assoc _ _ _

/-- A character before which no token ends. -/
theorem sqlTokensFrom_cons_of_next {state state' : LexState} {b : UInt8} (s : List UInt8)
    (h : state.next b = ([], state')) : sqlTokensFrom state (b :: s) = sqlTokensFrom state' s := by
  rw [sqlTokensFrom_cons, h]
  exact Option.map_id'

/-- Where a token ends, what follows is read as a statement of its own. -/
theorem sqlTokensFrom_of_last {state : LexState} {tokens : List SqlToken} {s : List UInt8}
    (hlast : state.last = some tokens)
    (h : ∀ b ∈ s.head?, state.next b = (tokens ++ (LexState.first b).1, (LexState.first b).2)) :
    sqlTokensFrom state s = (sqlTokens s).map (tokens ++ ·) := by
  cases s with
  | nil =>
      rw [sqlTokensFrom_nil, hlast, ← sqlTokensFrom_start, sqlTokensFrom_nil]
      exact congrArg some (List.append_nil _).symm
  | cons b s =>
      rw [sqlTokensFrom_cons, h b rfl, ← sqlTokensFrom_start, sqlTokensFrom_cons, Option.map_map]
      congr 1
      funext after
      exact List.append_assoc _ _ _

/-- A character that starts no token ends the reading. -/
theorem sqlTokensFrom_failed (s : List UInt8) : sqlTokensFrom .failed s = none := by
  induction s with
  | nil => rfl
  | cons b s ih => rw [sqlTokensFrom_cons_of_next s rfl, ih]

namespace LexState

variable {chars : List UInt8} {b : UInt8}

theorem next_name (hb : b ≠ 96) : (name chars).next b = ([], name (chars ++ [b])) := if_neg hb

theorem next_nameEnd (hb : b ≠ 96) :
    (nameEnd chars).next b = (.name chars :: (first b).1, (first b).2) := if_neg hb

theorem next_text (hquote : b ≠ 39) (hescape : b ≠ 92) :
    (text chars).next b = ([], text (chars ++ [b])) := (if_neg hquote).trans (if_neg hescape)

theorem next_textEnd (hb : b ≠ 39) :
    (textEnd chars).next b = (.text chars :: (first b).1, (first b).2) := if_neg hb

end LexState

/-- A name that is not followed by another backtick ends there. -/
theorem sqlTokensFrom_nameEnd (n : List UInt8) {s : List UInt8} (hs : ∀ b ∈ s.head?, b ≠ 96) :
    sqlTokensFrom (.nameEnd n) s = (sqlTokens s).map (.name n :: ·) :=
  @sqlTokensFrom_of_last (.nameEnd n) [.name n] s rfl fun b hb => LexState.next_nameEnd (hs b hb)

/-- A text that is not followed by another quote ends there. -/
theorem sqlTokensFrom_textEnd (t : List UInt8) {s : List UInt8} (hs : ∀ b ∈ s.head?, b ≠ 39) :
    sqlTokensFrom (.textEnd t) s = (sqlTokens s).map (.text t :: ·) :=
  @sqlTokensFrom_of_last (.textEnd t) [.text t] s rfl fun b hb => LexState.next_textEnd (hs b hb)

/-! ## Reading between delimiters -/

/-- What is read from a state on up to the delimiter is one token. -/
structure ReadsQuoted (q : Quoting UInt8) (state : LexState) (token : List UInt8 → SqlToken) :
    Prop where
  sound : ∀ s v more, sqlTokensFrom state s = some (token v :: more) →
    ∃ r rest, s = r ++ q.delimiter :: rest ∧ q.Spells r v ∧ sqlTokens rest = some more
  complete : ∀ r v rest, q.Spells r v → (∀ b ∈ rest.head?, b ≠ q.delimiter) →
    sqlTokensFrom state (r ++ q.delimiter :: rest) = (sqlTokens rest).map (token v :: ·)

/-- What is read as a name up to its backtick spells the name. -/
theorem spells_of_sqlTokensFrom_name {v : List UInt8} {more : List SqlToken} :
    ∀ {s front : List UInt8}, sqlTokensFrom (.name front) s = some (.name v :: more) →
      ∃ r rest m, s = r ++ 96 :: rest ∧ sqlName.Spells r m ∧ v = front ++ m ∧
        sqlTokens rest = some more
  | [], front, h => by cases h
  | [b], front, h => by
      by_cases hb : b = 96
      · rw [hb, sqlTokensFrom_cons_of_next [] rfl, sqlTokensFrom_nil] at h
        cases h
        exact ⟨[], [], [], hb ▸ rfl, .nil, (List.append_nil _).symm, rfl⟩
      · rw [sqlTokensFrom_cons_of_next [] (LexState.next_name hb)] at h
        cases h
  | b :: c :: s, front, h => by
      by_cases hb : b = 96
      · rw [hb, sqlTokensFrom_cons_of_next _ rfl] at h
        by_cases hc : c = 96
        · rw [hc, sqlTokensFrom_cons_of_next _ rfl] at h
          obtain ⟨r, rest, m, rfl, hr, rfl, hrest⟩ := spells_of_sqlTokensFrom_name h
          refine ⟨96 :: 96 :: r, rest, 96 :: m, by rw [hb, hc]; rfl, ?_, by simp, hrest⟩
          exact .cons NameUnit.doubled hr
        · rw [sqlTokensFrom_nameEnd front (by rintro _ ⟨⟩; exact hc)] at h
          obtain ⟨_, hmore, heq⟩ := Option.map_eq_some_iff.mp h
          cases heq
          exact ⟨[], c :: s, [], hb ▸ rfl, .nil, (List.append_nil _).symm, hmore⟩
      · rw [sqlTokensFrom_cons_of_next _ (LexState.next_name hb)] at h
        obtain ⟨r, rest, m, hs, hr, rfl, hrest⟩ := spells_of_sqlTokensFrom_name h
        refine ⟨b :: r, rest, b :: m, by rw [hs]; rfl, ?_, by simp, hrest⟩
        exact .cons (NameUnit.plain hb) hr

/-- Names are read between backticks. -/
theorem readsQuoted_name : ReadsQuoted sqlName (.name []) .name where
  sound s v more h := by
    obtain ⟨r, rest, m, hs, hr, rfl, hrest⟩ := spells_of_sqlTokensFrom_name h
    exact ⟨r, rest, hs, hr, hrest⟩
  complete r v rest hr hrest := by
    have hall : ∀ front, sqlTokensFrom (.name front) (r ++ 96 :: rest) =
        (sqlTokens rest).map (.name (front ++ v) :: ·) := by
      induction hr with
      | nil =>
          intro front
          rw [List.nil_append, sqlTokensFrom_cons_of_next rest rfl, List.append_nil]
          exact sqlTokensFrom_nameEnd front hrest
      | cons h _ ih =>
          intro front
          cases h with
          | plain hb =>
              rw [List.append_assoc, List.singleton_append,
                sqlTokensFrom_cons_of_next _ (LexState.next_name hb), ih]
              simp
          | doubled =>
              rw [List.append_assoc, List.cons_append, sqlTokensFrom_cons_of_next _ rfl,
                List.singleton_append, sqlTokensFrom_cons_of_next _ rfl, ih]
              simp
    exact hall []

/-- What is read as a text up to its quote spells the text. -/
theorem spells_of_sqlTokensFrom_text {v : List UInt8} {more : List SqlToken} :
    ∀ {s front : List UInt8}, sqlTokensFrom (.text front) s = some (.text v :: more) →
      ∃ r rest m, s = r ++ 39 :: rest ∧ sqlText.Spells r m ∧ v = front ++ m ∧
        sqlTokens rest = some more
  | [], front, h => by cases h
  | [b], front, h => by
      by_cases hb : b = 39
      · rw [hb, sqlTokensFrom_cons_of_next [] rfl, sqlTokensFrom_nil] at h
        cases h
        exact ⟨[], [], [], hb ▸ rfl, .nil, (List.append_nil _).symm, rfl⟩
      · by_cases hb' : b = 92
        · rw [hb', sqlTokensFrom_cons_of_next [] rfl] at h
          cases h
        · rw [sqlTokensFrom_cons_of_next [] (LexState.next_text hb hb')] at h
          cases h
  | b :: c :: s, front, h => by
      by_cases hb : b = 39
      · rw [hb, sqlTokensFrom_cons_of_next _ rfl] at h
        -- a second quote makes it part of the text
        by_cases hc : c = 39
        · rw [hc, sqlTokensFrom_cons_of_next _ rfl] at h
          obtain ⟨r, rest, m, rfl, hr, rfl, hrest⟩ := spells_of_sqlTokensFrom_text h
          refine ⟨39 :: 39 :: r, rest, 39 :: m, by rw [hb, hc]; rfl, ?_, by simp, hrest⟩
          exact .cons TextUnit.doubled hr
        · rw [sqlTokensFrom_textEnd front (by rintro _ ⟨⟩; exact hc)] at h
          obtain ⟨_, hmore, heq⟩ := Option.map_eq_some_iff.mp h
          cases heq
          exact ⟨[], c :: s, [], hb ▸ rfl, .nil, (List.append_nil _).symm, hmore⟩
      · by_cases hb' : b = 92
        · -- a backslash takes the next character along
          rw [hb', sqlTokensFrom_cons_of_next _ rfl, sqlTokensFrom_cons_of_next _ rfl] at h
          obtain ⟨r, rest, m, rfl, hr, rfl, hrest⟩ := spells_of_sqlTokensFrom_text h
          refine ⟨92 :: c :: r, rest, unescaped c ++ m, by rw [hb']; rfl, ?_, by simp, hrest⟩
          exact .cons (TextUnit.escaped c) hr
        · rw [sqlTokensFrom_cons_of_next _ (LexState.next_text hb hb')] at h
          obtain ⟨r, rest, m, hs, hr, rfl, hrest⟩ := spells_of_sqlTokensFrom_text h
          refine ⟨b :: r, rest, b :: m, by rw [hs]; rfl, ?_, by simp, hrest⟩
          exact .cons (TextUnit.plain hb hb') hr

/-- Texts are read between quotes. -/
theorem readsQuoted_text : ReadsQuoted sqlText (.text []) .text where
  sound s v more h := by
    obtain ⟨r, rest, m, hs, hr, rfl, hrest⟩ := spells_of_sqlTokensFrom_text h
    exact ⟨r, rest, hs, hr, hrest⟩
  complete r v rest hr hrest := by
    have hall : ∀ front, sqlTokensFrom (.text front) (r ++ 39 :: rest) =
        (sqlTokens rest).map (.text (front ++ v) :: ·) := by
      induction hr with
      | nil =>
          intro front
          rw [List.nil_append, sqlTokensFrom_cons_of_next rest rfl, List.append_nil]
          exact sqlTokensFrom_textEnd front hrest
      | cons h _ ih =>
          intro front
          cases h with
          | plain hquote hescape =>
              rw [List.append_assoc, List.singleton_append,
                sqlTokensFrom_cons_of_next _ (LexState.next_text hquote hescape), ih]
              simp
          | doubled =>
              rw [List.append_assoc, List.cons_append, sqlTokensFrom_cons_of_next _ rfl,
                List.singleton_append, sqlTokensFrom_cons_of_next _ rfl, ih]
              simp
          | escaped b =>
              rw [List.append_assoc, List.cons_append, sqlTokensFrom_cons_of_next _ rfl,
                List.singleton_append, sqlTokensFrom_cons_of_next _ rfl, ih, List.append_assoc]
    exact hall []

/-! ## What is in front of a zero -/

/-- What a reader of C strings sees of a text. -/
def beforeZero (s : List UInt8) : List UInt8 := s.takeWhile (· ≠ 0)

/-- A text without a zero byte stays in front of what follows. -/
theorem beforeZero_append {s : List UInt8} (h : 0 ∉ s) (t : List UInt8) :
    beforeZero (s ++ t) = s ++ beforeZero t := by
  apply List.takeWhile_append_of_pos
  exact fun b hb => decide_eq_true fun heq => h (heq ▸ hb)

/-- A text with a zero byte is cut off. -/
theorem length_beforeZero_lt {s : List UInt8} (h : 0 ∈ s) (t : List UInt8) :
    (beforeZero (s ++ t)).length < s.length := by
  induction s with
  | nil => cases h
  | cons b s ih =>
      rw [List.cons_append, beforeZero, List.takeWhile_cons]
      split
      next hb =>
        have hs : 0 ∈ s := (List.mem_cons.mp h).resolve_left (of_decide_eq_true hb).symm
        exact Nat.succ_lt_succ (ih hs)
      next => exact Nat.succ_pos _

/-- What is cut off begins as it did. -/
theorem head?_beforeZero {s : List UInt8} {b : UInt8} (h : b ∈ (beforeZero s).head?) :
    b ∈ s.head? := by
  cases s with
  | nil => exact h
  | cons c s =>
      rw [beforeZero, List.takeWhile_cons] at h
      split at h
      next => exact h
      next => cases h

/-- Characters between delimiters are read as themselves if and only if every unit of them stands
for itself and none of them is zero. -/
theorem ReadsQuoted.sqlTokensFrom_iff {q : Quoting UInt8} {state : LexState}
    {token : List UInt8 → SqlToken} (h : ReadsQuoted q state token) (hdelimiter : q.delimiter ≠ 0)
    {v rest : List UInt8} {more : List SqlToken}
    (hrest : ∀ b ∈ rest.head?, q.isSpecial b = false) :
    sqlTokensFrom state (beforeZero (v ++ q.delimiter :: rest)) = some (token v :: more) ↔
      (0 ∉ v ∧ q.Spells v v) ∧ sqlTokens (beforeZero rest) = some more := by
  have hsplit (hzero : 0 ∉ v) :
      beforeZero (v ++ q.delimiter :: rest) = v ++ q.delimiter :: beforeZero rest := by
    rw [beforeZero_append hzero, beforeZero, List.takeWhile_cons_of_pos (by simpa using hdelimiter)]
    rfl
  have hrest' : ∀ b ∈ (beforeZero rest).head?, q.isSpecial b = false := fun b hb =>
    hrest b (head?_beforeZero hb)
  constructor
  · intro hread
    obtain ⟨r, rest', heq, hr, hmore⟩ := h.sound _ _ _ hread
    have hzero : 0 ∉ v := by
      intro hmem
      -- what is left in front of the zero is shorter than what is read of it
      have hlength := length_beforeZero_lt hmem (q.delimiter :: rest)
      have hle := hr.length_le
      rw [heq, List.length_append] at hlength
      omega
    rw [hsplit hzero] at heq
    obtain ⟨rfl, rfl⟩ := hr.eq_of_closed heq.symm hrest'
    exact ⟨⟨hzero, hr⟩, hmore⟩
  · rintro ⟨⟨hzero, hspells⟩, hmore⟩
    rw [hsplit hzero, h.complete v v _ hspells, hmore]
    · rfl
    · rintro b hb rfl
      have hspecial := hrest' _ hb
      rw [q.isSpecial_delimiter] at hspecial
      cases hspecial

/-! ## Pieces -/

/-- A blank or a symbol, at which every token ends. -/
def isSeparator (b : UInt8) : Bool := isSqlBlank b || isSqlSymbol b

/-- The text starts with a separator, if there is any. -/
def IsSeparated (s : List UInt8) : Prop := ∀ b ∈ s.head?, isSeparator b = true

/-- A piece of a statement that is split into these tokens just if it is `plain`. -/
def Writes (plain : Prop) (s : List UInt8) (tokens : List SqlToken) : Prop :=
  ∀ rest more, IsSeparated rest → (sqlTokens (beforeZero (s ++ rest)) = some (tokens ++ more) ↔
    plain ∧ sqlTokens (beforeZero rest) = some more)

section Pieces

variable {plain plain' : Prop} {s s' : List UInt8} {tokens tokens' : List SqlToken}

/-- Pieces that begin with separators make one that does. -/
theorem IsSeparated.append (hs : IsSeparated s) (hs' : IsSeparated s') : IsSeparated (s ++ s') := by
  cases s with
  | nil => exact hs'
  | cons b s => exact hs

theorem isSeparated_cons {b : UInt8} (hb : isSeparator b = true) : IsSeparated (b :: s) := by
  rintro _ ⟨⟩
  exact hb

theorem isSeparated_flatMap {α : Type} {f : α → List UInt8} (h : ∀ a, IsSeparated (f a))
    (as : List α) : IsSeparated (as.flatMap f) := by
  induction as with
  | nil => exact nofun
  | cons a as ih => exact (h a).append ih

/-- A separator begins no name and no text, and belongs to no word. -/
theorem not_special_of_isSeparator {b : UInt8} (hb : isSeparator b = true) :
    isWordChar b = false ∧ b ≠ 96 ∧ b ≠ 39 ∧ b ≠ 92 := by
  simp only [isSeparator, isSqlBlank, isSqlSymbol, Bool.or_eq_true, decide_eq_true_eq] at hb
  rcases hb with ((((rfl | rfl) | rfl) | rfl) | ((((rfl | rfl) | rfl) | rfl) | rfl)) <;> decide

theorem Writes.congr (h : Writes plain s tokens) (heq : plain ↔ plain') :
    Writes plain' s tokens := fun rest more hrest => by rw [h rest more hrest, heq]

theorem writes_nil : Writes True [] [] := fun _ _ _ => (iff_of_eq (true_and _)).symm

/-- Two pieces write their tokens if the second is separated from the first. -/
theorem Writes.append (hs : Writes plain s tokens) (hs' : Writes plain' s' tokens')
    (hseparated : IsSeparated s') : Writes (plain ∧ plain') (s ++ s') (tokens ++ tokens') := by
  intro rest more hrest
  rw [List.append_assoc, List.append_assoc, hs _ _ (hseparated.append hrest), hs' rest more hrest,
    and_assoc]

/-- Where no token has been begun, one starts. -/
theorem sqlTokens_append_of_run (hrun : LexState.start.run s = (tokens, .start)) (t : List UInt8) :
    sqlTokens (s ++ t) = (sqlTokens t).map (tokens ++ ·) := by
  rw [sqlTokens, LexState.run_append, hrun, sqlTokens, Option.map_map]
  dsimp only
  congr 1
  funext after
  exact List.append_assoc _ _ _

/-- Behind keywords, blanks and symbols a token starts. -/
theorem Writes.behind (hs' : Writes plain s' tokens') (s : List UInt8) (tokens : List SqlToken)
    (hzero : 0 ∉ s) (hrun : LexState.start.run s = (tokens, .start)) :
    Writes plain (s ++ s') (tokens ++ tokens') := by
  intro rest more hrest
  rw [List.append_assoc, beforeZero_append hzero, sqlTokens_append_of_run hrun,
    ← hs' rest more hrest, List.append_assoc, Option.map_eq_some_iff]
  simp

/-- A piece that ends with a token which a separator ends. -/
theorem writes_of_last {state : LexState} (hzero : 0 ∉ s)
    (hrun : LexState.start.run s = ([], state)) (hlast : state.last = some tokens)
    (hnext : ∀ b, isSeparator b = true →
      state.next b = (tokens ++ (LexState.first b).1, (LexState.first b).2)) :
    Writes True s tokens := by
  intro rest more hrest
  have hsplit : sqlTokens (s ++ beforeZero rest) =
      (sqlTokens (beforeZero rest)).map (tokens ++ ·) := by
    rw [← sqlTokensFrom_of_last hlast fun b hb => hnext b
      (hrest b (head?_beforeZero hb)), sqlTokens, LexState.run_append, hrun]
    rfl
  rw [beforeZero_append hzero, hsplit, Option.map_eq_some_iff]
  simp

/-- A name between backticks, or a text between quotes. -/
theorem ReadsQuoted.writes {q : Quoting UInt8} {state : LexState} {token : List UInt8 → SqlToken}
    (h : ReadsQuoted q state token) (hdelimiter : q.delimiter ≠ 0)
    (hfirst : LexState.start.next q.delimiter = ([], state))
    (hspecial : ∀ b, isSeparator b = true → q.isSpecial b = false) (v : List UInt8) :
    Writes (0 ∉ v ∧ q.Spells v v) (q.delimiter :: (v ++ [q.delimiter])) [token v] := by
  intro rest more hrest
  have hopen : beforeZero (q.delimiter :: (v ++ [q.delimiter]) ++ rest) =
      q.delimiter :: beforeZero (v ++ q.delimiter :: rest) := by
    rw [List.cons_append, List.append_assoc, List.singleton_append, beforeZero,
      List.takeWhile_cons_of_pos (by simpa using hdelimiter)]
    rfl
  rw [hopen, ← sqlTokensFrom_start, sqlTokensFrom_cons_of_next _ hfirst]
  exact h.sqlTokensFrom_iff hdelimiter fun b hb => hspecial b (hrest b hb)

/-- Names and texts that are read as themselves. -/
def IsPlainName (n : List UInt8) : Prop := 0 ∉ n ∧ 96 ∉ n

def IsPlainValue (t : List UInt8) : Prop := 0 ∉ t ∧ isPlainText t = true

/-- A name between backticks is read as it is if it is plain. -/
theorem writes_name (n : List UInt8) : Writes (IsPlainName n) (96 :: (n ++ [96])) [.name n] := by
  have hwrites := readsQuoted_name.writes (by decide) rfl
    (fun b hb => decide_eq_false (not_special_of_isSeparator hb).2.1) n
  exact hwrites.congr (and_congr_right fun _ => spells_self_name)

/-- A text between quotes is read as it is if it is plain. -/
theorem writes_text (t : List UInt8) : Writes (IsPlainValue t) (39 :: (t ++ [39])) [.text t] := by
  have hwrites := readsQuoted_text.writes (by decide) rfl
    (fun b hb => by simp [sqlText, not_special_of_isSeparator hb]) t
  exact hwrites.congr (and_congr_right fun _ => spells_self_text)

/-- A keyword is read as a word. -/
theorem writes_word {w : List UInt8} (hzero : 0 ∉ w)
    (hrun : LexState.start.run w = ([], .word w)) : Writes True w [.word w] := by
  apply writes_of_last hzero hrun rfl
  intro b hb
  rw [LexState.next, (not_special_of_isSeparator hb).1]
  rfl

theorem LexState.first_of_isDigit {b : UInt8} (hb : isDigit b = true) :
    first b = ([], word [b]) := by
  have hne (c : UInt8) (hc : isDigit c = false) : b ≠ c := by
    rintro rfl
    rw [hc] at hb
    cases hb
  have hblank : isSqlBlank b = false := by
    simp [isSqlBlank, hne 32 rfl, hne 9 rfl, hne 10 rfl, hne 13 rfl]
  have hword : isWordChar b = true := by simp [isWordChar, hb]
  simp [first, hblank, hword, hne 96 rfl, hne 39 rfl]

/-- Digits go on with a word. -/
theorem LexState.run_word {ds : List UInt8} (hds : ∀ b ∈ ds, isDigit b = true)
    (front : List UInt8) :
    (word front).run ds = ([], word (front ++ ds)) := by
  induction ds generalizing front with
  | nil => simp [run]
  | cons b ds ih =>
      have hword : isWordChar b = true := by simp [isWordChar, hds b List.mem_cons_self]
      have hrest := ih (fun c hc => hds c (List.mem_cons_of_mem b hc)) (front ++ [b])
      simp [run, next, hword, hrest]

/-- A number is one token. -/
theorem writes_digits (n : Nat) : Writes True (digits n) [.word (digits n)] := by
  have hdigits := @isDigit_of_mem_digits n
  apply writes_word
  · intro hzero
    cases hdigits 0 hzero
  · cases hds : digits n with
    | nil => exact absurd hds (digits_ne_nil n)
    | cons b ds =>
        rw [hds] at hdigits
        have hfirst := LexState.first_of_isDigit (hdigits b List.mem_cons_self)
        have hrest := LexState.run_word (fun c hc => hdigits c (List.mem_cons_of_mem b hc)) [b]
        simp [LexState.run, LexState.next, hfirst, hrest]

/-- Pieces that each start with a separator. -/
theorem writes_flatMap {α : Type} {plain : α → Prop} {f : α → List UInt8} {g : α → List SqlToken}
    (hseparated : ∀ a, IsSeparated (f a)) (h : ∀ a, Writes (plain a) (f a) (g a)) (as : List α) :
    Writes (∀ a ∈ as, plain a) (as.flatMap f) (as.flatMap g) := by
  induction as with
  | nil => exact writes_nil.congr (iff_of_true trivial nofun)
  | cons a as ih =>
      have hboth := (h a).append ih (isSeparated_flatMap hseparated as)
      exact hboth.congr List.forall_mem_cons.symm

/-! ## Whole statements -/

/-- A piece that makes a whole statement has its tokens exactly if it is plain. -/
theorem Writes.sqlTokens_iff (h : Writes plain s tokens) :
    sqlTokens (beforeZero s) = some tokens ↔ plain := by
  have hend : sqlTokens (beforeZero []) = some [] := rfl
  have hwhole := h [] [] nofun
  rwa [List.append_nil, List.append_nil, and_iff_left hend] at hwhole

/-- A plain statement is read as the statement that was meant. -/
theorem Writes.readSql_eq {statement : SqlStatement} (h : Writes plain s statement.tokens)
    (hcomplete : statement.IsComplete) (hplain : plain) :
    readSql (beforeZero s) = some statement := by
  rw [readSql, h.sqlTokens_iff.mpr hplain, Option.bind_some, readStatement_tokens hcomplete]

/-- A statement that changes rows is read back just if it is complete and plain. -/
theorem Writes.readSql_iff {statement : SqlStatement} (h : Writes plain s statement.tokens)
    (hselect : ∀ table conditions order limit,
      statement ≠ .select table conditions order limit) :
    readSql (beforeZero s) = some statement ↔ statement.IsComplete ∧ plain := by
  constructor
  · intro hread
    obtain ⟨tokens, htokens, hstatement⟩ := Option.bind_eq_some_iff.mp hread
    rcases tokens_of_readStatement hstatement with ⟨hcomplete, rfl⟩ | ⟨_, _, _, _, _, heq, -⟩
    · exact ⟨hcomplete, h.sqlTokens_iff.mp htokens⟩
    · exact absurd heq (hselect _ _ _ _)
  · exact fun ⟨hcomplete, hplain⟩ => h.readSql_eq hcomplete hplain

/-- A select is read only if it is plain as far as its conditions, and what is behind them is
read. -/
theorem Writes.of_readSql_select {table clauses : List UInt8} {conditions : List SqlEquation}
    {order : Option (List SqlToken)} {limit : Option Nat}
    (h : Writes plain s (selectTokens table conditions)) (hclauses : IsSeparated clauses)
    (hread : readSql (beforeZero (s ++ clauses)) = some (.select table conditions order limit)) :
    (plain ∧ conditions ≠ []) ∧
      ∃ tail, sqlTokens (beforeZero clauses) = some tail ∧ ReadsBehind tail order limit := by
  obtain ⟨tokens, htokens, hstatement⟩ := Option.bind_eq_some_iff.mp hread
  obtain ⟨tail, hne, hbehind, rfl⟩ : ∃ tail, conditions ≠ [] ∧ ReadsBehind tail order limit ∧
      tokens = selectTokens table conditions ++ tail := by
    rcases tokens_of_readStatement hstatement with ⟨hcomplete, rfl⟩ | ⟨_, _, _, _, tail, heq, h⟩
    · refine ⟨_, hcomplete.1, ⟨_, readOrder_tokens limit hcomplete.2, readLimit_tokens limit⟩, ?_⟩
      rw [selectTokens, List.append_assoc]
      rfl
    · cases heq
      exact ⟨tail, h⟩
  obtain ⟨hplain, htail⟩ := (h clauses tail hclauses).mp htokens
  exact ⟨⟨hplain, hne⟩, tail, htail, hbehind⟩

end Pieces

end Text
