import MqttClient.Text.Decimals

/-! # SQL statements

What a statement says to a server, for statements that insert a row, update rows or select
them: its text is split into tokens, and the tokens are read as one statement. Names stand
between backticks and texts between quotes; either is doubled to stand for itself, and in a
text a backslash escapes what follows it.
-/

namespace Text

/-! ## Tokens -/

inductive SqlToken where
  /-- A keyword or a number. -/
  | word (chars : List UInt8)
  | name (chars : List UInt8)
  | text (chars : List UInt8)
  | symbol (b : UInt8)
  deriving DecidableEq

def isSqlBlank (b : UInt8) : Bool := b = 32 || b = 9 || b = 10 || b = 13

/-- `(`, `)`, `*`, `,` and `=`. -/
def isSqlSymbol (b : UInt8) : Bool := b = 40 || b = 41 || b = 42 || b = 44 || b = 61

def isWordChar (b : UInt8) : Bool :=
  isDigit b || (65 ≤ b && b ≤ 90) || (97 ≤ b && b ≤ 122) || b = 95

/-- What a character is that has a backslash in front. -/
def unescaped (b : UInt8) : List UInt8 :=
  if b = 48 then [0]
  else if b = 98 then [8]
  else if b = 110 then [10]
  else if b = 114 then [13]
  else if b = 116 then [9]
  else if b = 90 then [26]
  else if b = 37 || b = 95 then [92, b]
  else [b]

/-- What has been read of a token. -/
inductive LexState where
  | start
  | word (chars : List UInt8)
  | name (chars : List UInt8)
  /-- Behind a backtick that ends a name, if it is not doubled. -/
  | nameEnd (chars : List UInt8)
  | text (chars : List UInt8)
  | textEscape (chars : List UInt8)
  /-- Behind a quote that ends a text, if it is not doubled. -/
  | textEnd (chars : List UInt8)
  | failed
  deriving DecidableEq

namespace LexState

/-- The first character of a token. -/
def first (b : UInt8) : List SqlToken × LexState :=
  if isSqlBlank b then ([], .start)
  else if b = 96 then ([], .name [])
  else if b = 39 then ([], .text [])
  else if isWordChar b then ([], .word [b])
  else if isSqlSymbol b then ([.symbol b], .start)
  else ([], .failed)

/-- The tokens that end before a character, and the state behind it. -/
def next : LexState → UInt8 → List SqlToken × LexState
  | start, b => first b
  | word w, b =>
      if isWordChar b then ([], .word (w ++ [b])) else (.word w :: (first b).1, (first b).2)
  | name n, b => if b = 96 then ([], .nameEnd n) else ([], .name (n ++ [b]))
  | nameEnd n, b =>
      if b = 96 then ([], .name (n ++ [b])) else (.name n :: (first b).1, (first b).2)
  | text t, b =>
      if b = 39 then ([], .textEnd t)
      else if b = 92 then ([], .textEscape t)
      else ([], .text (t ++ [b]))
  | textEscape t, b => ([], .text (t ++ unescaped b))
  | textEnd t, b =>
      if b = 39 then ([], .text (t ++ [b])) else (.text t :: (first b).1, (first b).2)
  | failed, _ => ([], .failed)

/-- The token that ends where the statement does. -/
def last : LexState → Option (List SqlToken)
  | start => some []
  | word w => some [.word w]
  | nameEnd n => some [.name n]
  | textEnd t => some [.text t]
  | name _ | text _ | textEscape _ | failed => none

/-- The tokens of a text from a state on, and the state behind it. -/
def run : LexState → List UInt8 → List SqlToken × LexState
  | state, [] => ([], state)
  | state, b :: s =>
      ((state.next b).1 ++ ((state.next b).2.run s).1, ((state.next b).2.run s).2)

end LexState

def sqlTokens (s : List UInt8) : Option (List SqlToken) :=
  (LexState.start.run s).2.last.map ((LexState.start.run s).1 ++ ·)

/-! ## Statements -/

inductive SqlValue where
  | null
  | currentTimestamp
  | text (chars : List UInt8)
  deriving DecidableEq

/-- A name and a value: a column and what it is set to, or what it is to be equal to. -/
abbrev SqlEquation := List UInt8 × SqlValue

inductive SqlStatement where
  | insert (table : List UInt8) (row : List SqlEquation)
  | update (table : List UInt8) (assignments conditions : List SqlEquation)
  | select (table : List UInt8) (conditions : List SqlEquation) (order : Option (List SqlToken))
      (limit : Option Nat)
  deriving DecidableEq

def sqlWord (s : String) : SqlToken := .word (s.toList.map fun c => UInt8.ofNat c.toNat)

def SqlToken.nameOf : SqlToken → Option (List UInt8)
  | name n => some n
  | _ => none

def SqlToken.valueOf : SqlToken → Option SqlValue
  | text t => some (.text t)
  | word w =>
      if word w = sqlWord "NULL" then some .null
      else if word w = sqlWord "CURRENT_TIMESTAMP" then some .currentTimestamp
      else none
  | _ => none

section Readers

/-- What is behind a token, if it comes next. -/
def expectToken (token : SqlToken) : List SqlToken → Option (List SqlToken)
  | [] => none
  | t :: rest => if t = token then some rest else none

def readName : List SqlToken → Option (List UInt8 × List SqlToken)
  | .name n :: rest => some (n, rest)
  | _ => none

/-- Single tokens with commas between them, and what is behind them. -/
def readTokens {α : Type} (item : SqlToken → Option α) :
    List SqlToken → Option (List α × List SqlToken)
  | [] => none
  | [t] => (item t).map fun a => ([a], [])
  | t :: comma :: rest =>
      (item t).bind fun a =>
        if comma = .symbol 44 then (readTokens item rest).map fun (as, rest) => (a :: as, rest)
        else some ([a], comma :: rest)

/-- Equations with a token between them, and what is behind them. -/
def readEquations (separator : SqlToken) :
    List SqlToken → Option (List SqlEquation × List SqlToken)
  | [.name n, .symbol 61, t] => t.valueOf.map fun v => ([(n, v)], [])
  | .name n :: .symbol 61 :: t :: next :: rest =>
      t.valueOf.bind fun v =>
        if next = separator then
          (readEquations separator rest).map fun (es, rest) => ((n, v) :: es, rest)
        else some ([(n, v)], next :: rest)
  | _ => none

/-- What rows are ordered by, and what is behind it. -/
def readOrder (tokens : List SqlToken) : Option (Option (List SqlToken) × List SqlToken) :=
  match expectToken (sqlWord "ORDER") tokens with
  | none => some (none, tokens)
  | some tokens =>
      (expectToken (sqlWord "BY") tokens).bind fun tokens =>
        let order := tokens.takeWhile (· ≠ sqlWord "LIMIT")
        if order = [] then none else some (some order, tokens.dropWhile (· ≠ sqlWord "LIMIT"))

/-- How many rows are selected. -/
def readLimit : List SqlToken → Option (Option Nat)
  | [] => some none
  | [limit, .word number] =>
      if limit = sqlWord "LIMIT" ∧ number.all isDigit then some (some (digitsNumber number))
      else none
  | _ => none

def readInsert (tokens : List SqlToken) : Option SqlStatement := do
  let tokens ← expectToken (sqlWord "INTO") tokens
  let (table, tokens) ← readName tokens
  let tokens ← expectToken (.symbol 40) tokens
  let (columns, tokens) ← readTokens SqlToken.nameOf tokens
  let tokens ← expectToken (.symbol 41) tokens
  let tokens ← expectToken (sqlWord "VALUES") tokens
  let tokens ← expectToken (.symbol 40) tokens
  let (values, tokens) ← readTokens SqlToken.valueOf tokens
  if tokens = [.symbol 41] ∧ columns.length = values.length then
    return .insert table (columns.zip values)
  else none

def readUpdate (tokens : List SqlToken) : Option SqlStatement := do
  let (table, tokens) ← readName tokens
  let tokens ← expectToken (sqlWord "SET") tokens
  let (assignments, tokens) ← readEquations (.symbol 44) tokens
  let tokens ← expectToken (sqlWord "WHERE") tokens
  let (conditions, tokens) ← readEquations (sqlWord "AND") tokens
  if tokens = [] then return .update table assignments conditions else none

def readSelect (tokens : List SqlToken) : Option SqlStatement := do
  let tokens ← expectToken (.symbol 42) tokens
  let tokens ← expectToken (sqlWord "FROM") tokens
  let (table, tokens) ← readName tokens
  let tokens ← expectToken (sqlWord "WHERE") tokens
  let (conditions, tokens) ← readEquations (sqlWord "AND") tokens
  let (order, tokens) ← readOrder tokens
  let limit ← readLimit tokens
  return .select table conditions order limit

end Readers

/-- The statement that tokens are, if they are one. -/
def readStatement : List SqlToken → Option SqlStatement
  | [] => none
  | t :: tokens =>
      if t = sqlWord "INSERT" then readInsert tokens
      else if t = sqlWord "UPDATE" then readUpdate tokens
      else if t = sqlWord "SELECT" then readSelect tokens
      else none

/-- The statement that a text is, if it is one. -/
def readSql (s : List UInt8) : Option SqlStatement := (sqlTokens s).bind readStatement

/-! ## The tokens of a statement -/

def SqlValue.token : SqlValue → SqlToken
  | null => sqlWord "NULL"
  | currentTimestamp => sqlWord "CURRENT_TIMESTAMP"
  | text t => .text t

def equationTokens (e : SqlEquation) : List SqlToken := [.name e.1, .symbol 61, e.2.token]

/-- With a token between each two. -/
def joined (separator : SqlToken) : List (List SqlToken) → List SqlToken
  | [] => []
  | x :: xs => x ++ xs.flatMap (separator :: ·)

namespace SqlStatement

def orderTokens : Option (List SqlToken) → List SqlToken
  | none => []
  | some order => sqlWord "ORDER" :: sqlWord "BY" :: order

def limitTokens : Option Nat → List SqlToken
  | none => []
  | some limit => [sqlWord "LIMIT", .word (digits limit)]

/-- How a statement is spelled. -/
def tokens : SqlStatement → List SqlToken
  | insert table row =>
      [sqlWord "INSERT", sqlWord "INTO", .name table, .symbol 40] ++
        (joined (.symbol 44) (row.map fun e => [.name e.1]) ++
          ([.symbol 41, sqlWord "VALUES", .symbol 40] ++
            (joined (.symbol 44) (row.map fun e => [e.2.token]) ++ [.symbol 41])))
  | update table assignments conditions =>
      [sqlWord "UPDATE", .name table, sqlWord "SET"] ++
        (joined (.symbol 44) (assignments.map equationTokens) ++
          ([sqlWord "WHERE"] ++ joined (sqlWord "AND") (conditions.map equationTokens)))
  | select table conditions order limit =>
      [sqlWord "SELECT", .symbol 42, sqlWord "FROM", .name table, sqlWord "WHERE"] ++
        (joined (sqlWord "AND") (conditions.map equationTokens) ++
          (orderTokens order ++ limitTokens limit))

/-- Nothing of a statement is left out. -/
def IsComplete : SqlStatement → Prop
  | insert _ row => row ≠ []
  | update _ assignments conditions => assignments ≠ [] ∧ conditions ≠ []
  | select _ conditions order _ =>
      conditions ≠ [] ∧ ∀ tokens, order = some tokens → tokens ≠ [] ∧ sqlWord "LIMIT" ∉ tokens

end SqlStatement

section Reading

variable {rest : List SqlToken}

theorem valueOf_token (v : SqlValue) : v.token.valueOf = some v := by
  cases v with
  | null | currentTimestamp => decide
  | text t => rfl

/-- Tokens with commas between them are read up to where no comma follows. -/
theorem readTokens_joined {α β : Type} {item : SqlToken → Option β} {token : α → SqlToken}
    {value : α → β} (hitem : ∀ a, item (token a) = some (value a)) {as : List α} (hne : as ≠ [])
    (hrest : rest.head? ≠ some (.symbol 44)) :
    readTokens item (joined (.symbol 44) (as.map fun a => [token a]) ++ rest) =
      some (as.map value, rest) := by
  cases as with
  | nil => exact absurd rfl hne
  | cons a as =>
      rw [List.map_cons, joined, List.singleton_append, List.cons_append]
      clear hne
      induction as generalizing a with
      | nil =>
          cases rest with
          | nil =>
              change (item (token a)).map _ = _
              rw [hitem]
              rfl
          | cons t rest =>
              have ht : t ≠ .symbol 44 := fun heq => hrest (congrArg some heq)
              change (item (token a)).bind _ = _
              rw [hitem, Option.bind_some, if_neg ht]
              rfl
      | cons b as ih =>
          change (item (token a)).bind _ = _
          rw [hitem, Option.bind_some, if_pos rfl]
          change (readTokens item (token b :: ((as.map fun a => [token a]).flatMap
            (SqlToken.symbol 44 :: ·) ++ rest))).map _ = _
          rw [ih]
          rfl

/-- Equations are read up to where no separator follows. -/
theorem readEquations_joined {separator : SqlToken} {es : List SqlEquation} (hne : es ≠ [])
    (hrest : rest.head? ≠ some separator) :
    readEquations separator (joined separator (es.map equationTokens) ++ rest) =
      some (es, rest) := by
  cases es with
  | nil => exact absurd rfl hne
  | cons e es =>
      rw [List.map_cons, joined, List.append_assoc]
      clear hne
      induction es generalizing e with
      | nil =>
          cases rest with
          | nil =>
              change (e.2.token.valueOf).map _ = _
              rw [valueOf_token]
              rfl
          | cons t rest =>
              have ht : t ≠ separator := fun heq => hrest (congrArg some heq)
              change (e.2.token.valueOf).bind _ = _
              rw [valueOf_token, Option.bind_some, if_neg ht]
      | cons f es ih =>
          change (e.2.token.valueOf).bind _ = _
          rw [valueOf_token, Option.bind_some, if_pos rfl]
          change (readEquations separator (equationTokens f ++
            ((es.map equationTokens).flatMap (separator :: ·) ++ rest))).map _ = _
          rw [ih]
          rfl

theorem expectToken_cons (t : SqlToken) : expectToken t (t :: rest) = some rest := if_pos rfl

theorem readStatement_insert (table : List UInt8) {row : List SqlEquation} (hrow : row ≠ []) :
    readStatement (SqlStatement.insert table row).tokens = some (.insert table row) := by
  have hcolumns (rest : List SqlToken) :
      readTokens SqlToken.nameOf
          (joined (.symbol 44) (row.map fun e => [.name e.1]) ++ .symbol 41 :: rest) =
        some (row.map Prod.fst, .symbol 41 :: rest) := by
    apply readTokens_joined _ hrow
    · exact ne_of_beq_false rfl
    · intro e
      rfl
  have hvalues :
      readTokens SqlToken.valueOf
          (joined (.symbol 44) (row.map fun e => [e.2.token]) ++ [.symbol 41]) =
        some (row.map Prod.snd, [.symbol 41]) := by
    apply readTokens_joined _ hrow
    · exact ne_of_beq_false rfl
    · intro e
      exact valueOf_token e.2
  change readInsert (sqlWord "INTO" :: .name table :: .symbol 40 :: (_ ++ (.symbol 41 ::
    sqlWord "VALUES" :: .symbol 40 :: (_ ++ [.symbol 41])))) = _
  unfold readInsert
  simp only [expectToken_cons, readName, Option.bind_eq_bind, Option.bind_some, hcolumns, hvalues]
  have hlength : (row.map Prod.fst).length = (row.map Prod.snd).length := by
    rw [List.length_map, List.length_map]
  rw [if_pos ⟨trivial, hlength⟩, ← List.unzip_fst, ← List.unzip_snd, List.zip_unzip]
  rfl

theorem readStatement_update (table : List UInt8) {assignments conditions : List SqlEquation}
    (hassignments : assignments ≠ []) (hconditions : conditions ≠ []) :
    readStatement (SqlStatement.update table assignments conditions).tokens =
      some (.update table assignments conditions) := by
  have hset (rest : List SqlToken) :
      readEquations (.symbol 44)
          (joined (.symbol 44) (assignments.map equationTokens) ++ sqlWord "WHERE" :: rest) =
        some (assignments, sqlWord "WHERE" :: rest) :=
    readEquations_joined hassignments nofun
  have hwhere :
      readEquations (sqlWord "AND") (joined (sqlWord "AND") (conditions.map equationTokens)) =
        some (conditions, []) := by
    have hend : readEquations (sqlWord "AND")
        (joined (sqlWord "AND") (conditions.map equationTokens) ++ []) = some (conditions, []) :=
      readEquations_joined hconditions nofun
    rwa [List.append_nil] at hend
  change readUpdate (.name table :: sqlWord "SET" :: (_ ++ (sqlWord "WHERE" :: ([] ++ _)))) = _
  unfold readUpdate
  simp only [List.nil_append, expectToken_cons, readName, Option.bind_eq_bind, Option.bind_some,
    hset, hwhere]
  rfl

/-- What rows are ordered by ends where a limit starts. -/
theorem readOrder_tokens {order : Option (List SqlToken)} (limit : Option Nat)
    (horder : ∀ tokens, order = some tokens → tokens ≠ [] ∧ sqlWord "LIMIT" ∉ tokens) :
    readOrder (SqlStatement.orderTokens order ++ SqlStatement.limitTokens limit) =
      some (order, SqlStatement.limitTokens limit) := by
  cases order with
  | none =>
      cases limit with
      | none => rfl
      | some limit =>
          have hother : sqlWord "LIMIT" ≠ sqlWord "ORDER" := ne_of_beq_false rfl
          rw [readOrder, SqlStatement.orderTokens, SqlStatement.limitTokens, List.nil_append,
            expectToken, if_neg hother]
  | some tokens =>
      obtain ⟨hne, hmem⟩ := horder tokens rfl
      have hbefore : ∀ t ∈ tokens, decide (t ≠ sqlWord "LIMIT") = true := fun t ht =>
        decide_eq_true fun heq => hmem (heq ▸ ht)
      have hbehind :
          (SqlStatement.limitTokens limit).takeWhile (· ≠ sqlWord "LIMIT") = [] ∧
            (SqlStatement.limitTokens limit).dropWhile (· ≠ sqlWord "LIMIT") =
              SqlStatement.limitTokens limit := by
        cases limit with
        | none => exact ⟨rfl, rfl⟩
        | some limit => exact ⟨rfl, rfl⟩
      rw [readOrder, SqlStatement.orderTokens, List.cons_append, List.cons_append, expectToken_cons]
      dsimp only
      rw [expectToken_cons, Option.bind_some, List.takeWhile_append_of_pos hbefore,
        List.dropWhile_append_of_pos hbefore, hbehind.1, hbehind.2, List.append_nil]
      exact if_neg hne

theorem readLimit_tokens (limit : Option Nat) :
    readLimit (SqlStatement.limitTokens limit) = some limit := by
  cases limit with
  | none => rfl
  | some limit =>
      have hdigits : (digits limit).all isDigit = true := List.all_eq_true.mpr isDigit_of_mem_digits
      exact (if_pos ⟨rfl, hdigits⟩).trans (congrArg (some ∘ some) (digitsNumber_digits limit))

theorem readStatement_select (table : List UInt8) {conditions : List SqlEquation}
    {order : Option (List SqlToken)} (limit : Option Nat) (hconditions : conditions ≠ [])
    (horder : ∀ tokens, order = some tokens → tokens ≠ [] ∧ sqlWord "LIMIT" ∉ tokens) :
    readStatement (SqlStatement.select table conditions order limit).tokens =
      some (.select table conditions order limit) := by
  have hwhere :
      readEquations (sqlWord "AND") (joined (sqlWord "AND") (conditions.map equationTokens) ++
          (SqlStatement.orderTokens order ++ SqlStatement.limitTokens limit)) =
        some (conditions, SqlStatement.orderTokens order ++ SqlStatement.limitTokens limit) := by
    apply readEquations_joined hconditions
    cases order with
    | none =>
        cases limit with
        | none => exact nofun
        | some limit => exact ne_of_beq_false rfl
    | some tokens => exact ne_of_beq_false rfl
  change readSelect (.symbol 42 :: sqlWord "FROM" :: .name table :: sqlWord "WHERE" ::
    ([] ++ (_ ++ _))) = _
  unfold readSelect
  simp only [List.nil_append, expectToken_cons, readName, Option.bind_eq_bind, Option.bind_some,
    hwhere, readOrder_tokens limit horder, readLimit_tokens]
  rfl

/-- A statement is read back from its tokens. -/
theorem readStatement_tokens {statement : SqlStatement} (h : statement.IsComplete) :
    readStatement statement.tokens = some statement := by
  cases statement with
  | insert table row => exact readStatement_insert table h
  | update table assignments conditions => exact readStatement_update table h.1 h.2
  | select table conditions order limit => exact readStatement_select table limit h.1 h.2

end Reading

/-! ## The tokens that a statement is read from -/

section Spelling

variable {tokens rest : List SqlToken}

theorem expectToken_eq_some {t : SqlToken} :
    expectToken t tokens = some rest ↔ tokens = t :: rest := by
  cases tokens with
  | nil => exact iff_of_false nofun nofun
  | cons t' tokens =>
      rw [expectToken]
      split
      next heq => simp [heq]
      next hne => simp [hne]

theorem readName_eq_some {n : List UInt8} :
    readName tokens = some (n, rest) ↔ tokens = .name n :: rest := by
  unfold readName
  split
  next => simp
  next hother => exact iff_of_false nofun fun heq => hother n rest heq

theorem nameOf_eq_some {t : SqlToken} {n : List UInt8} : t.nameOf = some n ↔ t = .name n := by
  cases t <;> simp [SqlToken.nameOf]

theorem valueOf_eq_some {t : SqlToken} {v : SqlValue} : t.valueOf = some v ↔ t = v.token := by
  constructor
  · intro h
    cases t with
    | text t => cases h; rfl
    | word w =>
        rw [SqlToken.valueOf] at h
        split at h
        next heq => cases h; exact heq
        next =>
          split at h
          next heq => cases h; exact heq
          next => cases h
    | name | symbol => cases h
  · rintro rfl
    exact valueOf_token v

/-- Only tokens with commas between them are read as such. -/
theorem eq_joined_of_readTokens {α : Type} {item : SqlToken → Option α} {token : α → SqlToken}
    (hitem : ∀ t a, item t = some a → t = token a) {as : List α}
    (h : readTokens item tokens = some (as, rest)) :
    as ≠ [] ∧ tokens = joined (.symbol 44) (as.map fun a => [token a]) ++ rest := by
  fun_induction readTokens item tokens generalizing as with
  | case1 => cases h
  | case2 t =>
      obtain ⟨a, ha, heq⟩ := Option.map_eq_some_iff.mp h
      cases heq
      rw [hitem t a ha]
      exact ⟨nofun, rfl⟩
  | case3 t comma tail ih =>
      obtain ⟨a, ha, h⟩ := Option.bind_eq_some_iff.mp h
      rw [hitem t a ha]
      split at h
      next hcomma =>
        obtain ⟨⟨as', rest'⟩, has, heq⟩ := Option.map_eq_some_iff.mp h
        cases heq
        obtain ⟨hne, htail⟩ := ih has
        refine ⟨nofun, ?_⟩
        rw [hcomma, htail]
        cases as' with
        | nil => exact absurd rfl hne
        | cons b as' => rfl
      next =>
        cases h
        exact ⟨nofun, rfl⟩

/-- Only equations with the separator between them are read as such. -/
theorem eq_joined_of_readEquations {separator : SqlToken} {es : List SqlEquation}
    (h : readEquations separator tokens = some (es, rest)) :
    es ≠ [] ∧ tokens = joined separator (es.map equationTokens) ++ rest := by
  fun_induction readEquations separator tokens generalizing es with
  | case1 n t =>
      obtain ⟨v, hv, heq⟩ := Option.map_eq_some_iff.mp h
      cases heq
      rw [valueOf_eq_some.mp hv]
      exact ⟨nofun, rfl⟩
  | case2 n t next tail ih =>
      obtain ⟨v, hv, h⟩ := Option.bind_eq_some_iff.mp h
      rw [valueOf_eq_some.mp hv]
      split at h
      next hnext =>
        obtain ⟨⟨es', rest'⟩, hes, heq⟩ := Option.map_eq_some_iff.mp h
        cases heq
        obtain ⟨hne, htail⟩ := ih hes
        refine ⟨nofun, ?_⟩
        rw [hnext, htail]
        cases es' with
        | nil => exact absurd rfl hne
        | cons e es' => rfl
      next =>
        cases h
        exact ⟨nofun, rfl⟩
  | case3 => cases h

theorem tokens_of_readInsert {statement : SqlStatement} (h : readInsert tokens = some statement) :
    statement.IsComplete ∧ sqlWord "INSERT" :: tokens = statement.tokens := by
  simp only [readInsert, Option.bind_eq_bind, Option.bind_eq_some_iff, Prod.exists,
    expectToken_eq_some, readName_eq_some] at h
  obtain ⟨_, rfl, table, _, rfl, _, rfl, columns, _, hcolumns, _, rfl, _, rfl, _, rfl, values, rest,
    hvalues, h⟩ := h
  split at h
  next hend =>
    cases h
    obtain ⟨rfl, hlength⟩ := hend
    obtain ⟨hne, rfl⟩ := eq_joined_of_readTokens (fun _ _ => nameOf_eq_some.mp) hcolumns
    obtain ⟨-, rfl⟩ := eq_joined_of_readTokens (fun _ _ => valueOf_eq_some.mp) hvalues
    have hfst : (columns.zip values).map Prod.fst = columns := List.map_fst_zip hlength.le
    have hsnd : (columns.zip values).map Prod.snd = values := List.map_snd_zip hlength.ge
    constructor
    · intro hnil
      rw [hnil] at hfst
      exact hne hfst.symm
    · have hnames : (columns.zip values).map (fun e => [SqlToken.name e.1]) =
          columns.map fun n => [.name n] := by
        have hmap := congrArg (List.map fun n => [SqlToken.name n]) hfst
        rw [List.map_map] at hmap
        exact hmap
      have htokens : (columns.zip values).map (fun e => [e.2.token]) =
          values.map fun v => [v.token] := by
        have hmap := congrArg (List.map fun v => [SqlValue.token v]) hsnd
        rw [List.map_map] at hmap
        exact hmap
      rw [SqlStatement.tokens, hnames, htokens]
      rfl
  next => cases h

theorem tokens_of_readUpdate {statement : SqlStatement} (h : readUpdate tokens = some statement) :
    statement.IsComplete ∧ sqlWord "UPDATE" :: tokens = statement.tokens := by
  simp only [readUpdate, Option.bind_eq_bind, Option.bind_eq_some_iff, Prod.exists,
    expectToken_eq_some, readName_eq_some] at h
  obtain ⟨table, _, rfl, _, rfl, assignments, _, hassignments, _, rfl, conditions, rest,
    hconditions, h⟩ := h
  split at h
  next hend =>
    cases h
    cases hend
    obtain ⟨hne, rfl⟩ := eq_joined_of_readEquations hassignments
    obtain ⟨hne', rfl⟩ := eq_joined_of_readEquations hconditions
    refine ⟨⟨hne, hne'⟩, ?_⟩
    rw [List.append_nil]
    rfl
  next => cases h

/-- What is behind the conditions of a select. -/
def ReadsBehind (tail : List SqlToken) (order : Option (List SqlToken))
    (limit : Option Nat) : Prop :=
  ∃ rest, readOrder tail = some (order, rest) ∧ readLimit rest = some limit

theorem tokens_of_readSelect {statement : SqlStatement} (h : readSelect tokens = some statement) :
    ∃ table conditions order limit tail, statement = .select table conditions order limit ∧
      conditions ≠ [] ∧ ReadsBehind tail order limit ∧
      tokens = [.symbol 42, sqlWord "FROM", .name table, sqlWord "WHERE"] ++
        (joined (sqlWord "AND") (conditions.map equationTokens) ++ tail) := by
  simp only [readSelect, Option.bind_eq_bind, Option.bind_eq_some_iff, Prod.exists,
    expectToken_eq_some, readName_eq_some] at h
  obtain ⟨_, rfl, _, rfl, table, _, rfl, _, rfl, conditions, tail, hconditions, order, rest, horder,
    limit, hlimit, heq⟩ := h
  obtain ⟨hne, rfl⟩ := eq_joined_of_readEquations hconditions
  exact ⟨table, conditions, order, limit, tail, (Option.some.inj heq).symm, hne,
    ⟨rest, horder, hlimit⟩, rfl⟩

/-- The tokens of a select, as far as its conditions. -/
def selectTokens (table : List UInt8) (conditions : List SqlEquation) : List SqlToken :=
  [sqlWord "SELECT", .symbol 42, sqlWord "FROM", .name table, sqlWord "WHERE"] ++
    joined (sqlWord "AND") (conditions.map equationTokens)

/-- A statement that changes rows is read from its tokens only. -/
theorem tokens_of_readStatement {statement : SqlStatement}
    (h : readStatement tokens = some statement) :
    statement.IsComplete ∧ tokens = statement.tokens ∨
      ∃ table conditions order limit tail, statement = .select table conditions order limit ∧
        conditions ≠ [] ∧ ReadsBehind tail order limit ∧
        tokens = selectTokens table conditions ++ tail := by
  cases tokens with
  | nil => cases h
  | cons t tokens =>
      rw [readStatement] at h
      split at h
      next ht =>
        rw [ht]
        exact .inl (tokens_of_readInsert h)
      next =>
        split at h
        next ht =>
          rw [ht]
          exact .inl (tokens_of_readUpdate h)
        next =>
          split at h
          next ht =>
            obtain ⟨table, conditions, order, limit, tail, hstatement, hne, hbehind, rfl⟩ :=
              tokens_of_readSelect h
            refine .inr ⟨table, conditions, order, limit, tail, hstatement, hne, hbehind, ?_⟩
            rw [ht, selectTokens, List.append_assoc]
            rfl
          next => cases h

end Spelling

end Text
