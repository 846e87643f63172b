import MqttClient.Database.Mysql
import MqttClient.Text.SqlPieces

/-! # What the statements say

The wrapper puts names between backticks and values between quotes as they are. The server
reads the statement that was asked for if and only if every name and every value is read as
itself, and nothing is missing that a statement needs.
-/

namespace MqttClient.Database

open Text Shadow Measurement

/-- A call that builds a statement; `insertExecution` has found this time zone. -/
inductive StatementCall where
  | insertExecution (table : List UInt8) (timestampOffset : Int) (keysValues : Row)
  | update (table : List UInt8) (keysValues : Row)
  | select (table : List UInt8) (conditions : Row) (orderBy : List UInt8) (limit : Int32)

/-- A column, and the text that it is set or compared to. -/
def textEquation (column : Member) : SqlEquation := (column.1, .text column.2)

/-- An empty value is none. -/
def insertEquation (column : Member) : SqlEquation :=
  (column.1, if column.2 = [] then .null else .text column.2)

/-- The name of the clock's value stands for that value. -/
def updateEquation (column : Member) : SqlEquation :=
  (column.1, if column.2 = ascii "CURRENT_TIMESTAMP" then .currentTimestamp else .text column.2)

namespace CMysql

variable (db : CMysql)

/-- The statement that a call builds. -/
def statement : StatementCall → List UInt8
  | .insertExecution table offset keysValues => db.insertStatement table offset keysValues
  | .update table keysValues => db.updateStatement table keysValues
  | .select table conditions orderBy limit => selectStatement table conditions orderBy limit

/-- What a call asks for, with the order in which rows are selected left open. -/
def asked (order : Option (List SqlToken)) : StatementCall → SqlStatement
  | .insertExecution table offset keysValues =>
      .insert table ((ascii "timestamp_offset", .text (decimal offset)) ::
        (db.ids.columns.map textEquation ++ keysValues.columns.map insertEquation))
  | .update table keysValues =>
      .update table (keysValues.columns.map updateEquation) (db.ids.columns.map textEquation)
  | .select table conditions _ limit =>
      .select table (conditions.columns.map textEquation) order
        (if limit = 0 then none else some limit.toInt.toNat)

/-- The server reads the statement that was asked for. -/
def ReadsBack (call : StatementCall) : Prop :=
  ∃ order, readSql (cString (db.statement call)) = some (db.asked order call)

end CMysql

/-- The name and the value are read as themselves. -/
def IsPlainColumn (column : Member) : Prop := IsPlainName column.1 ∧ IsPlainValue column.2

/-- All names and values are read as themselves, and the statement is complete. -/
def CMysql.IsPlain (db : CMysql) : StatementCall → Prop
  | .insertExecution table _ keysValues =>
      IsPlainName table ∧ (∀ id ∈ db.ids.columns, IsPlainColumn id) ∧
        ∀ column ∈ keysValues.columns, IsPlainColumn column
  | .update table keysValues =>
      IsPlainName table ∧ (keysValues.columns ≠ [] ∧ db.ids.columns ≠ []) ∧
        (∀ column ∈ keysValues.columns, IsPlainColumn column) ∧
        ∀ id ∈ db.ids.columns, IsPlainColumn id
  | .select table conditions _ limit =>
      IsPlainName table ∧ (conditions.columns ≠ [] ∧ 0 ≤ limit) ∧
        ∀ column ∈ conditions.columns, IsPlainColumn column

/-! ## Pieces of statements -/

section Pieces

variable {plain : Prop} {s : List UInt8} {tokens : List SqlToken}

theorem isPlainValue_of_forall {t : List UInt8} (h : ∀ b ∈ t, isDigit b = true ∨ b = 45) :
    IsPlainValue t := by
  have hne {c : UInt8} (hdigit : isDigit c = false) (hminus : c ≠ 45) : ∀ b ∈ t, b ≠ c := by
    rintro b hb rfl
    rcases h b hb with hb | hb
    · rw [hdigit] at hb
      cases hb
    · exact hminus hb
  refine ⟨fun hmem => hne rfl (by decide) 0 hmem rfl, isPlainText_of_forall fun b hb => ?_⟩
  exact ⟨hne rfl (by decide) b hb, hne rfl (by decide) b hb⟩

theorem isPlainValue_decimal (n : Int) : IsPlainValue (decimal n) := by
  apply isPlainValue_of_forall
  intro b hb
  cases n with
  | ofNat n => exact .inl (isDigit_of_mem_digits b hb)
  | negSucc n =>
      rcases List.mem_cons.mp hb with hb | hb
      · exact .inr hb
      · exact .inl (isDigit_of_mem_digits b hb)

/-- A name in a list of names. -/
theorem writes_nextName (n : List UInt8) :
    Writes (IsPlainName n) (ascii ", " ++ (ascii "`" ++ n ++ ascii "`")) [.symbol 44, .name n] :=
  (writes_name n).behind (ascii ", ") [.symbol 44] (by decide) rfl

/-- A value in a list of values. -/
theorem writes_nextValue (t : List UInt8) :
    Writes (IsPlainValue t) (ascii ", " ++ (ascii "'" ++ t ++ ascii "'")) [.symbol 44, .text t] :=
  (writes_text t).behind (ascii ", ") [.symbol 44] (by decide) rfl

theorem writes_nextInsertValue (column : Member) :
    Writes (IsPlainValue column.2)
      (ascii ", " ++
        if column.2 = [] then ascii "NULL" else ascii "'" ++ column.2 ++ ascii "'")
      [.symbol 44, (insertEquation column).2.token] := by
  unfold insertEquation
  split
  next hempty =>
    rw [hempty]
    have hnull : Writes True (ascii "NULL") [sqlWord "NULL"] := writes_word (by decide) rfl
    have hwrites : Writes True (ascii ", " ++ ascii "NULL") [.symbol 44, sqlWord "NULL"] :=
      hnull.behind (ascii ", ") [.symbol 44] (by decide) rfl
    exact hwrites.congr (iff_of_true trivial ⟨List.not_mem_nil, rfl⟩)
  next => exact writes_nextValue column.2

theorem writes_equation (column : Member) :
    Writes (IsPlainColumn column) (CMysql.equation column)
      (equationTokens (textEquation column)) := by
  have hvalue : Writes (IsPlainValue column.2) (ascii "=" ++ (39 :: (column.2 ++ [39])))
      [.symbol 61, .text column.2] :=
    (writes_text column.2).behind (ascii "=") [.symbol 61] (by decide) rfl
  have hwrites := (writes_name column.1).append hvalue (isSeparated_cons rfl)
  have hequation : CMysql.equation column =
      96 :: (column.1 ++ [96]) ++ (ascii "=" ++ (39 :: (column.2 ++ [39]))) := by
    have hsplit : ascii "`='" = [96] ++ (ascii "=" ++ [39]) := rfl
    rw [CMysql.equation, hsplit]
    simp [ascii]
  rw [hequation]
  exact hwrites

/-- What `update` sets a column to. -/
theorem writes_assignment (column : Member) :
    Writes (IsPlainColumn column) (CMysql.assignment column)
      (equationTokens (updateEquation column)) := by
  unfold CMysql.assignment updateEquation
  split
  next hclock =>
    have hword : Writes True (ascii "CURRENT_TIMESTAMP") [sqlWord "CURRENT_TIMESTAMP"] :=
      writes_word (by decide) rfl
    have hvalue : Writes True (ascii "= " ++ ascii "CURRENT_TIMESTAMP")
        [.symbol 61, sqlWord "CURRENT_TIMESTAMP"] :=
      hword.behind (ascii "= ") [.symbol 61] (by decide) rfl
    have hwrites := (writes_name column.1).append hvalue (isSeparated_cons rfl)
    have hassignment : ascii "`" ++ column.1 ++ ascii "`= CURRENT_TIMESTAMP" =
        96 :: (column.1 ++ [96]) ++ (ascii "= " ++ ascii "CURRENT_TIMESTAMP") := by
      have hsplit :
        ascii "`= CURRENT_TIMESTAMP" = [96] ++ (ascii "= " ++ ascii "CURRENT_TIMESTAMP") :=
        rfl
      rw [hsplit]
      simp [ascii]
    rw [hassignment]
    refine hwrites.congr (and_congr_right fun _ => iff_of_true trivial ?_)
    rw [hclock]
    exact ⟨by decide, rfl⟩
  next => exact writes_equation column

theorem separated_false {α : Type} (separator : List UInt8) (element : α → List UInt8)
    (as : List α) :
    CMysql.separated separator element false as = as.flatMap fun a => separator ++ element a := by
  induction as with
  | nil => rfl
  | cons a as ih => rw [CMysql.separated, ih, List.flatMap_cons]; rfl

/-- Elements with a separator between them. -/
theorem writes_separated {α : Type} {plain : α → Prop} {element : α → List UInt8}
    {token : α → List SqlToken} (h : ∀ a, Writes (plain a) (element a) (token a))
    (separator : List UInt8) (t : SqlToken) (hseparated : ∀ s, IsSeparated (separator ++ s))
    (hzero : 0 ∉ separator) (hrun : LexState.start.run separator = ([t], .start)) (as : List α) :
    Writes (∀ a ∈ as, plain a) (CMysql.separated separator element true as)
      (joined t (as.map token)) := by
  cases as with
  | nil => exact writes_nil.congr (iff_of_true trivial nofun)
  | cons a as =>
      have hrest := writes_flatMap (fun a => hseparated (element a))
        (fun a => (h a).behind separator [t] hzero hrun) as
      have hwrites := (h a).append hrest (isSeparated_flatMap (fun a => hseparated (element a)) as)
      have hjoined :
        joined t ((a :: as).map token) = token a ++ as.flatMap fun a => [t] ++ token a := by
        rw [List.map_cons, joined, List.flatMap_map]
        rfl
      rw [CMysql.separated, separated_false, hjoined]
      exact hwrites.congr List.forall_mem_cons.symm

end Pieces

/-! ## The statements of the wrapper -/

section Statements

theorem isSeparated_comma (s : List UInt8) : IsSeparated (ascii ", " ++ s) := isSeparated_cons rfl

/-- The rest of a list of names. -/
theorem writes_names (columns : List Member) :
    Writes (∀ column ∈ columns, IsPlainName column.1)
      (columns.flatMap fun column => ascii ", " ++ (ascii "`" ++ column.1 ++ ascii "`"))
      (columns.flatMap fun column => [.symbol 44, .name column.1]) := by
  apply writes_flatMap
  · intro column
    exact isSeparated_comma _
  · intro column
    exact writes_nextName column.1

theorem writes_idValues (columns : List Member) :
    Writes (∀ column ∈ columns, IsPlainValue column.2)
      (columns.flatMap fun column => ascii ", " ++ (ascii "'" ++ column.2 ++ ascii "'"))
      (columns.flatMap fun column => [.symbol 44, .text column.2]) := by
  apply writes_flatMap
  · intro column
    exact isSeparated_comma _
  · intro column
    exact writes_nextValue column.2

theorem writes_insertValues (columns : List Member) :
    Writes (∀ column ∈ columns, IsPlainValue column.2)
      (columns.flatMap fun column =>
        ascii ", " ++
          if column.2 = [] then ascii "NULL" else ascii "'" ++ column.2 ++ ascii "'")
      (columns.flatMap fun column => [.symbol 44, (insertEquation column).2.token]) := by
  apply writes_flatMap
  · intro column
    exact isSeparated_comma _
  · exact writes_nextInsertValue

/-- Conditions on columns. -/
theorem writes_equations (columns : List Member) :
    Writes (∀ column ∈ columns, IsPlainColumn column)
      (CMysql.separated (ascii " AND ") CMysql.equation true columns)
      (joined (sqlWord "AND") ((columns.map textEquation).map equationTokens)) := by
  have hmap : (columns.map textEquation).map equationTokens =
      columns.map fun column => equationTokens (textEquation column) := List.map_map
  rw [hmap]
  exact writes_separated writes_equation (ascii " AND ") (sqlWord "AND")
    (fun _ => isSeparated_cons rfl) (by decide) rfl columns

/-- The list in a pair of parentheses: the time first, then the ids, then the columns. -/
theorem writes_lists {first : List UInt8} {firstTokens : List SqlToken}
    {plain plain' plain'' : Prop}
    {id column : Member → List UInt8} {idTokens columnTokens : Member → List SqlToken}
    {ids columns : List Member} (hfirst : Writes plain first firstTokens)
    (hids : Writes plain' (ids.flatMap fun e => ascii ", " ++ id e) (ids.flatMap idTokens))
    (hcolumns : Writes plain'' (columns.flatMap fun e => ascii ", " ++ column e)
      (columns.flatMap columnTokens)) :
    Writes (plain ∧ plain' ∧ plain'')
      (first ++ ((ids.flatMap fun e => ascii ", " ++ id e) ++
        columns.flatMap fun e => ascii ", " ++ column e))
      (firstTokens ++ (ids.flatMap idTokens ++ columns.flatMap columnTokens)) := by
  have hseparated (f : Member → List UInt8) (es : List Member) :
      IsSeparated (es.flatMap fun e => ascii ", " ++ f e) :=
    isSeparated_flatMap (fun _ => isSeparated_comma _) es
  have hrest := hids.append hcolumns (hseparated column columns)
  exact hfirst.append hrest ((hseparated id ids).append (hseparated column columns))

variable (db : CMysql) (table : List UInt8)

/-- The columns and values of the row that is inserted. -/
abbrev insertRow (offset : Int) (keysValues : Row) : List SqlEquation :=
  (ascii "timestamp_offset", .text (decimal offset)) ::
    (db.ids.columns.map textEquation ++ keysValues.columns.map insertEquation)

/-- The names in the parentheses of an insert. -/
theorem writes_insertNames (offset : Int) (keysValues : Row) :
    Writes ((∀ id ∈ db.ids.columns, IsPlainName id.1) ∧
        ∀ column ∈ keysValues.columns, IsPlainName column.1)
      (ascii "`timestamp_offset`" ++
        ((db.ids.columns.flatMap fun id => ascii ", " ++ (ascii "`" ++ id.1 ++ ascii "`")) ++
          keysValues.columns.flatMap fun column =>
            ascii ", " ++ (ascii "`" ++ column.1 ++ ascii "`")))
      (joined (.symbol 44) ((insertRow db offset keysValues).map fun e => [.name e.1])) := by
  have hfirst : Writes (IsPlainName (ascii "timestamp_offset")) (ascii "`timestamp_offset`")
      [.name (ascii "timestamp_offset")] := writes_name (ascii "timestamp_offset")
  have hnames := writes_lists hfirst (writes_names db.ids.columns)
    (writes_names keysValues.columns)
  have htokens : joined (.symbol 44) ((insertRow db offset keysValues).map fun e => [.name e.1]) =
      [.name (ascii "timestamp_offset")] ++
        ((db.ids.columns.flatMap fun id => [.symbol 44, .name id.1]) ++
          keysValues.columns.flatMap fun column => [.symbol 44, .name column.1]) := by
    simp [joined, List.flatMap_map, textEquation, insertEquation]
  rw [htokens]
  exact hnames.congr (and_iff_right ⟨by decide, by decide⟩)

/-- The values in the parentheses of an insert. -/
theorem writes_insertRow (offset : Int) (keysValues : Row) :
    Writes ((∀ id ∈ db.ids.columns, IsPlainValue id.2) ∧
        ∀ column ∈ keysValues.columns, IsPlainValue column.2)
      (ascii "'" ++ decimal offset ++ ascii "'" ++
        ((db.ids.columns.flatMap fun id => ascii ", " ++ (ascii "'" ++ id.2 ++ ascii "'")) ++
          keysValues.columns.flatMap fun column =>
            ascii ", " ++
              if column.2 = [] then ascii "NULL" else ascii "'" ++ column.2 ++ ascii "'"))
      (joined (.symbol 44) ((insertRow db offset keysValues).map fun e => [e.2.token])) := by
  have hfirst : Writes (IsPlainValue (decimal offset))
      (ascii "'" ++ decimal offset ++ ascii "'") [.text (decimal offset)] :=
    writes_text (decimal offset)
  have hvalues := writes_lists hfirst (writes_idValues db.ids.columns)
    (writes_insertValues keysValues.columns)
  have htokens : joined (.symbol 44) ((insertRow db offset keysValues).map fun e => [e.2.token]) =
      [.text (decimal offset)] ++
        ((db.ids.columns.flatMap fun id => [.symbol 44, .text id.2]) ++
          keysValues.columns.flatMap fun column =>
            [.symbol 44, (insertEquation column).2.token]) := by
    simp [joined, List.flatMap_map, textEquation, SqlValue.token]
  rw [htokens]
  exact hvalues.congr (and_iff_right (isPlainValue_decimal offset))

theorem insertStatement_eq (offset : Int) (keysValues : Row) :
    db.insertStatement table offset keysValues =
      ascii "INSERT INTO " ++ (96 :: (table ++ [96]) ++ (ascii " (" ++
        (ascii "`timestamp_offset`" ++
          ((db.ids.columns.flatMap fun id => ascii ", " ++ (ascii "`" ++ id.1 ++ ascii "`")) ++
            keysValues.columns.flatMap fun column =>
              ascii ", " ++ (ascii "`" ++ column.1 ++ ascii "`")) ++
        (ascii ") VALUES (" ++
          (ascii "'" ++ decimal offset ++ ascii "'" ++
            ((db.ids.columns.flatMap fun id => ascii ", " ++ (ascii "'" ++ id.2 ++ ascii "'")) ++
              keysValues.columns.flatMap fun column =>
                ascii ", " ++
                  if column.2 = [] then ascii "NULL" else ascii "'" ++ column.2 ++ ascii "'") ++
          ascii ")"))))) := by
  have hinsert : ascii "INSERT INTO `" = ascii "INSERT INTO " ++ [96] := rfl
  have hopen : ascii "` (" = [96] ++ ascii " (" := rfl
  rw [CMysql.insertStatement, CMysql.insertKeys, CMysql.insertValues, hinsert, hopen]
  simp only [List.append_assoc, List.cons_append, List.nil_append]

theorem writes_insertStatement (offset : Int) (keysValues : Row) :
    Writes (db.IsPlain (.insertExecution table offset keysValues))
      (db.insertStatement table offset keysValues)
      (SqlStatement.insert table (insertRow db offset keysValues)).tokens := by
  have hend : Writes True (ascii ")") [.symbol 41] := by
    have hwrites := writes_nil.behind (ascii ")") [.symbol 41] (by decide) rfl
    rwa [List.append_nil, List.append_nil] at hwrites
  have hvalues :=
    ((writes_insertRow db offset keysValues).append hend (isSeparated_cons rfl)).behind
    (ascii ") VALUES (") [.symbol 41, sqlWord "VALUES", .symbol 40] (by decide) rfl
  have hnames := ((writes_insertNames db offset keysValues).append hvalues
    (isSeparated_cons rfl)).behind (ascii " (") [.symbol 40] (by decide) rfl
  have hwrites := ((writes_name table).append hnames (isSeparated_cons rfl)).behind
    (ascii "INSERT INTO ") [sqlWord "INSERT", sqlWord "INTO"] (by decide) rfl
  rw [insertStatement_eq]
  refine hwrites.congr ?_
  simp only [CMysql.IsPlain, IsPlainColumn, forall_and]
  tauto

theorem updateStatement_eq (keysValues : Row) :
    db.updateStatement table keysValues =
      ascii "UPDATE " ++ (96 :: (table ++ [96]) ++ (ascii " SET " ++
        (CMysql.separated (ascii ", ") CMysql.assignment true keysValues.columns ++
          (ascii " WHERE " ++
            CMysql.separated (ascii " AND ") CMysql.equation true db.ids.columns)))) := by
  have hupdate : ascii "UPDATE `" = ascii "UPDATE " ++ [96] := rfl
  have hset : ascii "` SET " = [96] ++ ascii " SET " := rfl
  rw [CMysql.updateStatement, hupdate, hset]
  simp only [List.append_assoc, List.cons_append, List.nil_append]

theorem writes_updateStatement (keysValues : Row) :
    Writes (IsPlainName table ∧ (∀ column ∈ keysValues.columns, IsPlainColumn column) ∧
        ∀ id ∈ db.ids.columns, IsPlainColumn id)
      (db.updateStatement table keysValues)
      (SqlStatement.update table (keysValues.columns.map updateEquation)
        (db.ids.columns.map textEquation)).tokens := by
  have hwhere := (writes_equations db.ids.columns).behind (ascii " WHERE ") [sqlWord "WHERE"]
    (by decide) rfl
  have hassignments := writes_separated writes_assignment (ascii ", ") (.symbol 44)
    isSeparated_comma (by decide) rfl keysValues.columns
  have hset := (hassignments.append hwhere (isSeparated_cons rfl)).behind (ascii " SET ")
    [sqlWord "SET"] (by decide) rfl
  have hwrites := ((writes_name table).append hset (isSeparated_cons rfl)).behind
    (ascii "UPDATE ") [sqlWord "UPDATE"] (by decide) rfl
  have hmap : (keysValues.columns.map updateEquation).map equationTokens =
      keysValues.columns.map fun column => equationTokens (updateEquation column) := List.map_map
  rw [updateStatement_eq, SqlStatement.tokens, hmap]
  exact hwrites

theorem selectConditions_eq (conditions : Row) :
    selectConditions table conditions =
      ascii "SELECT * FROM " ++ (96 :: (table ++ [96]) ++ (ascii " WHERE " ++
        CMysql.separated (ascii " AND ") CMysql.equation true conditions.columns)) := by
  have hselect : ascii "SELECT * FROM `" = ascii "SELECT * FROM " ++ [96] := rfl
  have hwhere : ascii "` WHERE " = [96] ++ ascii " WHERE " := rfl
  rw [selectConditions, hselect, hwhere]
  simp only [List.append_assoc, List.cons_append, List.nil_append]

theorem writes_selectConditions (conditions : Row) :
    Writes (IsPlainName table ∧ ∀ column ∈ conditions.columns, IsPlainColumn column)
      (selectConditions table conditions)
      (selectTokens table (conditions.columns.map textEquation)) := by
  have hwhere := (writes_equations conditions.columns).behind (ascii " WHERE ") [sqlWord "WHERE"]
    (by decide) rfl
  have hwrites := ((writes_name table).append hwhere (isSeparated_cons rfl)).behind
    (ascii "SELECT * FROM ") [sqlWord "SELECT", .symbol 42, sqlWord "FROM"] (by decide) rfl
  rw [selectConditions_eq]
  exact hwrites

/-- A limit that is not negative is one token. -/
theorem writes_limitClause {limit : Int32} (h : 0 ≤ limit) :
    Writes True (limitClause limit)
      (SqlStatement.limitTokens (if limit = 0 then none else some limit.toInt.toNat)) := by
  unfold limitClause
  by_cases hzero : limit = 0
  · rw [if_neg (not_not.mpr hzero), if_pos hzero]
    exact writes_nil
  · have hnonneg : 0 ≤ limit.toInt := Int32.le_iff_toInt_le.mp h
    have hdecimal : decimal limit.toInt = digits limit.toInt.toNat := by
      rw [← Int.toNat_of_nonneg hnonneg]
      rfl
    rw [if_pos hzero, if_neg hzero, hdecimal]
    exact (writes_digits _).behind (ascii " LIMIT ") [sqlWord "LIMIT"] (by decide) rfl

/-- A negative limit is no token. -/
theorem sqlTokens_limitClause {limit : Int32} (h : ¬ 0 ≤ limit) :
    sqlTokens (beforeZero (limitClause limit)) = none := by
  have hzero : limit ≠ 0 := by
    rintro rfl
    exact h (by decide)
  obtain ⟨n, hn⟩ : ∃ n, limit.toInt = Int.negSucc n := by
    cases hlimit : limit.toInt with
    | ofNat n => exact absurd (Int32.le_iff_toInt_le.mpr (hlimit ▸ Int.natCast_nonneg n)) h
    | negSucc n => exact ⟨n, rfl⟩
  have hminus : beforeZero (decimal limit.toInt) = 45 :: beforeZero (digits (n + 1)) := by
    rw [hn]
    rfl
  rw [limitClause, if_pos hzero, beforeZero_append (by decide), hminus,
    @sqlTokens_append_of_run _ [sqlWord "LIMIT"] rfl, ← sqlTokensFrom_start,
    sqlTokensFrom_cons_of_next _ rfl, sqlTokensFrom_failed]
  rfl

theorem isSeparated_limitClause (limit : Int32) : IsSeparated (limitClause limit) := by
  unfold limitClause
  split
  next => exact isSeparated_cons rfl
  next => exact nofun

end Statements

/-! ## What the server reads -/

/-- The call either selects no rows or says how they are to be ordered. -/
def StatementCall.NamesOrder : StatementCall → Prop
  | .select _ _ orderBy _ => orderBy ≠ []
  | _ => True

/-- The server reads the statement that was asked for, whatever it makes of the order of rows, just
if every name and every value is read as itself and the statement is complete. -/
theorem readsBack_iff (db : CMysql) {call : StatementCall} (h : call.NamesOrder) :
    db.ReadsBack call ↔ db.IsPlain call := by
  cases call with
  | insertExecution table offset keysValues =>
      have hread := (writes_insertStatement db table offset keysValues).readSql_iff nofun
      have hcomplete : (SqlStatement.insert table (insertRow db offset keysValues)).IsComplete :=
        nofun
      rw [and_iff_right hcomplete] at hread
      exact exists_const _ |>.trans hread
  | update table keysValues =>
      have hread := (writes_updateStatement db table keysValues).readSql_iff nofun
      refine (exists_const _).trans (hread.trans ?_)
      simp only [SqlStatement.IsComplete, CMysql.IsPlain, ne_eq, List.map_eq_nil_iff]
      tauto
  | select table conditions orderBy limit =>
      have hconditions := writes_selectConditions table conditions
      have horder : orderClause orderBy = [] := if_neg h
      have hstatement : db.statement (.select table conditions orderBy limit) =
          selectConditions table conditions ++ limitClause limit := by
        rw [CMysql.statement, selectStatement, horder, List.append_nil]
      rw [CMysql.ReadsBack, hstatement]
      constructor
      · rintro ⟨order, hread⟩
        obtain ⟨⟨⟨htable, hcolumns⟩, hne⟩, tail, htail, -⟩ :=
          hconditions.of_readSql_select (isSeparated_limitClause limit) hread
        refine ⟨htable, ⟨fun hnil => hne (by rw [hnil]; rfl), ?_⟩, hcolumns⟩
        by_contra hlimit
        rw [sqlTokens_limitClause hlimit] at htail
        cases htail
      · rintro ⟨htable, ⟨hne, hlimit⟩, hcolumns⟩
        have hwrites : Writes _ _ (db.asked none (.select table conditions orderBy limit)).tokens :=
          hconditions.append (writes_limitClause hlimit) (isSeparated_limitClause limit)
        refine ⟨none, hwrites.readSql_eq ⟨?_, nofun⟩ ⟨⟨htable, hcolumns⟩, trivial⟩⟩
        exact fun hnil => hne (List.map_eq_nil_iff.mp hnil)

def oneColumn (name value : String) : Row :=
  ⟨[(ascii name, ascii value)], List.pairwise_singleton _ _⟩

def jobDatabase : CMysql := ⟨oneColumn "id" "7"⟩

/-- At most five rows of a job, with an order. -/
def fiveRows : StatementCall := .select (ascii "t") (oneColumn "id" "7") (ascii "id") 5

theorem readsBack_fiveRows : jobDatabase.ReadsBack fiveRows := by
  apply (@readsBack_iff jobDatabase fiveRows nofun).mpr
  refine ⟨⟨by decide, by decide⟩, ⟨nofun, by decide⟩, fun column hcolumn => ?_⟩
  rw [List.mem_singleton.mp hcolumn]
  exact ⟨⟨by decide, by decide⟩, by decide, rfl⟩

/-- A value that ends its own text and sets another column. -/
def endsText : StatementCall := .update (ascii "t") (oneColumn "name" "x', `admin`='1")

/-- The server reads two assignments where one was asked for. -/
theorem not_readsBack_endsText :
    readSql (cString (jobDatabase.statement endsText)) =
        some (.update (ascii "t")
          [(ascii "name", .text (ascii "x")), (ascii "admin", .text (ascii "1"))]
          [(ascii "id", .text (ascii "7"))]) ∧
      ¬ jobDatabase.ReadsBack endsText := by
  have hread : readSql (cString (jobDatabase.statement endsText)) =
      some (.update (ascii "t")
        [(ascii "name", .text (ascii "x")), (ascii "admin", .text (ascii "1"))]
        [(ascii "id", .text (ascii "7"))]) := by decide +kernel
  refine ⟨hread, ?_⟩
  rintro ⟨order, hback⟩
  rw [hread] at hback
  cases hback

end MqttClient.Database
