import MqttClient.Measurement.Results
import MqttClient.Text.Decimals

/-! # The database wrapper

The wrapper builds its statements by concatenation and sends them over a
connection. An insert of several rows sends one statement a row, and stops at
the first one that fails.
-/

namespace MqttClient.Database

open Text Shadow Measurement

/-- What the wrapper's methods use of `CMysql`: the identifiers, a map. -/
structure CMysql where
  ids : Row

/-- A connection: what has been sent over it, which of the statements succeed, and
what the clock's time zone is when they are built. -/
structure Connection where
  queries : List (List UInt8)
  succeeds : Nat → Bool
  timestampOffset : Nat → Int

namespace CMysql

variable (db : CMysql)

/-! ## Statements -/

/-- The stream `keys` of `insertExecution`. -/
def insertKeys (table : List UInt8) (keysValues : Row) : List UInt8 :=
  ascii "INSERT INTO `" ++ table ++ ascii "` (" ++ ascii "`timestamp_offset`" ++
    (db.ids.columns.flatMap fun id => ascii ", " ++ (ascii "`" ++ id.1 ++ ascii "`")) ++
    (keysValues.columns.flatMap fun column => ascii ", " ++ (ascii "`" ++ column.1 ++ ascii "`"))

/-- The stream `values` of `insertExecution`. -/
def insertValues (offset : Int) (keysValues : Row) : List UInt8 :=
  ascii ") VALUES (" ++ (ascii "'" ++ decimal offset ++ ascii "'") ++
    (db.ids.columns.flatMap fun id => ascii ", " ++ (ascii "'" ++ id.2 ++ ascii "'")) ++
    (keysValues.columns.flatMap fun column =>
      ascii ", " ++
        if column.2 = [] then ascii "NULL" else ascii "'" ++ column.2 ++ ascii "'") ++
    ascii ")"

/-- The statement that `insertExecution` builds. -/
def insertStatement (table : List UInt8) (offset : Int) (keysValues : Row) : List UInt8 :=
  db.insertKeys table keysValues ++ db.insertValues offset keysValues

/-- The loops with the flag `first`: what is put between the elements. -/
def separated {α : Type} (separator : List UInt8) (element : α → List UInt8) :
    Bool → List α → List UInt8
  | _, [] => []
  | first, a :: as =>
      (if first then [] else separator) ++ element a ++ separated separator element false as

/-- An equation of a name and a value. -/
def equation (column : Member) : List UInt8 :=
  ascii "`" ++ column.1 ++ ascii "`='" ++ column.2 ++ ascii "'"

/-- What `update` sets a column to. -/
def assignment (column : Member) : List UInt8 :=
  if column.2 = ascii "CURRENT_TIMESTAMP" then
    ascii "`" ++ column.1 ++ ascii "`= CURRENT_TIMESTAMP"
  else equation column

/-- The statement that `update` builds. -/
def updateStatement (table : List UInt8) (keysValues : Row) : List UInt8 :=
  ascii "UPDATE `" ++ table ++ ascii "` SET " ++
    separated (ascii ", ") assignment true keysValues.columns ++ ascii " WHERE " ++
    separated (ascii " AND ") equation true db.ids.columns

end CMysql

/-- The statement that `select` builds, as far as the conditions. -/
def selectConditions (table : List UInt8) (conditions : Row) : List UInt8 :=
  ascii "SELECT * FROM `" ++ table ++ ascii "` WHERE " ++
    CMysql.separated (ascii " AND ") CMysql.equation true conditions.columns

/-- `if (!orderBy.compare("")) query << " ORDER BY " << orderBy`. -/
def orderClause (orderBy : List UInt8) : List UInt8 :=
  if orderBy = [] then ascii " ORDER BY " ++ orderBy else []

def limitClause (limit : Int32) : List UInt8 :=
  if limit ≠ 0 then ascii " LIMIT " ++ decimal limit.toInt else []

/-- The statement that `select` builds. -/
def selectStatement (table : List UInt8) (conditions : Row) (orderBy : List UInt8)
    (limit : Int32) : List UInt8 :=
  selectConditions table conditions ++ orderClause orderBy ++ limitClause limit

namespace CMysql

variable (db : CMysql)

/-! ## Inserting rows -/

/-- `mysql_query`: the C string of the statement is sent; whether it succeeds. -/
def mysqlQuery (connection : Connection) (query : List UInt8) : Bool × Connection :=
  (connection.succeeds connection.queries.length,
    { connection with queries := connection.queries ++ [cString query] })

def insertExecution (table : List UInt8) (keysValues : Row) (connection : Connection) :
    Int32 × Connection :=
  let offset := connection.timestampOffset connection.queries.length
  match mysqlQuery connection (db.insertStatement table offset keysValues) with
  | (true, connection) => (0, connection)
  | (false, connection) => (-1, connection)

/-- The loop of `insertVector`; `it` is at this distance from the first row. -/
def insertFrom (table : List UInt8) : Nat → List Row → Connection → Int32 × Connection
  | _, [], connection => (0, connection)
  | distance, row :: rows, connection =>
      let r := db.insertExecution table row connection
      if r.1 ≠ 0 then (Int32.ofNat distance, r.2)
      else insertFrom table (distance + 1) rows r.2

/-- `insertVector`, over a connection that has been made. -/
def insertVector (table : List UInt8) (keysValuesVector : List Row) (connection : Connection) :
    Int32 × Connection := db.insertFrom table 0 keysValuesVector connection

/-! ## What the result says -/

/-- The connection over which the inserts of these rows have been sent. -/
def sending (table : List UInt8) : List Row → Connection → Connection
  | [], connection => connection
  | row :: rows, connection =>
      sending table rows (db.insertExecution table row connection).2

end CMysql

/-- The position of the first of the next `n` statements that is going to fail. -/
def Connection.failing (connection : Connection) (n : Nat) : Option Nat :=
  (List.range n).find? fun i => !connection.succeeds (connection.queries.length + i)

namespace CMysql

variable (db : CMysql)

/-- Zero says that every insert has succeeded; else the result is the position of
the first one that has failed, and no row behind it has been attempted. -/
structure Reports (table : List UInt8) (rows : List Row) (connection : Connection)
    (r : Int32 × Connection) : Prop where
  success : r.1 = 0 ↔ connection.failing rows.length = none
  position : ∀ j, connection.failing rows.length = some j →
    r.1.toInt = j ∧ r.2 = db.sending table (rows.take (j + 1)) connection

variable {db} {table : List UInt8} {row : Row} {connection : Connection}

theorem insertExecution_of_succeeds
    (h : connection.succeeds connection.queries.length = true) :
    (db.insertExecution table row connection).1 = 0 := by
  unfold insertExecution mysqlQuery
  rw [h]

theorem insertExecution_of_not_succeeds
    (h : connection.succeeds connection.queries.length = false) :
    (db.insertExecution table row connection).1 = -1 := by
  unfold insertExecution mysqlQuery
  rw [h]

/-- An insert is one more statement. -/
theorem insertExecution_connection :
    (db.insertExecution table row connection).2 =
      (mysqlQuery connection (db.insertStatement table
        (connection.timestampOffset connection.queries.length) row)).2 := by
  unfold insertExecution mysqlQuery
  cases connection.succeeds connection.queries.length <;> rfl

theorem failing_succ_of_not_succeeds (n : Nat)
    (h : connection.succeeds connection.queries.length = false) :
    connection.failing (n + 1) = some 0 := by
  rw [Connection.failing, List.range_succ_eq_map, List.find?_cons_of_pos]
  rw [Nat.add_zero, h]
  rfl

/-- Behind a statement that succeeds the positions are those of the other statements. -/
theorem failing_succ_of_succeeds (db : CMysql) (table : List UInt8) (row : Row) (n : Nat)
    (h : connection.succeeds connection.queries.length = true) :
    connection.failing (n + 1) =
      ((db.insertExecution table row connection).2.failing n).map (· + 1) := by
  rw [insertExecution_connection, Connection.failing, List.range_succ_eq_map,
    List.find?_cons_of_neg, List.find?_map]
  · congr 1
    apply congrArg (List.find? · (List.range n))
    ext i
    simp only [Function.comp_apply, mysqlQuery, List.length_append, List.length_singleton]
    rw [Nat.succ_eq_add_one, Nat.add_assoc, Nat.add_comm 1 i]
  · rw [Nat.add_zero, h]
    exact Bool.false_ne_true

/-- The loop sends the inserts up to the first one that fails. -/
theorem insertFrom_eq (rows : List Row) (distance : Nat) (connection : Connection) :
    db.insertFrom table distance rows connection =
      match connection.failing rows.length with
      | none => (0, db.sending table rows connection)
      | some j =>
          (Int32.ofNat (distance + j), db.sending table (rows.take (j + 1)) connection) := by
  induction rows generalizing distance connection with
  | nil => rfl
  | cons row rows ih =>
      rw [insertFrom, List.length_cons]
      cases h : connection.succeeds connection.queries.length with
      | false =>
          rw [failing_succ_of_not_succeeds _ h, if_pos]
          · rfl
          · rw [insertExecution_of_not_succeeds h]
            decide
      | true =>
          rw [failing_succ_of_succeeds db table row _ h,
            if_neg (not_not.mpr (insertExecution_of_succeeds h)), ih]
          cases (db.insertExecution table row connection).2.failing rows.length with
          | none => rfl
          | some j =>
              simp only [Option.map_some]
              rw [Nat.add_assoc, Nat.add_comm 1 j]
              rfl

/-- The result of `insertVector` says which insert has failed, unless it was the first one or its
position is not an `int`. -/
theorem reports_iff (db : CMysql) (table : List UInt8) (rows : List Row) (connection : Connection) :
    db.Reports table rows connection (db.insertVector table rows connection) ↔
      ∀ j, connection.failing rows.length = some j → 0 < j ∧ j < 2 ^ 31 := by
  rw [insertVector, insertFrom_eq]
  cases hfailing : connection.failing rows.length with
  | none =>
      refine iff_of_true ⟨?_, ?_⟩ nofun
      · rw [hfailing]
        exact iff_of_true rfl rfl
      · rw [hfailing]
        exact nofun
  | some j =>
      simp only [Nat.zero_add, Option.some.injEq, forall_eq']
      constructor
      · intro h
        have hposition := (h.position j hfailing).1
        have hlt := (Int32.ofNat j).toInt_lt
        constructor
        · -- a first insert that fails is reported as a success
          apply Nat.pos_of_ne_zero
          rintro rfl
          have hsuccess := h.success.mp rfl
          rw [hfailing] at hsuccess
          cases hsuccess
        · simp only at hposition
          omega
      · rintro ⟨hpos, hlt⟩
        have htoInt : (Int32.ofNat j).toInt = j := Int32.toInt_ofNat_of_lt hlt
        refine ⟨?_, ?_⟩
        · rw [hfailing]
          refine iff_of_false (fun hzero => ?_) nofun
          simp only at hzero
          rw [hzero] at htoInt
          exact absurd htoInt (by rw [Int32.toInt_zero]; omega)
        · rw [hfailing]
          rintro _ ⟨⟩
          exact ⟨htoInt, rfl⟩

end CMysql

/-- One row, whose insert fails. -/
def failingConnection : Connection := ⟨[], fun _ => false, fun _ => 3600⟩

def emptyRow : Row := ⟨[], .nil⟩

/-- The result is the same as that of a success. -/
theorem not_reports_failingConnection :
    ¬ ∀ (db : CMysql) (table : List UInt8) (rows : List Row) (connection : Connection),
      db.Reports table rows connection (db.insertVector table rows connection) := by
  intro h
  have hreports := (h ⟨emptyRow⟩ (ascii "t") [emptyRow] failingConnection).success.mp rfl
  cases hreports

end MqttClient.Database
