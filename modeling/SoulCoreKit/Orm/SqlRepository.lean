import SoulCoreKit.Core.Result
import SoulCoreKit.Lib.PlaceMarkers
import SoulCoreKit.Orm.QueryWrapper

/-!
# The SQL repository

`SqlRepository::save` over a table. An entity class is the part of `Entity<Derived>` the repository
calls: the hooks, which a class may override and which may throw, the field table and the properties.
A generated statement keeps its columns and placeholders apart; `render` gives its text. The primary key
is not given twice, and an `UPDATE` that matches no row succeeds with no row affected. A statement that
names a column twice is an error in the SQL standard, and in PostgreSQL; SQLite executes it, and MySQL
does where it is an `UPDATE`.
-/

namespace SoulCoreKit.Orm

/-! ### Entities -/

structure FieldMeta where
  columnName : String
  isPrimaryKey : Bool := false
  deriving DecidableEq, Repr

/-- `fields` is in the order of the map. -/
structure TableMeta where
  fields : List (String × FieldMeta)
  distinct : (fields.map Prod.fst).Nodup

structure Entity (D Time : Type) where
  id : String
  createTime : Time
  updateTime : Time
  deleted : Int32 := 0
  derived : D

/-- What a class derived from `Entity` supplies. The hooks see the readings of the clock they make. -/
structure EntityClass (D Time P : Type) where
  tableName : String
  getTableMeta : Entity D Time → TableMeta
  getProperty : Entity D Time → String → QVariant P
  beforeInsert : (Nat → Time) → Entity D Time → Except String (Entity D Time) := fun clock e =>
    .ok { e with createTime := clock 0, updateTime := clock 1 }
  beforeUpdate : (Nat → Time) → Entity D Time → Except String (Entity D Time) := fun clock e =>
    .ok { e with updateTime := clock 0 }

/-! ### Statements -/

/-- The text written for a value: a placeholder, or a literal. -/
inductive Slot where
  | param (index : Nat)
  | literal (text : String)
  deriving DecidableEq, Repr

inductive Statement where
  | insert (table : String) (columns : List String) (values : List Slot)
  | update (table : String) (setClauses : List (String × Slot)) (id : Slot)
  deriving DecidableEq, Repr

def Slot.render (dialect : SqlDialect) : Slot → String
  | .param index => dialect.convertPlaceholder (Int32.ofNat index)
  | .literal text => text

def Statement.render (dialect : SqlDialect) : Statement → String
  | .insert table columns values =>
      "INSERT INTO " ++ table ++ "(" ++ ",".intercalate columns ++ ") VALUES (" ++
        ",".intercalate (values.map (Slot.render dialect)) ++ ")"
  | .update table setClauses id =>
      "UPDATE " ++ table ++ " SET " ++
        ",".intercalate (setClauses.map fun clause => clause.1 ++ " = " ++ clause.2.render dialect) ++
        " WHERE id = " ++ id.render dialect

/-- `QString::arg`. -/
def arg (text argument : String) : String :=
  String.ofList (PlaceMarkers.arg text.toList argument.toList)

/-- The text as `generateInsertSql` and `generateUpdateSql` put it together, with `arg` for each part. The
clause of `update_time` has its column in the template. -/
def Statement.text (dialect : SqlDialect) : Statement → String
  | .insert table columns values =>
      arg (arg (arg "INSERT INTO %1(%2) VALUES (%3)" table) (",".intercalate columns))
        (",".intercalate (values.map (Slot.render dialect)))
  | .update table setClauses id =>
      arg (arg (arg "UPDATE %1 SET %2 WHERE id = %3" table)
          (",".intercalate (setClauses.map fun clause =>
            arg (arg "%1 = %2" clause.1) (clause.2.render dialect))))
        (id.render dialect)

/-! ### The table -/

section Database

variable {P : Type} [DecidableEq P]

/-- What the database makes of names and literals. -/
structure Engine (P : Type) where
  /-- Two names of a column that this sends to one are the same column. -/
  ident : String → String
  literal : String → QVariant P
  ofInt : Int32 → P
  defaultValue : String → QVariant P

abbrev Row (P : Type) := String → QVariant P

/-- Rows by the value of their column `id`. -/
structure Table (engine : Engine P) where
  rows : QVariant P → Option (Row P)
  keyed : ∀ key row, rows key = some row → row (engine.ident "id") = key

/-- A row with new values in some columns, where the first value given to a column counts. -/
def Row.assign (assignments : List (String × QVariant P)) (row : Row P) : Row P := fun column =>
  (assignments.lookup column).getD (row column)

namespace Table

variable {engine : Engine P}

/-- The table without the row of one key and with another row under its own. -/
def replace (table : Table engine) (key : QVariant P) (row : Row P) : Table engine where
  rows := Function.update (Function.update table.rows key none) (row (engine.ident "id")) (some row)
  keyed := by
    intro other stored hstored
    by_cases hkey : other = row (engine.ident "id")
    · subst hkey
      rw [Function.update_self, Option.some.injEq] at hstored
      rw [hstored]
    · rw [Function.update_of_ne hkey] at hstored
      by_cases hold : other = key
      · rw [hold, Function.update_self] at hstored
        cases hstored
      · rw [Function.update_of_ne hold] at hstored
        exact table.keyed other stored hstored

/-- `INSERT`, with the number of rows affected. SQLite keeps the first value of a column. -/
def insert (cls : DialectClass) (table : Table engine) (assignments : List (String × QVariant P)) :
    Option (Nat × Table engine) :=
  let row := Row.assign assignments engine.defaultValue
  if (cls = .sqliteDialect ∨ (assignments.map Prod.fst).Nodup) ∧
      table.rows (row (engine.ident "id")) = none then
    some (1, table.replace (row (engine.ident "id")) row)
  else
    none

/-- `UPDATE … WHERE id =`, with the number of rows affected. SQLite and MySQL keep the last value of a
column. -/
def update (cls : DialectClass) (table : Table engine) (assignments : List (String × QVariant P))
    (id : QVariant P) : Option (Nat × Table engine) :=
  if cls ≠ .postgreSqlDialect ∨ (assignments.map Prod.fst).Nodup then
    match table.rows id with
    | none => some (0, table)
    | some row =>
        let row := Row.assign assignments.reverse row
        if row (engine.ident "id") = id ∨ table.rows (row (engine.ident "id")) = none then
          some (1, table.replace id row)
        else
          none
  else
    none

end Table

/-- `?` takes the parameters in turn. -/
def bindPositional (engine : Engine P) : List Slot → List (QVariant P) → Option (List (QVariant P))
  | [], [] => some []
  | [], _ :: _ => none
  | .param _ :: _, [] => none
  | .param _ :: slots, value :: params => (bindPositional engine slots params).map (value :: ·)
  | .literal text :: slots, params => (bindPositional engine slots params).map (engine.literal text :: ·)

/-- `$n` takes the parameter of its number. -/
def bindIndexed (engine : Engine P) (params : List (QVariant P)) :
    List Slot → Option (List (QVariant P))
  | [] => some []
  | .param index :: slots =>
      match params[index - 1]?, bindIndexed engine params slots with
      | some value, some values => some (value :: values)
      | _, _ => none
  | .literal text :: slots => (bindIndexed engine params slots).map (engine.literal text :: ·)

def bindSlots (engine : Engine P) (cls : DialectClass) (slots : List Slot)
    (params : List (QVariant P)) : Option (List (QVariant P)) :=
  match cls with
  | .sqliteDialect => bindPositional engine slots params
  | .mySqlDialect => bindPositional engine slots params
  | .postgreSqlDialect => bindIndexed engine params slots

/-- What a statement does to the table, if it can be executed. -/
def Statement.execute {engine : Engine P} (cls : DialectClass) (table : Table engine)
    (params : List (QVariant P)) : Statement → Option (Nat × Table engine)
  | .insert _ columns slots =>
      match bindSlots engine cls slots params with
      | none => none
      | some values => table.insert cls ((columns.map engine.ident).zip values)
  | .update _ setClauses id =>
      match bindSlots engine cls (setClauses.map Prod.snd ++ [id]) params with
      | none => none
      | some values =>
          match values.getLast? with
          | none => none
          | some key =>
              table.update cls ((setClauses.map fun clause => engine.ident clause.1).zip values.dropLast)
                key

end Database

/-! ### The repository -/

namespace SqlRepository

variable {D Time P : Type} [DecidableEq P]

/-- What the world answers during one call. -/
structure Environment (Time : Type) where
  acquire : Result Unit
  refusal : Option Error
  lastError : String
  uuid : String
  clock : Nat → Time

section Generate

variable (cls : EntityClass D Time P) (dialect : SqlDialect) (isoDate : Time → String)

def baseFields : List String := ["createTime", "updateTime", "deleted"]

/-- The fields the loops over the field table do not skip. -/
def ownFields (tableMeta : TableMeta) : List (String × FieldMeta) :=
  tableMeta.fields.filter fun field => !field.2.isPrimaryKey && !baseFields.contains field.1

/-- The placeholders of as many parameters, the first with this index. -/
def placeholders : Nat → Nat → List Slot
  | _, 0 => []
  | paramIndex, n + 1 => .param paramIndex :: placeholders (paramIndex + 1) n

def generateInsertSql (entity : Entity D Time) : Statement :=
  let own := ownFields (cls.getTableMeta entity)
  .insert cls.tableName
    ("id" :: own.map (fun field => field.2.columnName) ++
      ["create_time", "update_time", dialect.softDelete.columnName])
    (.param 1 :: placeholders 2 own.length ++
      [.param (own.length + 2), .param (own.length + 3),
        .literal dialect.softDelete.logicNotDeletedValue])

def collectInsertParams (entity : Entity D Time) : List (QVariant P) :=
  .string entity.id ::
    (ownFields (cls.getTableMeta entity)).map (fun field => cls.getProperty entity field.1) ++
      [.string (isoDate entity.createTime), .string (isoDate entity.updateTime)]

def generateUpdateSql (entity : Entity D Time) : Statement :=
  let own := ownFields (cls.getTableMeta entity)
  .update cls.tableName
    ((own.map fun field => field.2.columnName).zip (placeholders 1 own.length) ++
      [("update_time", .param (own.length + 1))])
    (.param (own.length + 2))

def collectUpdateParams (entity : Entity D Time) : List (QVariant P) :=
  (ownFields (cls.getTableMeta entity)).map (fun field => cls.getProperty entity field.1) ++
    [.string (isoDate entity.updateTime), .string entity.id]

end Generate

section Save

variable {engine : Engine P} (env : Environment Time) (cls : EntityClass D Time P)
  (dialect : SqlDialect) (isoDate : Time → String)

/-- `executeUpdate` of the driver. -/
def executeUpdate (table : Table engine) (statement : Statement) (params : List (QVariant P)) :
    Result Nat × Table engine :=
  match env.refusal with
  | some error => (.error error, table)
  | none =>
      match statement.execute dialect.cls table params with
      | none => (.error ⟨.queryFailed, env.lastError⟩, table)
      | some (affected, table) => (.ok affected, table)

/-- The body that `insertInternal` and `updateInternal` share. -/
def executeInternal (table : Table engine) (entity : Entity D Time) (statement : Statement)
    (params : List (QVariant P)) : Result (Entity D Time) × Table engine :=
  match env.acquire with
  | .error error => (.error ⟨.databaseError, error.message⟩, table)
  | .ok _ =>
      match executeUpdate env dialect table statement params with
      | (.error error, table) => (.error ⟨.databaseError, error.message⟩, table)
      | (.ok _, table) => (.ok entity, table)

def insertInternal (table : Table engine) (entity : Entity D Time) :
    Result (Entity D Time) × Table engine :=
  executeInternal env dialect table entity (generateInsertSql cls dialect entity)
    (collectInsertParams cls isoDate entity)

def updateInternal (table : Table engine) (entity : Entity D Time) :
    Result (Entity D Time) × Table engine :=
  executeInternal env dialect table entity (generateUpdateSql cls entity)
    (collectUpdateParams cls isoDate entity)

def save (table : Table engine) (entity : Entity D Time) : Result (Entity D Time) × Table engine :=
  if entity.id.isEmpty then
    match cls.beforeInsert env.clock { entity with id := env.uuid } with
    | .error what => (.error ⟨.databaseError, what⟩, table)
    | .ok e => insertInternal env cls dialect isoDate table e
  else
    match cls.beforeUpdate env.clock entity with
    | .error what => (.error ⟨.databaseError, what⟩, table)
    | .ok e => updateInternal env cls dialect isoDate table e

end Save

end SqlRepository

end SoulCoreKit.Orm

/-! ### The read-write repository

The four functions of `ReadWriteRepository` that generate an `INSERT` or an `UPDATE` and collect its
parameters. They are written apart from those of `SqlRepository`, and the `UPDATE` counts its placeholders
from zero and increments before each use. -/


namespace SoulCoreKit.Orm.ReadWriteRepository

variable {D Time P : Type}

def baseFields : List String := ["createTime", "updateTime", "deleted"]

/-- The loop of `generateInsertSql`: the columns, the placeholders and the counter after them. -/
def insertLoop : Nat → List (String × FieldMeta) → List String × List Slot × Nat
  | paramIndex, [] => ([], [], paramIndex)
  | paramIndex, (name, field) :: rest =>
      if field.isPrimaryKey then insertLoop paramIndex rest
      else if baseFields.contains name then insertLoop paramIndex rest
      else
        let (columns, placeholders, next) := insertLoop (paramIndex + 1) rest
        (field.columnName :: columns, .param paramIndex :: placeholders, next)

def generateInsertSql (tableName : String) (dialect : SqlDialect) (tableMeta : TableMeta) : Statement :=
  let (columns, placeholders, paramIndex) := insertLoop 2 tableMeta.fields
  .insert tableName
    ("id" :: columns ++ ["create_time", "update_time", dialect.softDelete.columnName])
    (.param 1 :: placeholders ++
      [.param paramIndex, .param (paramIndex + 1), .literal dialect.softDelete.logicNotDeletedValue])

/-- The loop of `collectInsertParams` and `collectUpdateParams`. -/
def collectLoop (getProperty : String → QVariant P) : List (String × FieldMeta) → List (QVariant P)
  | [] => []
  | (name, field) :: rest =>
      if field.isPrimaryKey then collectLoop getProperty rest
      else if baseFields.contains name then collectLoop getProperty rest
      else getProperty name :: collectLoop getProperty rest

def collectInsertParams (cls : EntityClass D Time P) (isoDate : Time → String) (entity : Entity D Time) :
    List (QVariant P) :=
  .string entity.id :: collectLoop (cls.getProperty entity) (cls.getTableMeta entity).fields ++
    [.string (isoDate entity.createTime), .string (isoDate entity.updateTime)]

/-- The loop of `generateUpdateSql`: the clauses and the counter after them. -/
def updateLoop : Nat → List (String × FieldMeta) → List (String × Slot) × Nat
  | paramIdx, [] => ([], paramIdx)
  | paramIdx, (name, field) :: rest =>
      if field.isPrimaryKey then updateLoop paramIdx rest
      else if baseFields.contains name then updateLoop paramIdx rest
      else
        let (clauses, next) := updateLoop (paramIdx + 1) rest
        ((field.columnName, .param (paramIdx + 1)) :: clauses, next)

def generateUpdateSql (tableName : String) (tableMeta : TableMeta) : Statement :=
  let (numberedClauses, paramIdx) := updateLoop 0 tableMeta.fields
  .update tableName (numberedClauses ++ [("update_time", .param (paramIdx + 1))]) (.param (paramIdx + 2))

def collectUpdateParams (cls : EntityClass D Time P) (isoDate : Time → String) (entity : Entity D Time) :
    List (QVariant P) :=
  collectLoop (cls.getProperty entity) (cls.getTableMeta entity).fields ++
    [.string (isoDate entity.updateTime), .string entity.id]

/-- The text as these functions put it together: the clauses of an `UPDATE` are concatenated, and joined
with a space after each comma. -/
def text (dialect : SqlDialect) : Statement → String
  | .insert table columns values =>
      arg (arg (arg "INSERT INTO %1(%2) VALUES (%3)" table) (",".intercalate columns))
        (",".intercalate (values.map (Slot.render dialect)))
  | .update table setClauses id =>
      arg (arg (arg "UPDATE %1 SET %2 WHERE id = %3" table)
          (", ".intercalate (setClauses.map fun clause => clause.1 ++ " = " ++ clause.2.render dialect)))
        (id.render dialect)

end SoulCoreKit.Orm.ReadWriteRepository
