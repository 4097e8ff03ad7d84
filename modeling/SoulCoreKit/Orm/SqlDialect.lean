import Mathlib.Algebra.Group.Nat.Defs
import Mathlib.Data.List.Basic

/-!
# SQL dialects

What the query builder and the repositories ask of an `ISqlDialect`: the spelling of a placeholder, of an
identifier and of a string, the paging clause and the soft-delete configuration. The three classes of the
repository are the constructors of `DialectClass`.
-/

namespace SoulCoreKit.Orm

inductive SqlDialectType where
  | sqlite
  | mySql
  | postgreSql
  | msSql
  | oracle
  deriving DecidableEq, Repr

inductive DialectClass where
  | sqliteDialect
  | mySqlDialect
  | postgreSqlDialect
  deriving DecidableEq, Repr

structure SoftDeleteConfig where
  enabled : Bool := true
  columnName : String := "deleted"
  logicNotDeletedValue : String := "0"
  logicDeletedValue : String := "1"
  deriving DecidableEq, Repr

structure SqlDialect where
  cls : DialectClass
  softDelete : SoftDeleteConfig := {}
  deriving DecidableEq, Repr

namespace SqlDialect

def create : SqlDialectType → Except String SqlDialect
  | .sqlite => .ok { cls := .sqliteDialect }
  | .mySql => .ok { cls := .mySqlDialect }
  | .postgreSql => .ok { cls := .postgreSqlDialect }
  | _ => .error "Unsupported SQL dialect type"

def convertPlaceholder (dialect : SqlDialect) (index : Int32) : String :=
  match dialect.cls with
  | .sqliteDialect => "?"
  | .mySqlDialect => "?"
  | .postgreSqlDialect => "$" ++ toString index

/-- The clause of the classes that have an `OFFSET`. -/
def limitThenOffset (limit offset : Int32) : String :=
  if limit > 0 ∧ offset > 0 then
    "LIMIT " ++ toString limit ++ " OFFSET " ++ toString offset
  else if limit > 0 then
    "LIMIT " ++ toString limit
  else if offset > 0 then
    "OFFSET " ++ toString offset
  else
    ""

def buildLimitOffset (dialect : SqlDialect) (limit offset : Int32) : String :=
  match dialect.cls with
  | .sqliteDialect => limitThenOffset limit offset
  | .mySqlDialect =>
      if limit > 0 ∧ offset > 0 then
        "LIMIT " ++ toString offset ++ ", " ++ toString limit
      else if limit > 0 then
        "LIMIT " ++ toString limit
      else
        ""
  | .postgreSqlDialect => limitThenOffset limit offset

/-- `"\"%1\"".arg(id)`, or with the other quote. -/
def escapeIdentifier (dialect : SqlDialect) (id : String) : String :=
  match dialect.cls with
  | .sqliteDialect => "\"" ++ id ++ "\""
  | .mySqlDialect => "`" ++ id ++ "`"
  | .postgreSqlDialect => "\"" ++ id ++ "\""

/-- `QString::replace` of a single character by a text. -/
def replace (before : Char) (after text : String) : String :=
  String.ofList (text.toList.flatMap fun c => if c = before then after.toList else [c])

def escapeString (dialect : SqlDialect) (str : String) : String :=
  match dialect.cls with
  | .sqliteDialect => "'" ++ replace '\x27' "''" str ++ "'"
  | .mySqlDialect => "'" ++ replace '\x5c' "\\\\" (replace '\x27' "''" str) ++ "'"
  | .postgreSqlDialect => "'" ++ replace '\x27' "''" str ++ "'"

end SqlDialect

end SoulCoreKit.Orm

/-! ### Statements of the generated repository

The texts that `AutoRepository` prepares for the calls that take a field name or a page. What the database
answers is read by code that does not look at the text again. `int` is 32 bits wide and wraps. -/

namespace SoulCoreKit.Data

open SoulCoreKit.Orm

structure AutoRepository where
  mTableName : String
  mDialect : SqlDialect

namespace AutoRepository

/-- The statement of `findByField`. -/
def findByField (repo : AutoRepository) (fieldName : String) : String :=
  "SELECT * FROM " ++ repo.mDialect.escapeIdentifier repo.mTableName ++ " WHERE " ++
    repo.mDialect.escapeIdentifier fieldName ++ " = ?"

/-- The statement of `findAllByField`. -/
def findAllByField (repo : AutoRepository) (fieldName : String) : String :=
  "SELECT * FROM " ++ repo.mDialect.escapeIdentifier repo.mTableName ++ " WHERE " ++
    repo.mDialect.escapeIdentifier fieldName ++ " = ?"

/-- The statement of `pageQuery` before its paging clause. -/
def pageBody (repo : AutoRepository) (orderBy : String) : String :=
  "SELECT * FROM " ++ repo.mDialect.escapeIdentifier repo.mTableName ++
    if orderBy.isEmpty then "" else " ORDER BY " ++ repo.mDialect.escapeIdentifier orderBy

/-- The paging clause of `pageQuery`, with the space before it. -/
def pageClause (repo : AutoRepository) (page pageSize : Int32) : String :=
  let offset := (page - 1) * pageSize
  let limitClause := repo.mDialect.buildLimitOffset pageSize offset
  if limitClause.isEmpty then "" else " " ++ limitClause

/-- The statement of `pageQuery`. -/
def pageQuery (repo : AutoRepository) (page pageSize : Int32) (orderBy : String := "") : String :=
  repo.pageBody orderBy ++ repo.pageClause page pageSize

end AutoRepository

end SoulCoreKit.Data
