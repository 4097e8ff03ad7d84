import SoulCoreKit.Orm.SqlDialect

/-!
# The query builder

`orm::QueryWrapper`. The text under construction is kept as the list of pieces appended to it, so
that the parentheses and the placeholders the builder writes are told apart from what a caller's names
contain; `render` gives the characters. A placeholder remembers what it was written for, which no
function reads. `int` is 32 bits wide and wraps. The counters of parentheses are natural numbers: each
unit is a call nested in another one on the call stack.
-/

namespace SoulCoreKit.Orm

inductive SqlKeyword where
  | eq
  | ne
  | gt
  | ge
  | lt
  | le
  | like
  | notLike
  | likeLeft
  | likeRight
  | in_
  | notIn
  | isNull
  | isNotNull
  | and
  | or
  deriving DecidableEq, Repr

/-- A `QVariant`: nothing, a string, or a value of one of the other types. -/
inductive QVariant (T : Type) where
  | invalid
  | string (value : String)
  | other (value : T)
  deriving DecidableEq, Repr

structure Condition (T : Type) where
  column : String
  op : SqlKeyword
  value : QVariant T := .invalid
  logic : SqlKeyword := .and
  inValues : List (QVariant T) := []
  openParens : Nat := 0
  closeParens : Nat := 0
  deriving DecidableEq, Repr

/-- What a placeholder stands for: a value, or the time of the update. -/
inductive Bind (T : Type) where
  | value (value : QVariant T)
  | updateTime
  deriving DecidableEq, Repr

inductive Piece (T : Type) where
  | text (text : String)
  | lparen
  | rparen
  | param (index : Int32) (bind : Bind T)
  deriving DecidableEq, Repr

abbrev Sql (T : Type) := List (Piece T)

structure QueryWrapper (T : Type) where
  mConditions : List (Condition T) := []
  mOrderBy : List String := []
  mGroupBy : List String := []
  mLimit : Int32 := -1
  mOffset : Int32 := -1
  mAllowFullTable : Bool := false
  mDialect : Option SqlDialect := none

namespace QueryWrapper

variable {T : Type}

/-! ### The fluent calls -/

def pushCondition (q : QueryWrapper T) (cond : Condition T) : QueryWrapper T :=
  { q with mConditions := q.mConditions ++ [cond] }

def eq (q : QueryWrapper T) (column : String) (value : QVariant T) : QueryWrapper T :=
  q.pushCondition { column, op := .eq, value }

def ne (q : QueryWrapper T) (column : String) (value : QVariant T) : QueryWrapper T :=
  q.pushCondition { column, op := .ne, value }

def gt (q : QueryWrapper T) (column : String) (value : QVariant T) : QueryWrapper T :=
  q.pushCondition { column, op := .gt, value }

def ge (q : QueryWrapper T) (column : String) (value : QVariant T) : QueryWrapper T :=
  q.pushCondition { column, op := .ge, value }

def lt (q : QueryWrapper T) (column : String) (value : QVariant T) : QueryWrapper T :=
  q.pushCondition { column, op := .lt, value }

def le (q : QueryWrapper T) (column : String) (value : QVariant T) : QueryWrapper T :=
  q.pushCondition { column, op := .le, value }

def like (q : QueryWrapper T) (column value : String) : QueryWrapper T :=
  q.pushCondition { column, op := .like, value := .string ("%" ++ value ++ "%") }

def notLike (q : QueryWrapper T) (column value : String) : QueryWrapper T :=
  q.pushCondition { column, op := .notLike, value := .string ("%" ++ value ++ "%") }

def likeLeft (q : QueryWrapper T) (column value : String) : QueryWrapper T :=
  q.pushCondition { column, op := .like, value := .string ("%" ++ value) }

def likeRight (q : QueryWrapper T) (column value : String) : QueryWrapper T :=
  q.pushCondition { column, op := .like, value := .string (value ++ "%") }

/-- The body of `in` and `notIn`. -/
def pushList (q : QueryWrapper T) (op : SqlKeyword) (column : String)
    (values : List (QVariant T)) : QueryWrapper T :=
  q.pushCondition { column, op, inValues := values, value := values.head?.getD .invalid }

def in_ (q : QueryWrapper T) (column : String) (values : List (QVariant T)) : QueryWrapper T :=
  q.pushList .in_ column values

def notIn (q : QueryWrapper T) (column : String) (values : List (QVariant T)) : QueryWrapper T :=
  q.pushList .notIn column values

def isNull (q : QueryWrapper T) (column : String) : QueryWrapper T :=
  q.pushCondition { column, op := .isNull }

def isNotNull (q : QueryWrapper T) (column : String) : QueryWrapper T :=
  q.pushCondition { column, op := .isNotNull }

def openFront : List (Condition T) → List (Condition T)
  | [] => []
  | cond :: rest => { cond with openParens := cond.openParens + 1 } :: rest

def closeBack : List (Condition T) → List (Condition T)
  | [] => []
  | [cond] => [{ cond with closeParens := cond.closeParens + 1 }]
  | cond :: next :: rest => cond :: closeBack (next :: rest)

/-- Parentheses around a group of more than one condition. -/
def parenthesize (conditions : List (Condition T)) : List (Condition T) :=
  if conditions.length > 1 then closeBack (openFront conditions) else conditions

def setFrontLogic (logic : SqlKeyword) : List (Condition T) → List (Condition T)
  | [] => []
  | cond :: rest => { cond with logic } :: rest

/-- The loop over the group sets the tag of every condition, not of the first one only. -/
def and_ (q : QueryWrapper T) (func : QueryWrapper T → QueryWrapper T) : QueryWrapper T :=
  let sub := func {}
  let group := (parenthesize sub.mConditions).map fun cond => { cond with logic := .and }
  { q with mConditions := q.mConditions ++ group }

def or_ (q : QueryWrapper T) (func : QueryWrapper T → QueryWrapper T) : QueryWrapper T :=
  let sub := func {}
  let group := setFrontLogic .or (parenthesize sub.mConditions)
  { q with mConditions := q.mConditions ++ group }

def orderBy (q : QueryWrapper T) (column : String) (asc : Bool := true) : QueryWrapper T :=
  { q with mOrderBy := q.mOrderBy ++ [column ++ if asc then " ASC" else " DESC"] }

def groupBy (q : QueryWrapper T) (column : String) : QueryWrapper T :=
  { q with mGroupBy := q.mGroupBy ++ [column] }

def limit (q : QueryWrapper T) (size : Int32) : QueryWrapper T := { q with mLimit := size }

def offset (q : QueryWrapper T) (offset : Int32) : QueryWrapper T := { q with mOffset := offset }

def allowFullTableOperation (q : QueryWrapper T) (allow : Bool := true) : QueryWrapper T :=
  { q with mAllowFullTable := allow }

/-! ### The text -/

def placeholder (q : QueryWrapper T) (index : Int32) : String :=
  match q.mDialect with
  | some dialect => dialect.convertPlaceholder index
  | none => "?"

def renderPiece (q : QueryWrapper T) : Piece T → String
  | .text text => text
  | .lparen => "("
  | .rparen => ")"
  | .param index _ => q.placeholder index

/-- The characters of the text. -/
def render (q : QueryWrapper T) (sql : Sql T) : String := String.join (sql.map q.renderPiece)

theorem render_append (q : QueryWrapper T) (first second : Sql T) :
    q.render (first ++ second) = q.render first ++ q.render second := by
  apply String.toList_inj.mp
  simp [render]

/-- `contains("WHERE", Qt::CaseInsensitive)`: no character outside ASCII folds to one of its letters. -/
def containsWhere (text : String) : Bool :=
  (text.toList.map Char.toLower).tails.any fun tail => "where".toList.isPrefixOf tail

def opToString : SqlKeyword → String
  | .eq => "="
  | .ne => "<>"
  | .gt => ">"
  | .ge => ">="
  | .lt => "<"
  | .le => "<="
  | .like => "LIKE"
  | .notLike => "NOT LIKE"
  | .in_ => "IN"
  | .notIn => "NOT IN"
  | .isNull => "IS NULL"
  | .isNotNull => "IS NOT NULL"
  | _ => "="

/-- One placeholder for each value, numbered from the index. -/
def placeholders : Int32 → List (QVariant T) → List (Piece T)
  | _, [] => []
  | index, value :: rest => .param index (.value value) :: placeholders (index + 1) rest

/-- `QStringList::join`. -/
def join (separator : String) (parts : List (Sql T)) : Sql T :=
  (parts.intersperse [.text separator]).flatten

/-- The number of placeholders in the list of an `IN`. -/
def inCount (cond : Condition T) : Int32 :=
  if cond.inValues.isEmpty then 1 else Int32.ofNat cond.inValues.length

/-- The clause, and the index after it. The loop over the list runs while an `int` is below the
count. -/
def buildValueClause (cond : Condition T) (index : Int32) : Sql T × Int32 :=
  if cond.op = .isNull ∨ cond.op = .isNotNull then
    ([], index)
  else if cond.op = .in_ ∨ cond.op = .notIn then
    let values := if cond.inValues.isEmpty then [cond.value] else cond.inValues
    let list := placeholders index (values.take (inCount cond).toNatClampNeg)
    ([.lparen] ++ join "," (list.map fun piece => [piece]) ++ [.rparen],
      index + Int32.ofNat list.length)
  else
    ([.param index (.value cond.value)], index + 1)

def conditionStr (cond : Condition T) (valueClause : Sql T) : Sql T :=
  if valueClause.isEmpty then
    [.text (cond.column ++ " " ++ opToString cond.op)]
  else
    [.text (cond.column ++ " " ++ opToString cond.op ++ " ")] ++ valueClause

def logicStr (cond : Condition T) : String := if cond.logic = .or then " OR " else " AND "

/-- The loop of `appendConditions`: what it appends from the `i`-th condition on. -/
def conditionsText (i : Nat) (placeholderIndex : Int32) : List (Condition T) → Sql T
  | [] => []
  | cond :: rest =>
      let (valueClause, placeholderIndex) := buildValueClause cond placeholderIndex
      (if i = 0 then [] else [.text (logicStr cond)]) ++
        List.replicate cond.openParens .lparen ++
        conditionStr cond valueClause ++
        List.replicate cond.closeParens .rparen ++
        conditionsText (i + 1) placeholderIndex rest

def hasOr (q : QueryWrapper T) : Bool := q.mConditions.any fun cond => cond.logic = .or

def appendConditions (q : QueryWrapper T) (sql : Sql T) (startIndex : Int32 := 1) : Sql T :=
  if q.mConditions.isEmpty then
    sql
  else
    let hasWhere := containsWhere (q.render sql)
    let lead := if hasWhere then " AND " else " WHERE "
    sql ++ [.text lead] ++ (if q.hasOr then [.lparen] else []) ++
      conditionsText 0 startIndex q.mConditions ++
      (if q.hasOr then [.rparen] else [])

def softDeleteConfig (q : QueryWrapper T) : SoftDeleteConfig :=
  match q.mDialect with
  | some dialect => dialect.softDelete
  | none => {}

/-- `WHERE` the row is not deleted. -/
def notDeleted (sd : SoftDeleteConfig) : String :=
  " WHERE " ++ sd.columnName ++ " = " ++ sd.logicNotDeletedValue

def limitOffset (q : QueryWrapper T) : String :=
  match q.mDialect with
  | some dialect => dialect.buildLimitOffset q.mLimit q.mOffset
  | none =>
      if q.mLimit > 0 ∧ q.mOffset > 0 then
        "LIMIT " ++ toString q.mLimit ++ " OFFSET " ++ toString q.mOffset
      else if q.mLimit > 0 then
        "LIMIT " ++ toString q.mLimit
      else
        "OFFSET " ++ toString q.mOffset

def buildSelectSql (q : QueryWrapper T) (tableName : String) : Sql T :=
  let sd := q.softDeleteConfig
  let sql : Sql T := [.text ("SELECT * FROM " ++ tableName)]
  let sql := if sd.enabled then sql ++ [.text (notDeleted sd)] else sql
  let sql := q.appendConditions sql
  let sql := if q.mGroupBy.isEmpty then sql
    else sql ++ [.text (" GROUP BY " ++ ", ".intercalate q.mGroupBy)]
  let sql := if q.mOrderBy.isEmpty then sql
    else sql ++ [.text (" ORDER BY " ++ ", ".intercalate q.mOrderBy)]
  if q.mLimit > 0 ∨ q.mOffset > 0 then sql ++ [.text (" " ++ q.limitOffset)] else sql

def buildCountSql (q : QueryWrapper T) (tableName : String) : Sql T :=
  let sd := q.softDeleteConfig
  let sql : Sql T := [.text "SELECT COUNT", .lparen, .text "*", .rparen, .text (" FROM " ++ tableName)]
  let sql := if sd.enabled then sql ++ [.text (notDeleted sd)] else sql
  q.appendConditions sql

/-- The guard against statements on the whole table. -/
def guardFullTable (q : QueryWrapper T) (message : String) (sql : Sql T) : Except String (Sql T) :=
  if ¬ containsWhere (q.render sql) ∧ ¬ q.mAllowFullTable then .error message else .ok sql

def buildDeleteSql (q : QueryWrapper T) (tableName : String) : Except String (Sql T) :=
  let sd := q.softDeleteConfig
  let sql : Sql T :=
    if sd.enabled then
      [.text ("UPDATE " ++ tableName ++ " SET " ++ sd.columnName ++ " = " ++ sd.logicDeletedValue ++
        " WHERE " ++ sd.columnName ++ " = " ++ sd.logicNotDeletedValue)]
    else
      [.text ("DELETE FROM " ++ tableName)]
  q.guardFullTable
    ("QueryWrapper::buildDeleteSql: refusing to generate full-table DELETE without WHERE " ++
      "clause. Call allowFullTableOperation(true) to opt-in if intentional.")
    (q.appendConditions sql)

/-- The assignments of an update, in the order of the map. -/
def setParts : Int32 → List (String × QVariant T) → List (Sql T)
  | _, [] => []
  | paramIndex, pair :: rest =>
      [.text (pair.1 ++ " = "), .param paramIndex (.value pair.2)] :: setParts (paramIndex + 1) rest

def buildUpdateSql (q : QueryWrapper T) (tableName : String)
    (updates : List (String × QVariant T)) : Except String (Sql T) :=
  let sd := q.softDeleteConfig
  let sql : Sql T := [.text ("UPDATE " ++ tableName ++ " SET ")]
  let sql := sql ++ join ", " (setParts 1 updates)
  let paramIndex := 1 + Int32.ofNat updates.length
  let sql := sql ++ [.text ", update_time = ", .param paramIndex .updateTime]
  let paramIndex := paramIndex + 1
  let sql := if sd.enabled then sql ++ [.text (notDeleted sd)] else sql
  q.guardFullTable
    ("QueryWrapper::buildUpdateSql: refusing to generate full-table UPDATE without WHERE " ++
      "clause. Call allowFullTableOperation(true) to opt-in if intentional.")
    (q.appendConditions sql paramIndex)

/-! ### The values -/

def bindValuesOf (cond : Condition T) : List (QVariant T) :=
  if cond.op = .isNull ∨ cond.op = .isNotNull then
    []
  else if cond.op = .in_ ∨ cond.op = .notIn then
    if ¬ cond.inValues.isEmpty then cond.inValues else [cond.value]
  else
    [cond.value]

def getBindValues (q : QueryWrapper T) : List (QVariant T) := q.mConditions.flatMap bindValuesOf

/-- `now` is the current time as the source formats it. -/
def getUpdateBindValues (q : QueryWrapper T) (updates : List (String × QVariant T)) (now : String) :
    List (QVariant T) :=
  updates.map Prod.snd ++ [.string now] ++ q.getBindValues

end QueryWrapper

end SoulCoreKit.Orm
