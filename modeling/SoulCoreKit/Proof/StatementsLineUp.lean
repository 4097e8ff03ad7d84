import SoulCoreKit.Orm.SqlRepository
import SoulCoreKit.Proof.SavePersists

/-!
# Columns, placeholders and parameters

The text of a statement and its parameters come from separate loops over the field table. They skip the
same fields, so the placeholders of a statement are, in order, those of the columns whose values are the
parameters, with the test of the id at the end of an `UPDATE`, and the two repositories generate the same
statements. The number in a placeholder is an `int`: under PostgreSQL the numbers are right as long as there
are fewer than `2 ^ 31` of them.
-/

namespace SoulCoreKit.Orm

variable {D Time P : Type}

/-! ### What a placeholder is for -/

/-- A column that is given a value, or the test of the id. -/
inductive Target where
  | column (name : String)
  | idTest
  deriving DecidableEq, Repr

/-- The placeholder of a target, if a placeholder is written for it. -/
def paramOf (target : Target) : Slot → Option (Target × Nat)
  | .param index => some (target, index)
  | .literal _ => none

/-- The placeholders of a statement in the order of the text, with what they are for and their numbers. -/
def Statement.targets : Statement → List (Target × Nat)
  | .insert _ columns values =>
      (columns.zip values).filterMap fun pair => paramOf (.column pair.1) pair.2
  | .update _ setClauses id =>
      (setClauses.filterMap fun clause => paramOf (.column clause.1) clause.2) ++
        (paramOf .idTest id).toList

/-- As many columns as value expressions. -/
def Statement.Balanced : Statement → Prop
  | .insert _ columns values => columns.length = values.length
  | .update .. => True

/-- The text of a placeholder of each number. -/
def Statement.placeholderTexts (dialect : SqlDialect) (statement : Statement) : List String :=
  statement.targets.map fun target => (Slot.param target.2).render dialect

/-- The statement and its parameters fit, and the parameters are these values for these targets. -/
structure LinesUp (dialect : SqlDialect) (statement : Statement) (params : List (QVariant P))
    (values : List (Target × QVariant P)) : Prop where
  balanced : statement.Balanced
  counted : statement.targets.length = params.length
  aligned : (statement.targets.map Prod.fst).zip params = values
  ordered : statement.targets.map Prod.snd = List.range' 1 params.length
  numbered : dialect.cls = .postgreSqlDialect →
    statement.placeholderTexts dialect = (List.range' 1 params.length).map fun k => "$" ++ toString k

/-! ### Numbers -/

theorem toString_ofNat_eq_iff {k : Nat} :
    toString (Int32.ofNat k) = toString k ↔ k < 2 ^ 31 := by
  constructor
  · intro heq
    change Int.repr (Int32.ofNat k).toInt = Nat.repr k at heq
    cases hvalue : (Int32.ofNat k).toInt with
    | ofNat m =>
      rw [hvalue] at heq
      have hk : m = k := by
        have hdigits := congrArg (fun text : String => Nat.ofDigitChars 10 text.toList 0) heq
        simpa [Int.repr, Nat.repr, Nat.ofDigitChars_ten_toDigits] using hdigits
      have hlt := Int32.toInt_lt (Int32.ofNat k)
      rw [hvalue, hk] at hlt
      exact Int.ofNat_lt.mp hlt
    | negSucc m =>
      rw [hvalue] at heq
      have hhead := congrArg (fun text : String => text.toList.head?) heq
      have hneg : (Int.repr (Int.negSucc m)).toList.head? = some '-' := by
        change ("-" ++ Nat.repr (m + 1)).toList.head? = _
        rw [String.toList_append]
        rfl
      simp only [hneg] at hhead
      have hmem : '-' ∈ (Nat.repr k).toList := List.mem_of_mem_head? hhead.symm
      have hdigit := Nat.isDigit_of_mem_toDigits (by decide) (by decide)
        (show '-' ∈ Nat.toDigits 10 k by rwa [Nat.repr, String.toList_ofList] at hmem)
      exact absurd hdigit (by decide)
  · intro hk
    change toString (Int32.ofNat k).toInt = _
    rw [Int32.toInt_ofNat_of_lt hk]
    rfl

/-- The placeholders numbered from one, as PostgreSQL's dialect writes them. -/
theorem texts_eq_iff {dialect : SqlDialect} (hcls : dialect.cls = .postgreSqlDialect) (n : Nat) :
    ((List.range' 1 n).map fun k => (Slot.param k).render dialect) =
        (List.range' 1 n).map (fun k => "$" ++ toString k) ↔ n < 2 ^ 31 := by
  rw [List.map_inj_left]
  have hrender : ∀ k, (Slot.param k).render dialect = "$" ++ toString (Int32.ofNat k) := by
    intro k
    rw [Slot.render, SqlDialect.convertPlaceholder, hcls]
  constructor
  · intro hall
    by_cases hn : n = 0
    · omega
    · have hlast := hall n (List.mem_range'_1.mpr (by omega))
      rw [hrender, String.append_right_inj] at hlast
      exact toString_ofNat_eq_iff.mp hlast
  · intro hn k hk
    rw [List.mem_range'_1] at hk
    rw [hrender, toString_ofNat_eq_iff.mpr (by omega)]

/-! ### The placeholders of a statement -/

section Targets

variable {columns : List String} {first n : Nat}

theorem placeholders_eq_map (first n : Nat) :
    SqlRepository.placeholders first n = (List.range' first n).map Slot.param := by
  induction n generalizing first with
  | zero => rfl
  | succ n ih => rw [SqlRepository.placeholders, ih, List.range'_succ, List.map_cons]

/-- Columns that each have a placeholder. -/
theorem filterMap_paramOf (indices : List Nat) (hlength : columns.length = indices.length) :
    (columns.zip (indices.map Slot.param)).filterMap (fun pair => paramOf (.column pair.1) pair.2) =
      (columns.map Target.column).zip indices := by
  induction columns generalizing indices with
  | nil => simp
  | cons column columns ih =>
    obtain ⟨index, indices, rfl⟩ := List.exists_cons_of_length_eq_add_one hlength.symm
    rw [List.map_cons, List.zip_cons_cons, List.filterMap_cons]
    exact congrArg ((Target.column column, index) :: ·) (ih indices (by simpa using hlength))

/-- An `INSERT` with placeholders for its first columns and one literal at its end. -/
theorem targets_insert (table literal last : String) (columns : List String) :
    (Statement.insert table (columns ++ [last])
      ((List.range' 1 columns.length).map Slot.param ++ [.literal literal])).targets =
      (columns.map Target.column).zip (List.range' 1 columns.length) := by
  rw [Statement.targets, List.zip_append (by simp), List.filterMap_append,
    filterMap_paramOf _ (by simp)]
  exact List.append_nil _

/-- An `UPDATE` with placeholders for its columns and one for the id. -/
theorem targets_update (table : String) (columns : List String) :
    (Statement.update table (columns.zip ((List.range' 1 columns.length).map Slot.param))
      (.param (columns.length + 1))).targets =
      (columns.map Target.column ++ [Target.idTest]).zip (List.range' 1 (columns.length + 1)) := by
  rw [Statement.targets, filterMap_paramOf _ (by simp), List.range'_concat, List.zip_append (by simp),
    Nat.one_mul, Nat.add_comm 1]
  rfl

/-- Targets numbered from one, with a parameter for each, line up with them exactly if the numbers fit. -/
theorem linesUp_iff {dialect : SqlDialect} {statement : Statement} {targets : List Target}
    {params : List (QVariant P)} (hbalanced : statement.Balanced)
    (htargets : statement.targets = targets.zip (List.range' 1 targets.length))
    (hlength : targets.length = params.length) :
    LinesUp dialect statement params (targets.zip params) ↔
      (dialect.cls = .postgreSqlDialect → params.length < 2 ^ 31) := by
  have hindices : statement.targets.map Prod.snd = List.range' 1 params.length := by
    rw [htargets, List.map_snd_zip (by simp), hlength]
  have htexts : statement.placeholderTexts dialect =
      (List.range' 1 params.length).map fun k => (Slot.param k).render dialect := by
    rw [Statement.placeholderTexts, ← hindices, List.map_map]
    rfl
  constructor
  · intro hlines hcls
    have hnumbered := hlines.numbered hcls
    rw [htexts] at hnumbered
    exact (texts_eq_iff hcls _).mp hnumbered
  · intro hfits
    refine ⟨hbalanced, ?_, ?_, hindices, ?_⟩
    · rw [htargets, List.length_zip, List.length_range', Nat.min_self, hlength]
    · rw [htargets, List.map_fst_zip (by simp)]
    · intro hcls
      rw [htexts]
      exact (texts_eq_iff hcls _).mpr (hfits hcls)

end Targets

/-! ### The statements of `SqlRepository` -/

section Values

variable (cls : EntityClass D Time P) (dialect : SqlDialect) (isoDate : Time → String)
  (e : Entity D Time)

/-- The columns of the entity's own fields with their values. -/
def ownValues : List (Target × QVariant P) :=
  (SqlRepository.ownFields (cls.getTableMeta e)).map fun field =>
    (.column field.2.columnName, cls.getProperty e field.1)

/-- What the placeholders of an `INSERT` are for. -/
def insertValues : List (Target × QVariant P) :=
  (.column "id", .string e.id) :: ownValues cls e ++
    [(.column "create_time", .string (isoDate e.createTime)),
      (.column "update_time", .string (isoDate e.updateTime))]

/-- What the placeholders of an `UPDATE` are for. -/
def updateValues : List (Target × QVariant P) :=
  ownValues cls e ++ [(.column "update_time", .string (isoDate e.updateTime)), (.idTest, .string e.id)]

end Values

section SqlRepository

variable (cls : EntityClass D Time P) (dialect : SqlDialect) (isoDate : Time → String)
  (e : Entity D Time)

open SqlRepository

theorem linesUp_insert_iff :
    LinesUp dialect (generateInsertSql cls dialect e) (collectInsertParams cls isoDate e)
        (insertValues cls isoDate e) ↔
      (dialect.cls = .postgreSqlDialect → (ownFields (cls.getTableMeta e)).length + 3 < 2 ^ 31) := by
  set own := ownFields (cls.getTableMeta e) with hown
  set columns : List String := "id" :: own.map (fun field => field.2.columnName) ++
    ["create_time", "update_time"] with hcolumns
  have hlength : columns.length = own.length + 3 := by simp [hcolumns]
  have hparams : (collectInsertParams cls isoDate e).length = own.length + 3 := by
    simp [collectInsertParams, ← hown]
  have hstatement : generateInsertSql cls dialect e =
      .insert cls.tableName (columns ++ [dialect.softDelete.columnName])
        ((List.range' 1 columns.length).map Slot.param ++
          [.literal dialect.softDelete.logicNotDeletedValue]) := by
    rw [generateInsertSql, ← hown, hlength, ← placeholders_eq_map,
      show own.length + 3 = 1 + (own.length + 2) by omega, placeholders_add, placeholders_add,
      show 1 + 1 + own.length = own.length + 2 by omega]
    simp [hcolumns, placeholders]
    omega
  have hvalues : insertValues cls isoDate e =
      (columns.map Target.column).zip (collectInsertParams cls isoDate e) := by
    simp [insertValues, ownValues, collectInsertParams, hcolumns, ← hown, List.zip_append, List.zip_map']
  rw [hvalues, hstatement, linesUp_iff (by simp [Statement.Balanced]), hparams]
  · rw [targets_insert, List.length_map]
  · rw [List.length_map, hlength, hparams]

theorem linesUp_update_iff :
    LinesUp dialect (generateUpdateSql cls e) (collectUpdateParams cls isoDate e)
        (updateValues cls isoDate e) ↔
      (dialect.cls = .postgreSqlDialect → (ownFields (cls.getTableMeta e)).length + 2 < 2 ^ 31) := by
  set own := ownFields (cls.getTableMeta e) with hown
  set columns : List String := own.map (fun field => field.2.columnName) ++ ["update_time"] with hcolumns
  have hlength : columns.length = own.length + 1 := by simp [hcolumns]
  have hparams : (collectUpdateParams cls isoDate e).length = own.length + 2 := by
    simp [collectUpdateParams, ← hown]
  have hstatement : generateUpdateSql cls e =
      .update cls.tableName (columns.zip ((List.range' 1 columns.length).map Slot.param))
        (.param (columns.length + 1)) := by
    rw [generateUpdateSql, ← hown, hlength, ← placeholders_eq_map, placeholders_add,
      Nat.add_comm 1 own.length, hcolumns, List.zip_append (by simp [length_placeholders])]
    simp [placeholders]
  have hvalues : updateValues cls isoDate e =
      (columns.map Target.column ++ [Target.idTest]).zip (collectUpdateParams cls isoDate e) := by
    simp [updateValues, ownValues, collectUpdateParams, hcolumns, ← hown, List.zip_append, List.zip_map']
  rw [hvalues, hstatement, @linesUp_iff _ _ (.update _ _ _) _ _ trivial, hparams]
  · have htargets : (columns.map Target.column ++ [Target.idTest]).length = columns.length + 1 := by simp
    rw [targets_update, htargets]
  · rw [List.length_append, List.length_map, hlength, hparams]
    rfl

end SqlRepository

/-! ### The read-write repository -/

namespace ReadWriteRepository

/-- Two tests that both skip a field are one. -/
theorem ite_skip {A : Type} (a b : Bool) (skipped kept : A) :
    (if a then skipped else if b then skipped else kept) = if (!a && !b) = true then kept else skipped := by
  cases a <;> cases b <;> rfl

def keeps (field : String × FieldMeta) : Bool := !field.2.isPrimaryKey && !baseFields.contains field.1

theorem insertLoop_eq (paramIndex : Nat) (fields : List (String × FieldMeta)) :
    insertLoop paramIndex fields =
      ((fields.filter keeps).map (fun field => field.2.columnName),
        SqlRepository.placeholders paramIndex (fields.filter keeps).length,
        paramIndex + (fields.filter keeps).length) := by
  induction fields generalizing paramIndex with
  | nil => rfl
  | cons head rest ih =>
    obtain ⟨name, field⟩ := head
    rw [insertLoop, ite_skip, List.filter_cons]
    change (if keeps (name, field) = true then _ else _) = _
    split
    · have hnext : paramIndex + ((rest.filter keeps).length + 1) =
          paramIndex + 1 + (rest.filter keeps).length := by
        omega
      rw [ih, List.length_cons, SqlRepository.placeholders, hnext]
      rfl
    · exact ih paramIndex

theorem collectLoop_eq (getProperty : String → QVariant P) (fields : List (String × FieldMeta)) :
    collectLoop getProperty fields = (fields.filter keeps).map fun field => getProperty field.1 := by
  induction fields with
  | nil => rfl
  | cons head rest ih =>
    obtain ⟨name, field⟩ := head
    rw [collectLoop, ite_skip, List.filter_cons]
    change (if keeps (name, field) = true then _ else _) = _
    split
    · rw [ih]
      rfl
    · exact ih

theorem updateLoop_eq (paramIdx : Nat) (fields : List (String × FieldMeta)) :
    updateLoop paramIdx fields =
      (((fields.filter keeps).map fun field => field.2.columnName).zip
          (SqlRepository.placeholders (paramIdx + 1) (fields.filter keeps).length),
        paramIdx + (fields.filter keeps).length) := by
  induction fields generalizing paramIdx with
  | nil => rfl
  | cons head rest ih =>
    obtain ⟨name, field⟩ := head
    rw [updateLoop, ite_skip, List.filter_cons]
    change (if keeps (name, field) = true then _ else _) = _
    split
    · have hnext : paramIdx + ((rest.filter keeps).length + 1) =
          paramIdx + 1 + (rest.filter keeps).length := by
        omega
      rw [ih, List.length_cons, SqlRepository.placeholders, hnext]
      rfl
    · exact ih paramIdx

theorem filter_keeps (tableMeta : TableMeta) :
    tableMeta.fields.filter keeps = SqlRepository.ownFields tableMeta := rfl

variable (cls : EntityClass D Time P) (dialect : SqlDialect) (isoDate : Time → String)
  (e : Entity D Time)

theorem generateInsertSql_eq :
    generateInsertSql cls.tableName dialect (cls.getTableMeta e) =
      SqlRepository.generateInsertSql cls dialect e := by
  rw [generateInsertSql, insertLoop_eq, filter_keeps, Nat.add_comm 2]
  rfl

theorem collectInsertParams_eq :
    collectInsertParams cls isoDate e = SqlRepository.collectInsertParams cls isoDate e := by
  rw [collectInsertParams, collectLoop_eq]
  rfl

theorem generateUpdateSql_eq :
    generateUpdateSql cls.tableName (cls.getTableMeta e) = SqlRepository.generateUpdateSql cls e := by
  rw [generateUpdateSql, updateLoop_eq, filter_keeps]
  simp only [Nat.zero_add]
  rfl

theorem collectUpdateParams_eq :
    collectUpdateParams cls isoDate e = SqlRepository.collectUpdateParams cls isoDate e := by
  rw [collectUpdateParams, collectLoop_eq]
  rfl

end ReadWriteRepository

/-! ### The texts -/

section Texts

variable {dialect : SqlDialect}

theorem notMem_intercalate {c : Char} {separator : String} {parts : List String}
    (hseparator : c ∉ separator.toList) (hparts : ∀ part ∈ parts, c ∉ part.toList) :
    c ∉ (separator.intercalate parts).toList := by
  induction parts with
  | nil => simp
  | cons part parts ih =>
    have hpart := hparts part List.mem_cons_self
    have hrest := ih fun other hother => hparts other (List.mem_cons_of_mem part hother)
    cases parts with
    | nil => rwa [String.intercalate_singleton]
    | cons next parts =>
      rw [String.intercalate_cons_cons, String.toList_append, String.toList_append, List.mem_append,
        List.mem_append]
      exact not_or.mpr ⟨not_or.mpr ⟨hpart, hseparator⟩, hrest⟩

theorem notMem_append {c : Char} {first second : String} (hfirst : c ∉ first.toList)
    (hsecond : c ∉ second.toList) : c ∉ (first ++ second).toList := by
  rw [String.toList_append, List.mem_append]
  exact not_or.mpr ⟨hfirst, hsecond⟩

/-- One `arg`, where the text up to the first marker and the markers after it are known. -/
theorem arg_eq {text before after : String} {c : Char} (argument : String)
    (htext : text = before ++ (String.ofList ['%', c] ++ after)) (hbefore : '%' ∉ before.toList)
    (hc : c.isDigit = true) (hafter : after.toList.head?.any Char.isDigit = false)
    (hgreater : ∀ n ∈ PlaceMarkers.markers after.toList, c.toNat - 48 < n) :
    arg text argument = before ++ argument ++ after := by
  have hchars : text.toList = before.toList ++ '%' :: c :: after.toList := by
    simp [htext, String.toList_append]
  have hnext : ∀ d ∈ after.toList.head?, d.isDigit = false := by
    intro d hd
    rwa [Option.mem_def.mp hd] at hafter
  rw [arg, hchars, PlaceMarkers.arg_first hbefore hc hnext hgreater]
  simp [String.ofList_append, String.append_assoc]

/-- One `arg` behind a text without markers, such as the arguments before have left. -/
theorem arg_behind {front text before after : String} {c : Char} (argument : String)
    (hfront : '%' ∉ front.toList) (htext : text = before ++ (String.ofList ['%', c] ++ after))
    (hbefore : '%' ∉ before.toList) (hc : c.isDigit = true)
    (hafter : after.toList.head?.any Char.isDigit = false)
    (hgreater : ∀ n ∈ PlaceMarkers.markers after.toList, c.toNat - 48 < n) :
    arg (front ++ text) argument = front ++ before ++ argument ++ after := by
  have hwhole : front ++ text = front ++ before ++ (String.ofList ['%', c] ++ after) := by
    rw [htext, String.append_assoc]
  exact arg_eq argument hwhole (notMem_append hfront hbefore) hc hafter hgreater

theorem text_insert {table columns : String} (values : String) (htable : '%' ∉ table.toList)
    (hcolumns : '%' ∉ columns.toList) :
    arg (arg (arg "INSERT INTO %1(%2) VALUES (%3)" table) columns) values =
      "INSERT INTO " ++ table ++ "(" ++ columns ++ ") VALUES (" ++ values ++ ")" := by
  have hone : ("INSERT INTO %1(%2) VALUES (%3)" : String) =
      "INSERT INTO " ++ (String.ofList ['%', '1'] ++ "(%2) VALUES (%3)") := by decide
  have htwo : ("(%2) VALUES (%3)" : String) = "(" ++ (String.ofList ['%', '2'] ++ ") VALUES (%3)") := by
    decide
  have hthree : (") VALUES (%3)" : String) = ") VALUES (" ++ (String.ofList ['%', '3'] ++ ")") := by decide
  have hfront : '%' ∉ ("INSERT INTO " ++ table).toList := notMem_append (by decide) htable
  have hfront' : '%' ∉ ("INSERT INTO " ++ table ++ "(" ++ columns).toList :=
    notMem_append (notMem_append hfront (by decide)) hcolumns
  calc arg (arg (arg "INSERT INTO %1(%2) VALUES (%3)" table) columns) values
      = arg (arg ("INSERT INTO " ++ table ++ "(%2) VALUES (%3)") columns) values := by
        rw [arg_eq table hone (by decide) (by decide) (by decide) (by decide)]
    _ = arg ("INSERT INTO " ++ table ++ "(" ++ columns ++ ") VALUES (%3)") values := by
        rw [arg_behind columns hfront htwo (by decide) (by decide) (by decide) (by decide)]
    _ = "INSERT INTO " ++ table ++ "(" ++ columns ++ ") VALUES (" ++ values ++ ")" :=
        arg_behind values hfront' hthree (by decide) (by decide) (by decide) (by decide)

theorem text_update {table clauses : String} (id : String) (htable : '%' ∉ table.toList)
    (hclauses : '%' ∉ clauses.toList) :
    arg (arg (arg "UPDATE %1 SET %2 WHERE id = %3" table) clauses) id =
      "UPDATE " ++ table ++ " SET " ++ clauses ++ " WHERE id = " ++ id := by
  have hone : ("UPDATE %1 SET %2 WHERE id = %3" : String) =
      "UPDATE " ++ (String.ofList ['%', '1'] ++ " SET %2 WHERE id = %3") := by decide
  have htwo : (" SET %2 WHERE id = %3" : String) =
      " SET " ++ (String.ofList ['%', '2'] ++ " WHERE id = %3") := by decide
  have hthree : (" WHERE id = %3" : String) = " WHERE id = " ++ (String.ofList ['%', '3'] ++ "") := by decide
  have hfront : '%' ∉ ("UPDATE " ++ table).toList := notMem_append (by decide) htable
  have hfront' : '%' ∉ ("UPDATE " ++ table ++ " SET " ++ clauses).toList :=
    notMem_append (notMem_append hfront (by decide)) hclauses
  calc arg (arg (arg "UPDATE %1 SET %2 WHERE id = %3" table) clauses) id
      = arg (arg ("UPDATE " ++ table ++ " SET %2 WHERE id = %3") clauses) id := by
        rw [arg_eq table hone (by decide) (by decide) (by decide) (by decide)]
    _ = arg ("UPDATE " ++ table ++ " SET " ++ clauses ++ " WHERE id = %3") id := by
        rw [arg_behind clauses hfront htwo (by decide) (by decide) (by decide) (by decide)]
    _ = "UPDATE " ++ table ++ " SET " ++ clauses ++ " WHERE id = " ++ id ++ "" :=
        arg_behind id hfront' hthree (by decide) (by decide) (by decide) (by decide)
    _ = "UPDATE " ++ table ++ " SET " ++ clauses ++ " WHERE id = " ++ id := String.append_empty

theorem text_clause {column : String} (placeholder : String) (hcolumn : '%' ∉ column.toList) :
    arg (arg "%1 = %2" column) placeholder = column ++ " = " ++ placeholder := by
  have hone : ("%1 = %2" : String) = "" ++ (String.ofList ['%', '1'] ++ " = %2") := by decide
  have htwo : (" = %2" : String) = " = " ++ (String.ofList ['%', '2'] ++ "") := by decide
  calc arg (arg "%1 = %2" column) placeholder
      = arg (column ++ " = %2") placeholder := by
        rw [arg_eq column hone (by decide) (by decide) (by decide) (by decide), String.empty_append]
    _ = column ++ " = " ++ placeholder ++ "" :=
        arg_behind placeholder hcolumn htwo (by decide) (by decide) (by decide) (by decide)
    _ = column ++ " = " ++ placeholder := String.append_empty

/-- The names that get into a statement. -/
structure NamesPlain (cls : EntityClass D Time P) (dialect : SqlDialect) (e : Entity D Time) : Prop where
  table : '%' ∉ cls.tableName.toList
  columns : ∀ field ∈ (cls.getTableMeta e).fields, '%' ∉ field.2.columnName.toList
  softDelete : '%' ∉ dialect.softDelete.columnName.toList

theorem notMem_placeholder (dialect : SqlDialect) (index : Nat) :
    '%' ∉ ((Slot.param index).render dialect).toList := by
  have hnumber : '%' ∉ (toString (Int32.ofNat index)).toList := by
    change '%' ∉ (Int.repr _).toList
    have hdigits : ∀ k, '%' ∉ (Nat.repr k).toList := by
      intro k hmem
      rw [Nat.repr, String.toList_ofList] at hmem
      exact absurd (Nat.isDigit_of_mem_toDigits (by decide) (by decide) hmem) (by decide)
    cases (Int32.ofNat index).toInt with
    | ofNat k => exact hdigits k
    | negSucc k => exact @notMem_append _ "-" _ (by decide) (hdigits (k + 1))
  rw [Slot.render, SqlDialect.convertPlaceholder]
  cases dialect.cls with
  | postgreSqlDialect => exact notMem_append (by decide) hnumber
  | _ => exact (by decide : '%' ∉ "?".toList)

variable {cls : EntityClass D Time P} {e : Entity D Time}

theorem text_generateInsertSql (hnames : NamesPlain cls dialect e) :
    (SqlRepository.generateInsertSql cls dialect e).text dialect =
      (SqlRepository.generateInsertSql cls dialect e).render dialect := by
  apply text_insert _ hnames.table
  apply notMem_intercalate (by decide)
  intro column hcolumn
  obtain hown | hlast := List.mem_append.mp hcolumn
  · obtain rfl | hown := List.mem_cons.mp hown
    · decide
    · obtain ⟨field, hfield, rfl⟩ := List.mem_map.mp hown
      exact hnames.columns field (List.mem_of_mem_filter hfield)
  · simp only [List.mem_cons, List.not_mem_nil, or_false] at hlast
    obtain rfl | rfl | rfl := hlast
    · decide
    · decide
    · exact hnames.softDelete

/-- The assignments of an `UPDATE`. -/
def updateClauses (tableMeta : TableMeta) : List (String × Slot) :=
  let own := SqlRepository.ownFields tableMeta
  (own.map fun field => field.2.columnName).zip (SqlRepository.placeholders 1 own.length) ++
    [("update_time", .param (own.length + 1))]

theorem generateUpdateSql_eq (cls : EntityClass D Time P) (e : Entity D Time) :
    SqlRepository.generateUpdateSql cls e = .update cls.tableName (updateClauses (cls.getTableMeta e))
      (.param ((SqlRepository.ownFields (cls.getTableMeta e)).length + 2)) := rfl

/-- They are columns with a placeholder each. -/
theorem clause_of_updateClauses (hnames : NamesPlain cls dialect e) {clause : String × Slot}
    (hclause : clause ∈ updateClauses (cls.getTableMeta e)) :
    '%' ∉ clause.1.toList ∧ ∃ index, clause.2 = .param index := by
  obtain hown | hlast := List.mem_append.mp hclause
  · obtain ⟨hcolumn, hslot⟩ := List.of_mem_zip hown
    obtain ⟨field, hfield, heq⟩ := List.mem_map.mp hcolumn
    rw [placeholders_eq_map] at hslot
    obtain ⟨index, _, hindex⟩ := List.mem_map.mp hslot
    exact ⟨heq ▸ hnames.columns field (List.mem_of_mem_filter hfield), index, hindex.symm⟩
  · rw [List.mem_singleton.mp hlast]
    exact ⟨(by decide : '%' ∉ "update_time".toList), _, rfl⟩

theorem notMem_clause {clause : String × Slot}
    (hclause : '%' ∉ clause.1.toList ∧ ∃ index, clause.2 = .param index) :
    '%' ∉ (clause.1 ++ " = " ++ clause.2.render dialect).toList := by
  obtain ⟨hcolumn, index, hindex⟩ := hclause
  rw [hindex]
  exact notMem_append (notMem_append hcolumn (by decide)) (notMem_placeholder dialect index)

theorem notMem_clauses {separator : String} (hseparator : '%' ∉ separator.toList)
    (hnames : NamesPlain cls dialect e) :
    '%' ∉ (separator.intercalate ((updateClauses (cls.getTableMeta e)).map fun clause =>
      clause.1 ++ " = " ++ clause.2.render dialect)).toList := by
  apply notMem_intercalate hseparator
  intro part hpart
  obtain ⟨clause, hclause, rfl⟩ := List.mem_map.mp hpart
  exact notMem_clause (clause_of_updateClauses hnames hclause)

theorem text_generateUpdateSql (hnames : NamesPlain cls dialect e) :
    (SqlRepository.generateUpdateSql cls e).text dialect =
      (SqlRepository.generateUpdateSql cls e).render dialect := by
  rw [generateUpdateSql_eq, Statement.text, List.map_congr_left fun clause hclause =>
    text_clause _ (clause_of_updateClauses hnames hclause).1]
  exact text_update _ hnames.table (notMem_clauses (by decide) hnames)

/-- The text of an `UPDATE` of the read-write repository. -/
theorem readWrite_text_update (hnames : NamesPlain cls dialect e) :
    ReadWriteRepository.text dialect (SqlRepository.generateUpdateSql cls e) =
      "UPDATE " ++ cls.tableName ++ " SET " ++
        ", ".intercalate ((updateClauses (cls.getTableMeta e)).map fun clause =>
          clause.1 ++ " = " ++ clause.2.render dialect) ++
        " WHERE id = " ++
          (Slot.param ((SqlRepository.ownFields (cls.getTableMeta e)).length + 2)).render dialect := by
  rw [generateUpdateSql_eq, ReadWriteRepository.text]
  exact text_update _ hnames.table (notMem_clauses (by decide) hnames)

end Texts

/-! ### The result -/

/-- Both repositories generate the same statements with the same parameters, whose texts are put together
as they stand where no name has a `%` in it; and the columns, the placeholders and the parameters line up
exactly if, under PostgreSQL, the numbers of the placeholders fit into an `int`. -/
theorem statements_line_up_iff (cls : EntityClass D Time P) (dialect : SqlDialect)
    (isoDate : Time → String) (e : Entity D Time) :
    (ReadWriteRepository.generateInsertSql cls.tableName dialect (cls.getTableMeta e) =
        SqlRepository.generateInsertSql cls dialect e ∧
      ReadWriteRepository.collectInsertParams cls isoDate e =
        SqlRepository.collectInsertParams cls isoDate e ∧
      ReadWriteRepository.generateUpdateSql cls.tableName (cls.getTableMeta e) =
        SqlRepository.generateUpdateSql cls e ∧
      ReadWriteRepository.collectUpdateParams cls isoDate e =
        SqlRepository.collectUpdateParams cls isoDate e) ∧
    (NamesPlain cls dialect e →
      (SqlRepository.generateInsertSql cls dialect e).text dialect =
        (SqlRepository.generateInsertSql cls dialect e).render dialect ∧
      (SqlRepository.generateUpdateSql cls e).text dialect =
        (SqlRepository.generateUpdateSql cls e).render dialect ∧
      ReadWriteRepository.text dialect (SqlRepository.generateInsertSql cls dialect e) =
        (SqlRepository.generateInsertSql cls dialect e).render dialect ∧
      ReadWriteRepository.text dialect (SqlRepository.generateUpdateSql cls e) =
        "UPDATE " ++ cls.tableName ++ " SET " ++
          ", ".intercalate ((updateClauses (cls.getTableMeta e)).map fun clause =>
            clause.1 ++ " = " ++ clause.2.render dialect) ++
          " WHERE id = " ++
            (Slot.param ((SqlRepository.ownFields (cls.getTableMeta e)).length + 2)).render dialect) ∧
    (LinesUp dialect (SqlRepository.generateInsertSql cls dialect e)
          (SqlRepository.collectInsertParams cls isoDate e) (insertValues cls isoDate e) ∧
        LinesUp dialect (SqlRepository.generateUpdateSql cls e)
          (SqlRepository.collectUpdateParams cls isoDate e) (updateValues cls isoDate e) ↔
      (dialect.cls = .postgreSqlDialect →
        (SqlRepository.ownFields (cls.getTableMeta e)).length + 3 < 2 ^ 31)) := by
  refine ⟨⟨ReadWriteRepository.generateInsertSql_eq cls dialect e,
    ReadWriteRepository.collectInsertParams_eq cls isoDate e,
    ReadWriteRepository.generateUpdateSql_eq cls e,
    ReadWriteRepository.collectUpdateParams_eq cls isoDate e⟩, ?_, ?_⟩
  · intro hnames
    exact ⟨text_generateInsertSql hnames, text_generateUpdateSql hnames, text_generateInsertSql hnames,
      readWrite_text_update hnames⟩
  · rw [linesUp_insert_iff, linesUp_update_iff]
    constructor
    · exact fun hboth => hboth.1
    · intro hfits
      refine ⟨hfits, ?_⟩
      intro hcls
      have hlt := hfits hcls
      omega

/-- The names of as many fields, none of which is a base field. -/
def manyNames (n : Nat) : List String := (List.range n).map fun k => String.ofList (List.replicate k 'x')

theorem nodup_manyNames (n : Nat) : (manyNames n).Nodup := by
  refine List.Nodup.map ?_ List.nodup_range
  intro k k' heq
  have hlength := congrArg (fun name : String => name.toList.length) heq
  simpa using hlength

/-- A table with as many fields. -/
def wideMeta (n : Nat) : TableMeta where
  fields := (manyNames n).map fun name => (name, { columnName := name })
  distinct := by simpa [Function.comp_def] using nodup_manyNames n

theorem length_ownFields_wideMeta (n : Nat) : (SqlRepository.ownFields (wideMeta n)).length = n := by
  have hkept : ∀ field ∈ (wideMeta n).fields,
      (!field.2.isPrimaryKey && !SqlRepository.baseFields.contains field.1) = true := by
    intro field hfield
    obtain ⟨name, hname, rfl⟩ := List.mem_map.mp hfield
    obtain ⟨k, _, rfl⟩ := List.mem_map.mp hname
    have hnot : ∀ base : String, (∃ c ∈ base.toList, c ≠ 'x') →
        String.ofList (List.replicate k 'x') ≠ base := by
      rintro base ⟨c, hc, hne⟩ rfl
      rw [String.toList_ofList] at hc
      exact hne (List.eq_of_mem_replicate hc)
    simpa [SqlRepository.baseFields] using
      ⟨hnot "createTime" ⟨'c', by decide, by decide⟩, hnot "updateTime" ⟨'u', by decide, by decide⟩,
        hnot "deleted" ⟨'d', by decide, by decide⟩⟩
  rw [SqlRepository.ownFields, List.filter_eq_self.mpr hkept]
  simp [wideMeta, manyNames]

def wideClass (n : Nat) : EntityClass Unit Unit Unit where
  tableName := "wide"
  getTableMeta _ := wideMeta n
  getProperty _ _ := .invalid

/-- With `2 ^ 31 - 3` fields of its own the last placeholder of an `INSERT` has the number `- 2 ^ 31`. -/
theorem wide_not_lined_up :
    ¬ LinesUp { cls := .postgreSqlDialect }
      (SqlRepository.generateInsertSql (wideClass (2 ^ 31 - 3)) { cls := .postgreSqlDialect }
        ⟨"1", (), (), 0, ()⟩)
      (SqlRepository.collectInsertParams (wideClass (2 ^ 31 - 3)) (fun _ => "") ⟨"1", (), (), 0, ()⟩)
      (insertValues (wideClass (2 ^ 31 - 3)) (fun _ => "") ⟨"1", (), (), 0, ()⟩) := by
  rw [linesUp_insert_iff]
  intro hfits
  have hlt := hfits rfl
  rw [show (wideClass (2 ^ 31 - 3)).getTableMeta ⟨"1", (), (), 0, ()⟩ = wideMeta (2 ^ 31 - 3) from rfl,
    length_ownFields_wideMeta] at hlt
  omega

end SoulCoreKit.Orm
