import SoulCoreKit.Orm.SqlRepository

/-!
# What a save leaves in the table

A save that returns `Ok(e)` is compared with the row it should have left. An `INSERT` writes a row of
its own, with the literal of the dialect in the column of the soft delete; an `UPDATE` reaches a row only
if there is one with the id, and leaves the columns `id`, `create_time` and that of the soft delete as
they are unless a field of the entity is mapped to one of them. Where two properties go to one column
and the database does not refuse the statement, it keeps the first value or the last.
-/

namespace SoulCoreKit.Orm

namespace Row

variable {P : Type} {assignments : List (String × QVariant P)} {row : Row P} {column : String}

/-- A column that ends up with a value: every assignment to it agrees, or there is none and the row
has the value already. -/
structure Retains (assignments : List (String × QVariant P)) (row : Row P) (column : String)
    (value : QVariant P) : Prop where
  assigned : ∀ assignment ∈ assignments, assignment.1 = column → assignment.2 = value
  stored : (∀ assignment ∈ assignments, assignment.1 ≠ column) → row column = value

/-- No column is given two values. -/
def Agree (assignments : List (String × QVariant P)) : Prop :=
  ∀ first ∈ assignments, ∀ second ∈ assignments, first.1 = second.1 → first.2 = second.2

instance [DecidableEq P] (assignments : List (String × QVariant P)) : Decidable (Agree assignments) :=
  inferInstanceAs (Decidable (∀ first ∈ assignments, ∀ second ∈ assignments,
    first.1 = second.1 → first.2 = second.2))

theorem Agree.reverse (hagree : Agree assignments) : Agree assignments.reverse := by
  intro first hfirst second hsecond
  exact hagree first (List.mem_reverse.mp hfirst) second (List.mem_reverse.mp hsecond)

theorem assign_of_mem {value : QVariant P} (hagree : Agree assignments)
    (hmem : (column, value) ∈ assignments) : assign assignments row column = value := by
  induction assignments with
  | nil => cases hmem
  | cons head rest ih =>
    by_cases hhead : head.1 = column
    · have hvalue := hagree head List.mem_cons_self (column, value) hmem hhead
      obtain ⟨_, first⟩ := head
      subst hhead
      rw [assign, List.lookup_cons_self]
      exact hvalue
    · have hne : (column == head.1) = false := beq_eq_false_iff_ne.mpr (Ne.symm hhead)
      have hrest : (column, value) ∈ rest :=
        (List.mem_cons.mp hmem).resolve_left fun heq => hhead (congrArg Prod.fst heq).symm
      have hassign := ih (fun first hfirst second hsecond => hagree first (List.mem_cons_of_mem _ hfirst)
        second (List.mem_cons_of_mem _ hsecond)) hrest
      rw [assign] at hassign ⊢
      rw [List.lookup_cons, hne]
      exact hassign

/-- Where every assignment is kept, no two contradict each other. -/
theorem agree_of_assign
    (hkept : ∀ assignment ∈ assignments, row assignment.1 = assignment.2) : Agree assignments := by
  intro first hfirst second hsecond hcolumn
  rw [← hkept first hfirst, ← hkept second hsecond, hcolumn]

theorem assign_of_not_mem (hnot : ∀ assignment ∈ assignments, assignment.1 ≠ column) :
    assign assignments row column = row column := by
  have hlookup : assignments.lookup column = none := by
    rw [List.lookup_eq_none_iff]
    intro assignment hmem
    exact bne_iff_ne.mpr (hnot assignment hmem).symm
  simp [assign, hlookup]

theorem assign_eq_iff {value : QVariant P} (hagree : Agree assignments) :
    assign assignments row column = value ↔ Retains assignments row column value := by
  constructor
  · intro hassign
    refine ⟨?_, ?_⟩
    · rintro ⟨_, other⟩ hmem rfl
      rw [← hassign]
      exact (assign_of_mem hagree hmem).symm
    · intro hnot
      rw [← hassign]
      exact (assign_of_not_mem hnot).symm
  · intro hretains
    by_cases hnamed : ∃ assignment ∈ assignments, assignment.1 = column
    · obtain ⟨⟨_, other⟩, hmem, rfl⟩ := hnamed
      rw [assign_of_mem hagree hmem]
      exact hretains.assigned _ hmem rfl
    · have hnot : ∀ assignment ∈ assignments, assignment.1 ≠ column := fun assignment hmem heq =>
        hnamed ⟨assignment, hmem, heq⟩
      rw [assign_of_not_mem hnot]
      exact hretains.stored hnot

theorem retains_reverse_iff {value : QVariant P} :
    Retains assignments.reverse row column value ↔ Retains assignments row column value := by
  constructor
  · rintro ⟨hassigned, hstored⟩
    exact ⟨fun a ha => hassigned a (List.mem_reverse.mpr ha),
      fun hnot => hstored fun a ha => hnot a (List.mem_reverse.mp ha)⟩
  · rintro ⟨hassigned, hstored⟩
    exact ⟨fun a ha => hassigned a (List.mem_reverse.mp ha),
      fun hnot => hstored fun a ha => hnot a (List.mem_reverse.mpr ha)⟩

/-- A value at the end of the list does not count where the column has one before it. -/
theorem assign_concat {column : String} {value value' : QVariant P}
    (hsame : value = value' ∨ ∃ assignment ∈ assignments, assignment.1 = column) :
    assign (assignments ++ [(column, value)]) row = assign (assignments ++ [(column, value')]) row := by
  rcases hsame with rfl | ⟨⟨_, earlier⟩, hmem, rfl⟩
  · rfl
  · funext other
    rw [assign, assign, List.lookup_append, List.lookup_append]
    cases hlookup : assignments.lookup other with
    | some found => rfl
    | none =>
        have hne := bne_iff_ne.mp (List.lookup_eq_none_iff.mp hlookup _ hmem)
        simp [List.lookup_cons, beq_eq_false_iff_ne.mpr hne]

/-- The row of an `INSERT` keeps what it is to keep, the last of it in the place of a literal. -/
theorem assign_concat_iff {column : String} {value literal : QVariant P} :
    (∀ property ∈ assignments ++ [(column, value)],
        assign (assignments ++ [(column, literal)]) row property.1 = property.2) ↔
      Agree (assignments ++ [(column, value)]) ∧
        (literal = value ∨ ∃ assignment ∈ assignments, assignment.1 = column) := by
  constructor
  · intro hkept
    refine ⟨agree_of_assign hkept, ?_⟩
    by_cases hnamed : ∃ assignment ∈ assignments, assignment.1 = column
    · exact Or.inr hnamed
    · have hnone : assignments.lookup column = none := by
        rw [List.lookup_eq_none_iff]
        intro assignment hmem
        exact bne_iff_ne.mpr fun heq => hnamed ⟨assignment, hmem, heq.symm⟩
      have hlast := hkept (column, value) (by simp)
      rw [assign, List.lookup_append, hnone] at hlast
      simp only [List.lookup_cons_self, Option.none_or, Option.getD_some] at hlast
      exact Or.inl hlast
  · rintro ⟨hagree, hsame⟩ property hmem
    rw [assign_concat hsame]
    exact assign_of_mem hagree hmem

end Row

namespace Table

variable {P : Type} [DecidableEq P] {engine : Engine P} {table table' : Table engine}
  {assignments : List (String × QVariant P)} {id key other : QVariant P} {row : Row P}
  {affected : Nat} {cls : DialectClass}

theorem replace_self (key : QVariant P) (row : Row P) :
    (table.replace key row).rows (row (engine.ident "id")) = some row := by
  simp [replace]

theorem replace_of_ne (hkey : other ≠ key) (hrow : other ≠ row (engine.ident "id")) :
    (table.replace key row).rows other = table.rows other := by
  simp [replace, Function.update_of_ne hrow, Function.update_of_ne hkey]

theorem replace_key (hrow : key ≠ row (engine.ident "id")) :
    (table.replace key row).rows key = none := by
  simp [replace, Function.update_of_ne hrow]

theorem insert_eq_some (h : table.insert cls assignments = some (affected, table')) :
    table' = table.replace (Row.assign assignments engine.defaultValue (engine.ident "id"))
      (Row.assign assignments engine.defaultValue) := by
  rw [insert] at h
  split_ifs at h
  rw [Option.some.injEq, Prod.mk.injEq] at h
  exact h.2.symm

theorem update_eq_some (h : table.update cls assignments id = some (affected, table')) :
    (table.rows id = none ∧ table' = table) ∨
      ∃ row, table.rows id = some row ∧
        table' = table.replace id (Row.assign assignments.reverse row) := by
  rw [update] at h
  split_ifs at h
  cases hrow : table.rows id with
  | none =>
    rw [hrow, Option.some.injEq, Prod.mk.injEq] at h
    exact .inl ⟨rfl, h.2.symm⟩
  | some row =>
    rw [hrow] at h
    dsimp only at h
    split_ifs at h
    rw [Option.some.injEq, Prod.mk.injEq] at h
    exact .inr ⟨row, rfl, h.2.symm⟩

end Table

/-! ### Binding -/

section Bind

variable {P : Type} {engine : Engine P}

open SqlRepository

theorem bindPositional_placeholders (values : List (QVariant P)) :
    ∀ (first : Nat) (slots : List Slot) (params : List (QVariant P)),
      bindPositional engine (placeholders first values.length ++ slots) (values ++ params) =
        (bindPositional engine slots params).map (values ++ ·) := by
  induction values with
  | nil => simp [placeholders]
  | cons value rest ih =>
    intro first slots params
    simp [placeholders, bindPositional, ih, Option.map_map, Function.comp_def]

theorem bindIndexed_placeholders (values : List (QVariant P)) :
    ∀ (before : List (QVariant P)) (slots : List Slot) (params : List (QVariant P)),
      bindIndexed engine (before ++ (values ++ params))
          (placeholders (before.length + 1) values.length ++ slots) =
        (bindIndexed engine (before ++ (values ++ params)) slots).map (values ++ ·) := by
  induction values with
  | nil => simp [placeholders]
  | cons value rest ih =>
    intro before slots params
    have hrest := ih (before ++ [value]) slots params
    simp only [List.append_assoc, List.singleton_append, List.length_append, List.length_singleton]
      at hrest
    simp only [List.length_cons, placeholders, List.cons_append, bindIndexed, hrest,
      Nat.add_sub_cancel, List.getElem?_append_right (Nat.le_refl before.length), Nat.sub_self,
      List.getElem?_cons_zero]
    cases bindIndexed engine (before ++ value :: (rest ++ params)) slots <;> rfl

theorem length_placeholders (first n : Nat) : (placeholders first n).length = n := by
  induction n generalizing first with
  | zero => rfl
  | succ n ih => simp [placeholders, ih]

theorem placeholders_add (first n k : Nat) :
    placeholders first (n + k) = placeholders first n ++ placeholders (first + n) k := by
  induction n generalizing first with
  | zero => simp [placeholders]
  | succ n ih =>
    rw [show n + 1 + k = (n + k) + 1 by omega, placeholders, placeholders, ih, List.cons_append,
      show first + 1 + n = first + (n + 1) by omega]

theorem bindPositional_literals (texts : List String) :
    bindPositional engine (texts.map Slot.literal) [] = some (texts.map engine.literal) := by
  induction texts with
  | nil => rfl
  | cons text rest ih => simp [bindPositional, ih]

theorem bindIndexed_literals (params : List (QVariant P)) (texts : List String) :
    bindIndexed engine params (texts.map Slot.literal) = some (texts.map engine.literal) := by
  induction texts with
  | nil => rfl
  | cons text rest ih => simp [bindIndexed, ih]

/-- Placeholders numbered from one are bound to the parameters, whichever the style; what follows them
are literals. -/
theorem bindSlots_placeholders (cls : DialectClass) (params : List (QVariant P))
    (texts : List String) :
    bindSlots engine cls (placeholders 1 params.length ++ texts.map Slot.literal) params =
      some (params ++ texts.map engine.literal) := by
  have hpositional := @bindPositional_placeholders P engine params 1 (texts.map Slot.literal) []
  have hindexed := @bindIndexed_placeholders P engine params [] (texts.map Slot.literal) []
  simp only [List.append_nil, List.nil_append, List.length_nil, Nat.zero_add,
    bindPositional_literals, bindIndexed_literals, Option.map_some] at hpositional hindexed
  cases cls
  · exact hpositional
  · exact hpositional
  · exact hindexed

end Bind

namespace SqlRepository

variable {D Time P : Type} [DecidableEq P] {engine : Engine P}

/-! ### The statements, executed -/

section Assignments

variable (engine) (cls : EntityClass D Time P) (dialect : SqlDialect) (isoDate : Time → String)
  (e : Entity D Time)

/-- The columns of the entity's own fields. -/
def ownColumns : List (String × QVariant P) :=
  (ownFields (cls.getTableMeta e)).map fun field =>
    (engine.ident field.2.columnName, cls.getProperty e field.1)

/-- What the `INSERT` assigns from the entity. -/
def boundAssignments : List (String × QVariant P) :=
  (engine.ident "id", .string e.id) :: ownColumns engine cls e ++
    [(engine.ident "create_time", .string (isoDate e.createTime)),
      (engine.ident "update_time", .string (isoDate e.updateTime))]

/-- What the `INSERT` assigns. -/
def insertAssignments : List (String × QVariant P) :=
  boundAssignments engine cls isoDate e ++ [(engine.ident dialect.softDelete.columnName,
    engine.literal dialect.softDelete.logicNotDeletedValue)]

/-- What the `UPDATE` assigns. -/
def updateAssignments : List (String × QVariant P) :=
  ownColumns engine cls e ++ [(engine.ident "update_time", .string (isoDate e.updateTime))]

theorem execute_generateInsertSql (table : Table engine) :
    (generateInsertSql cls dialect e).execute dialect.cls table (collectInsertParams cls isoDate e) =
      table.insert dialect.cls (insertAssignments engine cls dialect isoDate e) := by
  set own := ownFields (cls.getTableMeta e) with hown
  have hlength : (collectInsertParams cls isoDate e).length = 1 + (own.length + 2) := by
    simp [collectInsertParams, ← hown]
    omega
  have hslots : (.param 1 :: placeholders 2 own.length ++
      [.param (own.length + 2), .param (own.length + 3),
        .literal dialect.softDelete.logicNotDeletedValue] : List Slot) =
      placeholders 1 (collectInsertParams cls isoDate e).length ++
        [dialect.softDelete.logicNotDeletedValue].map Slot.literal := by
    rw [hlength, placeholders_add, placeholders_add, show 1 + 1 + own.length = own.length + 2 by omega]
    simp [placeholders]
  rw [generateInsertSql, Statement.execute, ← hown, hslots, bindSlots_placeholders]
  have hzip : (List.map engine.ident ("id" :: own.map (fun field => field.2.columnName) ++
      ["create_time", "update_time", dialect.softDelete.columnName])).zip
        (collectInsertParams cls isoDate e ++
          [dialect.softDelete.logicNotDeletedValue].map engine.literal) =
      insertAssignments engine cls dialect isoDate e := by
    simp [collectInsertParams, insertAssignments, boundAssignments, ownColumns, ← hown, List.zip_append,
      List.zip_map', Function.comp_def]
  exact congrArg (table.insert dialect.cls) hzip

theorem execute_generateUpdateSql (table : Table engine) :
    (generateUpdateSql cls e).execute dialect.cls table (collectUpdateParams cls isoDate e) =
      table.update dialect.cls (updateAssignments engine cls isoDate e) (.string e.id) := by
  set own := ownFields (cls.getTableMeta e) with hown
  set columns := own.map fun field => field.2.columnName with hcolumns
  have hown_length : own.length = columns.length := by rw [hcolumns, List.length_map]
  have hlength : (collectUpdateParams cls isoDate e).length = columns.length + 2 := by
    simp [collectUpdateParams, ← hown, hcolumns]
  have hslots : ((columns.zip (placeholders 1 own.length) ++
      [("update_time", Slot.param (own.length + 1))]).map Prod.snd ++ [.param (own.length + 2)]) =
      placeholders 1 (collectUpdateParams cls isoDate e).length ++ [].map Slot.literal := by
    rw [hlength, placeholders_add, List.map_append, hown_length,
      List.map_snd_zip (length_placeholders 1 columns.length).le, Nat.add_comm 1]
    simp [placeholders]
  have hnames : (columns.zip (placeholders 1 own.length) ++
      [("update_time", Slot.param (own.length + 1))]).map (fun clause => engine.ident clause.1) =
      (columns ++ ["update_time"]).map engine.ident := by
    have hfst : (columns.zip (placeholders 1 own.length)).map (fun clause => engine.ident clause.1) =
        ((columns.zip (placeholders 1 own.length)).map Prod.fst).map engine.ident := by
      rw [List.map_map]
      rfl
    rw [List.map_append, hfst, List.map_fst_zip, List.map_append]
    · rfl
    · rw [length_placeholders, hown_length]
  have hparams : collectUpdateParams cls isoDate e ++ [].map engine.literal =
      own.map (fun field => cls.getProperty e field.1) ++ [.string (isoDate e.updateTime)] ++
        [.string e.id] := by
    simp [collectUpdateParams, ← hown]
  have hzip : ((columns ++ ["update_time"]).map engine.ident).zip
      (own.map (fun field => cls.getProperty e field.1) ++ [.string (isoDate e.updateTime)]) =
      updateAssignments engine cls isoDate e := by
    simp [updateAssignments, ownColumns, ← hown, hcolumns, List.zip_append, List.zip_map',
      Function.comp_def]
  rw [generateUpdateSql, Statement.execute, ← hown, ← hcolumns, hslots, bindSlots_placeholders,
    hparams]
  simp only [List.getLast?_append, List.getLast?_singleton, Option.some_or, List.dropLast_concat]
  rw [hnames, hzip]

/-- The columns of the table, with the values of the properties. -/
def propertyColumns : List (String × QVariant P) :=
  boundAssignments engine cls isoDate e ++
    [(engine.ident dialect.softDelete.columnName, .other (engine.ofInt e.deleted))]

/-- The columns that the `UPDATE` does not write for the repository. -/
def unwrittenColumns : List (String × QVariant P) :=
  [(engine.ident "id", .string e.id),
    (engine.ident "create_time", .string (isoDate e.createTime)),
    (engine.ident dialect.softDelete.columnName, .other (engine.ofInt e.deleted))]

end Assignments

section Persistence

variable (env : Environment Time) (cls : EntityClass D Time P) (dialect : SqlDialect)
  (isoDate : Time → String)

/-- The row of the entity holds its properties, and the other rows are those that were there. -/
structure Persisted (e : Entity D Time) (table table' : Table engine) : Prop where
  saved : ∃ row, table'.rows (.string e.id) = some row ∧
    ∀ property ∈ propertyColumns engine cls dialect isoDate e, row property.1 = property.2
  others : ∀ key, key ≠ .string e.id → table'.rows key = table.rows key

/-- The condition on the entity, as its hook leaves it, and on the table. -/
def Savable (table : Table engine) (entity : Entity D Time) : Prop :=
  if entity.id.isEmpty then
    ∀ e, cls.beforeInsert env.clock { entity with id := env.uuid } = .ok e →
      Row.Agree (propertyColumns engine cls dialect isoDate e) ∧
        (engine.literal dialect.softDelete.logicNotDeletedValue = .other (engine.ofInt e.deleted) ∨
          ∃ assignment ∈ boundAssignments engine cls isoDate e,
            assignment.1 = engine.ident dialect.softDelete.columnName)
  else
    ∀ e, cls.beforeUpdate env.clock entity = .ok e →
      ∃ row, table.rows (.string e.id) = some row ∧
        Row.Agree (updateAssignments engine cls isoDate e) ∧
        ∀ property ∈ unwrittenColumns engine dialect isoDate e,
          Row.Retains (updateAssignments engine cls isoDate e) row property.1 property.2

variable {env cls dialect isoDate} {table table' : Table engine} {e saved : Entity D Time}

theorem executeInternal_ok {statement : Statement} {params : List (QVariant P)}
    (h : executeInternal env dialect table e statement params = (.ok saved, table')) :
    saved = e ∧ ∃ affected, statement.execute dialect.cls table params = some (affected, table') := by
  unfold executeInternal executeUpdate at h
  cases hacquire : env.acquire with
  | error error => simp [hacquire] at h
  | ok _ =>
    cases hrefusal : env.refusal with
    | some error => simp [hacquire, hrefusal] at h
    | none =>
      cases hexecute : statement.execute dialect.cls table params with
      | none => simp [hacquire, hrefusal, hexecute] at h
      | some result =>
        simp only [hacquire, hrefusal, hexecute, Prod.mk.injEq, Except.ok.injEq] at h
        exact ⟨h.1.symm, result.1, by rw [← h.2]⟩

theorem persisted_replace_iff {row : Row P} (hid : row (engine.ident "id") = .string e.id) :
    Persisted cls dialect isoDate e table (table.replace (.string e.id) row) ↔
      ∀ property ∈ propertyColumns engine cls dialect isoDate e, row property.1 = property.2 := by
  have hsaved : (table.replace (.string e.id) row).rows (.string e.id) = some row := by
    rw [← hid]
    exact Table.replace_self _ row
  constructor
  · rintro ⟨⟨stored, hstored, hholds⟩, -⟩
    rw [hsaved, Option.some.injEq] at hstored
    rw [hstored]
    exact hholds
  · intro hholds
    refine ⟨⟨row, hsaved, hholds⟩, ?_⟩
    intro key hkey
    exact Table.replace_of_ne hkey (hid ▸ hkey)

theorem insertInternal_persisted_iff
    (h : insertInternal env cls dialect isoDate table e = (.ok saved, table')) :
    Persisted cls dialect isoDate saved table table' ↔
      Row.Agree (propertyColumns engine cls dialect isoDate e) ∧
        (engine.literal dialect.softDelete.logicNotDeletedValue = .other (engine.ofInt e.deleted) ∨
          ∃ assignment ∈ boundAssignments engine cls isoDate e,
            assignment.1 = engine.ident dialect.softDelete.columnName) := by
  obtain ⟨rfl, affected, hexecute⟩ := executeInternal_ok h
  rw [execute_generateInsertSql] at hexecute
  have htable := Table.insert_eq_some hexecute
  have hid : Row.assign (insertAssignments engine cls dialect isoDate saved) engine.defaultValue
      (engine.ident "id") = .string saved.id := by
    simp [Row.assign, insertAssignments, boundAssignments]
  rw [htable, hid, persisted_replace_iff hid]
  exact Row.assign_concat_iff

theorem updateInternal_persisted_iff
    (h : updateInternal env cls dialect isoDate table e = (.ok saved, table')) :
    Persisted cls dialect isoDate saved table table' ↔
      ∃ row, table.rows (.string e.id) = some row ∧
        Row.Agree (updateAssignments engine cls isoDate e) ∧
          ∀ property ∈ unwrittenColumns engine dialect isoDate e,
            Row.Retains (updateAssignments engine cls isoDate e) row property.1 property.2 := by
  obtain ⟨rfl, affected, hexecute⟩ := executeInternal_ok h
  rw [execute_generateUpdateSql] at hexecute
  rcases Table.update_eq_some hexecute with ⟨habsent, rfl⟩ | ⟨row, hrow, rfl⟩
  · -- no row has the id: the statement succeeds and the table is as it was
    constructor
    · rintro ⟨⟨row, hsaved, -⟩, -⟩
      exact ⟨row, absurd (habsent.symm.trans hsaved) (by simp)⟩
    · rintro ⟨row, hrow, -⟩
      exact absurd (habsent.symm.trans hrow) (by simp)
  · set assigned := Row.assign (updateAssignments engine cls isoDate saved).reverse row with hassigned
    simp only [hrow, Option.some.injEq, exists_eq_left']
    by_cases hid : assigned (engine.ident "id") = .string saved.id
    · rw [persisted_replace_iff hid]
      have hretains : Row.Agree (updateAssignments engine cls isoDate saved) →
          ∀ property : String × QVariant P, assigned property.1 = property.2 ↔
            Row.Retains (updateAssignments engine cls isoDate saved) row property.1 property.2 :=
        fun hagree _ => (Row.assign_eq_iff hagree.reverse).trans Row.retains_reverse_iff
      constructor
      · intro hholds
        have hagree : Row.Agree (updateAssignments engine cls isoDate saved) := by
          refine @Row.agree_of_assign _ _ assigned fun assignment hmem => ?_
          apply hholds
          simp only [updateAssignments, propertyColumns, boundAssignments, List.mem_append,
            List.mem_cons, List.not_mem_nil, or_false] at hmem ⊢
          tauto
        refine ⟨hagree, fun property hmem => (hretains hagree property).mp (hholds property ?_)⟩
        simp only [unwrittenColumns, propertyColumns, boundAssignments, List.mem_append,
          List.mem_cons, List.not_mem_nil, or_false] at hmem ⊢
        tauto
      · rintro ⟨hagree, hkept⟩ property hmem
        have hwritten : ∀ property ∈ updateAssignments engine cls isoDate saved,
            assigned property.1 = property.2 := fun property hmem =>
          Row.assign_of_mem hagree.reverse (List.mem_reverse.mpr hmem)
        by_cases hupdate : property ∈ updateAssignments engine cls isoDate saved
        · exact hwritten property hupdate
        · apply (hretains hagree property).mpr (hkept property ?_)
          simp only [updateAssignments, unwrittenColumns, propertyColumns, boundAssignments,
            List.mem_append, List.mem_cons, List.not_mem_nil, or_false] at hupdate hmem ⊢
          tauto
    · -- the row goes under another id, and none is left under that of the entity
      constructor
      · rintro ⟨⟨stored, hsaved, -⟩, -⟩
        rw [Table.replace_key (Ne.symm hid)] at hsaved
        cases hsaved
      · rintro ⟨hagree, hkept⟩
        have hstays := hkept (_, .string saved.id) (List.mem_cons_self ..)
        exact absurd ((Row.assign_eq_iff hagree.reverse).mpr (Row.retains_reverse_iff.mpr hstays)) hid

end Persistence

/-! ### The class `User`, with one of its fields -/

section User

def userMeta : TableMeta where
  fields :=
    [("createTime", { columnName := "create_time" }), ("deleted", { columnName := "deleted" }),
      ("id", { columnName := "id", isPrimaryKey := true }),
      ("updateTime", { columnName := "update_time" }), ("username", { columnName := "username" })]
  distinct := by decide

def userClass : EntityClass String Nat Int32 where
  tableName := "user"
  getTableMeta _ := userMeta
  getProperty e name := if name = "username" then .string e.derived else .invalid

def plainEngine : Engine Int32 where
  ident column := column
  literal text := if text = "0" then .other 0 else .other 1
  ofInt n := n
  defaultValue _ := .invalid

def emptyTable : Table plainEngine where
  rows _ := none
  keyed := by
    intro key row hrow
    cases hrow

def quietEnvironment : Environment Nat where
  acquire := .ok ()
  refusal := none
  lastError := ""
  uuid := "8d6f"
  clock n := n + 10

def newUser : Entity String Nat := { id := "", createTime := 0, updateTime := 0, derived := "ada" }

def savedUser : Entity String Nat := { newUser with id := "8d6f", createTime := 10, updateTime := 11 }

theorem save_newUser :
    (save quietEnvironment userClass { cls := .sqliteDialect } toString emptyTable newUser).1 =
      .ok savedUser := by
  rfl

theorem savable_newUser :
    Savable quietEnvironment userClass { cls := .sqliteDialect } toString emptyTable newUser := by
  rw [Savable, if_pos (by rfl)]
  intro e hhook
  cases hhook
  exact ⟨by decide, .inl rfl⟩

/-- A field of its own in the column `update_time`: SQLite keeps the field and loses the time. -/
example :
    let stampMeta : TableMeta := ⟨[("username", { columnName := "update_time" })], by decide⟩
    let saved := save quietEnvironment { userClass with getTableMeta := fun _ => stampMeta }
      { cls := .sqliteDialect } toString emptyTable newUser
    saved.1 = .ok savedUser ∧
      (saved.2.rows (.string "8d6f")).map (· "update_time") = some (.string "ada") := by
  intro stampMeta saved
  exact ⟨rfl, rfl⟩

end User

end SqlRepository

end SoulCoreKit.Orm
