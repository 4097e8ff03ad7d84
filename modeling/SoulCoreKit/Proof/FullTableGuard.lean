import SoulCoreKit.Lib.Occurrence
import SoulCoreKit.Orm.QueryWrapper

/-!
# The guard against statements on the whole table

The guard and the choice between `WHERE` and `AND` both look for the letters anywhere in the text, and
the text holds the caller's names. A statement is judged here by the head the builder writes before any
clause: a clause of its own follows the head. Without the soft-delete clause the builder is right about
its text exactly when no name in the head contains the letters.
-/

namespace SoulCoreKit.Orm.QueryWrapper

variable {T : Type}

/-! ### What a guarded statement is -/

def deleteHead (q : QueryWrapper T) (tableName : String) : String :=
  let sd := q.softDeleteConfig
  if sd.enabled then
    "UPDATE " ++ tableName ++ " SET " ++ sd.columnName ++ " = " ++ sd.logicDeletedValue
  else
    "DELETE FROM " ++ tableName

def updateSql (tableName : String) (updates : List (String × QVariant T)) : Sql T :=
  [.text ("UPDATE " ++ tableName ++ " SET ")] ++ join ", " (setParts 1 updates) ++
    [.text ", update_time = ", .param (1 + Int32.ofNat updates.length) .updateTime]

def updateHead (q : QueryWrapper T) (tableName : String)
    (updates : List (String × QVariant T)) : String :=
  q.render (updateSql tableName updates)

/-- The builder's conditions, in parentheses where one of them is joined by `OR`. -/
def conditionsClause (q : QueryWrapper T) (startIndex : Int32) : Sql T :=
  (if q.hasOr then [.lparen] else []) ++ conditionsText 0 startIndex q.mConditions ++
    (if q.hasOr then [.rparen] else [])

/-- What the clause says before the builder's conditions. -/
def softDeleteLead (q : QueryWrapper T) : String :=
  let sd := q.softDeleteConfig
  if sd.enabled then sd.columnName ++ " = " ++ sd.logicNotDeletedValue ++ " AND " else ""

/-- A statement that is returned has a clause after its head, and the conditions, if there are any,
stand in it. -/
structure Guarded (q : QueryWrapper T) (head : String) (startIndex : Int32)
    (outcome : Except String (Sql T)) : Prop where
  hasWhere : ∀ sql, outcome = .ok sql →
    ∃ clause, clause ≠ "" ∧ q.render sql = head ++ " WHERE " ++ clause
  conditionsInside : q.mConditions ≠ [] → ∃ sql, outcome = .ok sql ∧
    q.render sql =
      head ++ " WHERE " ++ (q.softDeleteLead ++ q.render (q.conditionsClause startIndex))

/-! ### Letters in a text -/

def folded (text : String) : List Char := text.toList.map Char.toLower

theorem folded_append (first second : String) :
    folded (first ++ second) = folded first ++ folded second := by
  simp [folded]

theorem containsWhere_iff {text : String} :
    containsWhere text = true ↔ "where".toList <:+: folded text := by
  rw [containsWhere, List.any_eq_true]
  constructor
  · rintro ⟨tail, htail, hfront⟩
    rw [List.mem_tails] at htail
    exact (List.isPrefixOf_iff_prefix.mp hfront).isInfix.trans htail.isInfix
  · intro hinfix
    obtain ⟨tail, hfront, hsuffix⟩ := List.infix_iff_prefix_suffix.mp hinfix
    exact ⟨tail, (List.mem_tails _ _).mpr hsuffix, List.isPrefixOf_iff_prefix.mpr hfront⟩

theorem where_ne_nil : "where".toList ≠ [] := by decide

theorem last_notMem_where {text : String} {last : Char} (hlast : (folded text).getLast? = some last)
    (hnot : last ∉ "where".toList) : ∀ c ∈ (folded text).getLast?, c ∉ "where".toList := by
  intro c hc
  rw [hlast, Option.mem_some] at hc
  rw [← hc]
  exact hnot

theorem containsWhere_append_iff {first second : String}
    (hlast : ∀ c ∈ (folded first).getLast?, c ∉ "where".toList) :
    containsWhere (first ++ second) = true ↔
      containsWhere first = true ∨ containsWhere second = true := by
  rw [containsWhere_iff, folded_append, Occurrence.infix_append_iff_of_last where_ne_nil hlast,
    containsWhere_iff, containsWhere_iff]

theorem containsWhere_of_where (first second : String) :
    containsWhere (first ++ " WHERE " ++ second) = true := by
  have hlead : containsWhere " WHERE " = true := by decide
  rw [containsWhere_iff] at hlead ⊢
  rw [folded_append, folded_append]
  exact List.infix_append_of_infix_left (List.infix_append_of_infix_right hlead)

theorem folded_render (q : QueryWrapper T) (sql : Sql T) :
    folded (q.render sql) = (sql.map fun piece => folded (q.renderPiece piece)).flatten := by
  rw [folded, render, String.toList_join, List.map_flatMap, List.flatMap_map, List.flatMap_def]
  rfl

theorem containsWhere_render_iff (q : QueryWrapper T) {sql : Sql T}
    (hlast : ∀ piece ∈ sql, ∀ c ∈ (folded (q.renderPiece piece)).getLast?, c ∉ "where".toList) :
    containsWhere (q.render sql) = true ↔
      ∃ piece ∈ sql, containsWhere (q.renderPiece piece) = true := by
  have hlasts : ∀ part ∈ sql.map fun piece => folded (q.renderPiece piece),
      ∀ c ∈ part.getLast?, c ∉ "where".toList := by
    intro part hpart
    obtain ⟨piece, hpiece, rfl⟩ := List.mem_map.mp hpart
    exact hlast piece hpiece
  rw [containsWhere_iff, folded_render, Occurrence.infix_flatten_iff where_ne_nil hlasts]
  constructor
  · rintro ⟨part, hpart, hinfix⟩
    obtain ⟨piece, hpiece, rfl⟩ := List.mem_map.mp hpart
    exact ⟨piece, hpiece, containsWhere_iff.mpr hinfix⟩
  · rintro ⟨piece, hpiece, hcontains⟩
    exact ⟨_, List.mem_map.mpr ⟨piece, hpiece, rfl⟩, containsWhere_iff.mp hcontains⟩

/-! ### Placeholders -/

theorem toLower_notMem_where_of_isDigit {c : Char} (hdigit : c.isDigit = true) :
    c.toLower ∉ "where".toList := by
  have hle : c.val ≤ '9'.val := by
    rw [Char.isDigit, Bool.and_eq_true] at hdigit
    exact of_decide_eq_true hdigit.2
  have hnotUpper : ¬ (c.val ≥ 'A'.val ∧ c.val ≤ 'Z'.val) :=
    fun hupper => absurd (UInt32.le_trans hupper.1 hle) (by decide)
  have hlower : c.toLower = c := dif_neg hnotUpper
  rw [hlower]
  intro hmem
  have hletters : c = 'w' ∨ c = 'h' ∨ c = 'e' ∨ c = 'r' ∨ c = 'e' := by simpa using hmem
  obtain rfl | rfl | rfl | rfl | rfl := hletters <;> exact absurd hle (by decide)

theorem folded_repr_letters {n : Nat} {c : Char} (hc : c ∈ folded (Nat.repr n)) :
    c ∉ "where".toList := by
  obtain ⟨digit, hdigit, rfl⟩ := List.mem_map.mp hc
  apply toLower_notMem_where_of_isDigit
  rw [Nat.repr, String.toList_ofList] at hdigit
  exact Nat.isDigit_of_mem_toDigits (by decide) (by decide) hdigit

theorem folded_toString_letters {index : Int32} {c : Char} (hc : c ∈ folded (toString index)) :
    c ∉ "where".toList := by
  have hrepr : toString index = Int.repr index.toInt := rfl
  rw [hrepr] at hc
  cases hint : index.toInt with
  | ofNat n =>
      rw [hint] at hc
      exact folded_repr_letters hc
  | negSucc n =>
      rw [hint] at hc
      have hneg : Int.repr (.negSucc n) = "-" ++ Nat.repr (n + 1) := rfl
      rw [hneg, folded_append, List.mem_append] at hc
      obtain hminus | hdigits := hc
      · have hc : c = '-' := by simpa [folded] using hminus
        rw [hc]
        decide
      · exact folded_repr_letters hdigits

theorem folded_placeholder_letters (q : QueryWrapper T) {index : Int32} {c : Char}
    (hc : c ∈ folded (q.placeholder index)) : c ∉ "where".toList := by
  have hsplit : c ∈ folded "?" ∨ c ∈ folded "$" ∨ c ∈ folded (toString index) := by
    cases hdialect : q.mDialect with
    | none => exact Or.inl (by simpa [placeholder, hdialect] using hc)
    | some dialect =>
        cases hcls : dialect.cls with
        | sqliteDialect =>
            exact Or.inl (by
              simpa [placeholder, hdialect, SqlDialect.convertPlaceholder, hcls] using hc)
        | mySqlDialect =>
            exact Or.inl (by
              simpa [placeholder, hdialect, SqlDialect.convertPlaceholder, hcls] using hc)
        | postgreSqlDialect =>
            right
            rw [← List.mem_append, ← folded_append]
            simpa [placeholder, hdialect, SqlDialect.convertPlaceholder, hcls] using hc
  obtain hmark | hdollar | hindex := hsplit
  · have hc : c = '?' := by simpa [folded] using hmark
    rw [hc]
    decide
  · have hc : c = '$' := by simpa [folded] using hdollar
    rw [hc]
    decide
  · exact folded_toString_letters hindex

theorem containsWhere_placeholder (q : QueryWrapper T) (index : Int32) :
    containsWhere (q.placeholder index) = false := by
  by_contra hcontains
  rw [Bool.not_eq_false, containsWhere_iff] at hcontains
  have hmem : 'w' ∈ folded (q.placeholder index) := hcontains.subset (by decide)
  exact folded_placeholder_letters q hmem (by decide)

/-! ### The heads -/

theorem containsWhere_deleteHead (q : QueryWrapper T) (tableName : String)
    (hdisabled : q.softDeleteConfig.enabled = false) :
    containsWhere (q.deleteHead tableName) = containsWhere tableName := by
  have hhead : q.deleteHead tableName = "DELETE FROM " ++ tableName := by
    simp [deleteHead, hdisabled]
  have hverb : ¬ containsWhere "DELETE FROM " = true := by decide
  have hlast : (folded "DELETE FROM ").getLast? = some ' ' := by decide
  rw [hhead, Bool.eq_iff_iff, containsWhere_append_iff (last_notMem_where hlast (by decide)),
    or_iff_right hverb]

theorem containsWhere_spaced (name tail : String)
    (hfirst : ∃ rest, tail = " " ++ rest) (htail : containsWhere tail = false) :
    containsWhere (name ++ tail) = containsWhere name := by
  obtain ⟨rest, rfl⟩ := hfirst
  have hspace : folded " " = [' '] := by decide
  have hrest : ¬ "where".toList <:+: folded rest := by
    intro hinfix
    rw [← Bool.not_eq_true, containsWhere_iff, folded_append] at htail
    exact htail (List.infix_append_of_infix_right hinfix)
  rw [Bool.eq_iff_iff, containsWhere_iff, containsWhere_iff, folded_append, folded_append, hspace,
    List.singleton_append, Occurrence.infix_append_cons_iff (by decide), or_iff_left hrest]

theorem containsWhere_updateText (tableName : String) :
    containsWhere ("UPDATE " ++ tableName ++ " SET ") = containsWhere tableName := by
  have hverb : ¬ containsWhere "UPDATE " = true := by decide
  have hlast : (folded "UPDATE ").getLast? = some ' ' := by decide
  rw [containsWhere_spaced _ " SET " ⟨"SET ", rfl⟩ (by decide), Bool.eq_iff_iff,
    containsWhere_append_iff (last_notMem_where hlast (by decide)), or_iff_right hverb]

theorem containsWhere_column (column : String) :
    containsWhere (column ++ " = ") = containsWhere column :=
  containsWhere_spaced column " = " ⟨"= ", rfl⟩ (by decide)

/-- A piece of the head of an update: it ends in no letter of the word, and contains the word only as
one of the names does. -/
def HeadPiece (q : QueryWrapper T) (names : List String) (piece : Piece T) : Prop :=
  (∀ c ∈ (folded (q.renderPiece piece)).getLast?, c ∉ "where".toList) ∧
    (containsWhere (q.renderPiece piece) = true →
      ∃ name ∈ names, containsWhere name = true)

theorem headPiece_param (q : QueryWrapper T) (names : List String) (index : Int32) (bind : Bind T) :
    HeadPiece q names (.param index bind) := by
  constructor
  · intro c hc
    exact folded_placeholder_letters q (List.mem_of_getLast? hc)
  · intro hcontains
    rw [renderPiece, containsWhere_placeholder] at hcontains
    contradiction

theorem headPiece_text (q : QueryWrapper T) (names : List String) {text : String}
    (hlast : (folded text).getLast? = some ' ')
    (hnames : containsWhere text = true → ∃ name ∈ names, containsWhere name = true) :
    HeadPiece q names (.text text) := by
  refine ⟨?_, hnames⟩
  intro c hc
  rw [renderPiece, hlast, Option.mem_some_iff] at hc
  rw [← hc]
  decide

theorem getLast?_folded_append (first : String) {second : String} {c : Char}
    (hlast : (folded second).getLast? = some c) : (folded (first ++ second)).getLast? = some c := by
  rw [folded_append, List.getLast?_append, hlast, Option.some_or]

theorem mem_join_iff {separator : String} {parts : List (Sql T)} {piece : Piece T}
    (hne : piece ≠ .text separator) :
    piece ∈ join separator parts ↔ ∃ part ∈ parts, piece ∈ part := by
  unfold join
  induction parts with
  | nil => simp
  | cons first rest ih =>
      cases rest with
      | nil => simp
      | cons second rest =>
          rw [List.intersperse_cons_cons, List.flatten_cons, List.flatten_cons, List.mem_append,
            List.mem_append, ih]
          simp [hne]

theorem mem_setParts_iff {index : Int32} {updates : List (String × QVariant T)} {text : String} :
    (∃ part ∈ setParts index updates, .text text ∈ part) ↔
      ∃ pair ∈ updates, text = pair.1 ++ " = " := by
  induction updates generalizing index with
  | nil => simp [setParts]
  | cons pair rest ih => simp [setParts, ih]

theorem column_ne_separator (column : String) : column ++ " = " ≠ ", " := by
  intro heq
  have hlength := congrArg String.length heq
  have hseparator : ", ".length = 2 := rfl
  have hassign : " = ".length = 3 := rfl
  rw [String.length_append, hseparator, hassign] at hlength
  omega

theorem headPiece_of_mem (q : QueryWrapper T) (tableName : String)
    (updates : List (String × QVariant T)) {piece : Piece T}
    (hpiece : piece ∈ updateSql tableName updates) :
    HeadPiece q (tableName :: updates.map Prod.fst) piece := by
  cases piece with
  | param index bind => exact headPiece_param q _ index bind
  | lparen =>
      have hlast : (folded "(").getLast? = some '(' := by decide
      rw [HeadPiece, renderPiece]
      exact ⟨last_notMem_where hlast (by decide), fun hcontains => absurd hcontains (by decide)⟩
  | rparen =>
      have hlast : (folded ")").getLast? = some ')' := by decide
      rw [HeadPiece, renderPiece]
      exact ⟨last_notMem_where hlast (by decide), fun hcontains => absurd hcontains (by decide)⟩
  | text text =>
      by_cases hseparator : text = ", "
      · subst hseparator
        exact headPiece_text q _ (by decide) fun hcontains => absurd hcontains (by decide)
      · have hne : (Piece.text text : Piece T) ≠ .text ", " := by simpa using hseparator
        have hcases : text = "UPDATE " ++ tableName ++ " SET " ∨
            (∃ pair ∈ updates, text = pair.1 ++ " = ") ∨ text = ", update_time = " := by
          simpa [updateSql, mem_join_iff hne, mem_setParts_iff] using hpiece
        obtain rfl | ⟨pair, hpair, rfl⟩ | rfl := hcases
        · apply headPiece_text q _ (getLast?_folded_append _ (by decide))
          intro hcontains
          rw [containsWhere_updateText] at hcontains
          exact ⟨tableName, List.mem_cons_self, hcontains⟩
        · apply headPiece_text q _ (getLast?_folded_append _ (by decide))
          intro hcontains
          rw [containsWhere_column] at hcontains
          exact ⟨pair.1, List.mem_cons_of_mem _ (List.mem_map_of_mem hpair), hcontains⟩
        · exact headPiece_text q _ (by decide) fun hcontains => absurd hcontains (by decide)

theorem containsWhere_updateHead_iff (q : QueryWrapper T) (tableName : String)
    (updates : List (String × QVariant T)) :
    containsWhere (q.updateHead tableName updates) = true ↔
      ∃ name ∈ tableName :: updates.map Prod.fst, containsWhere name = true := by
  rw [updateHead, containsWhere_render_iff q fun piece hpiece =>
    (headPiece_of_mem q tableName updates hpiece).1]
  constructor
  · rintro ⟨piece, hpiece, hcontains⟩
    exact (headPiece_of_mem q tableName updates hpiece).2 hcontains
  · rintro ⟨name, hname, hcontains⟩
    obtain rfl | hcolumn := List.mem_cons.mp hname
    · refine ⟨.text ("UPDATE " ++ name ++ " SET "), by simp [updateSql], ?_⟩
      rwa [renderPiece, containsWhere_updateText]
    · obtain ⟨pair, hpair, rfl⟩ := List.mem_map.mp hcolumn
      have hne : (Piece.text (pair.1 ++ " = ") : Piece T) ≠ .text ", " := by
        simpa using column_ne_separator pair.1
      refine ⟨.text (pair.1 ++ " = "), ?_, by rwa [renderPiece, containsWhere_column]⟩
      have hmem : .text (pair.1 ++ " = ") ∈ join ", " (setParts 1 updates) :=
        (mem_join_iff hne).mpr (mem_setParts_iff.mpr ⟨pair, hpair, rfl⟩)
      simp [updateSql, hmem]

/-! ### The guard -/

theorem render_text (q : QueryWrapper T) (text : String) : q.render [.text text] = text := by
  apply String.toList_inj.mp
  simp [render, renderPiece]

theorem render_appendConditions (q : QueryWrapper T) (sql : Sql T) (startIndex : Int32)
    (hconditions : q.mConditions ≠ []) :
    q.render (q.appendConditions sql startIndex) =
      q.render sql ++ (if containsWhere (q.render sql) then " AND " else " WHERE ") ++
        q.render (q.conditionsClause startIndex) := by
  have happend : q.appendConditions sql startIndex =
      sql ++ [.text (if containsWhere (q.render sql) then " AND " else " WHERE ")] ++
        q.conditionsClause startIndex := by
    simp [appendConditions, hconditions, conditionsClause]
  rw [happend, render_append, render_append, render_text]

theorem appendConditions_of_nil (q : QueryWrapper T) (sql : Sql T) (startIndex : Int32)
    (hconditions : q.mConditions = []) : q.appendConditions sql startIndex = sql := by
  simp [appendConditions, hconditions]

theorem append_ne_empty_of_right {first second : String} (hsecond : second ≠ "") :
    first ++ second ≠ "" := by
  intro hempty
  exact hsecond (String.append_eq_empty_iff.mp hempty).2

theorem render_ne_empty_of_mem (q : QueryWrapper T) {sql : Sql T} {piece : Piece T}
    (hpiece : piece ∈ sql) (hne : q.renderPiece piece ≠ "") : q.render sql ≠ "" := by
  obtain ⟨before, rest, rfl⟩ := List.append_of_mem hpiece
  intro hempty
  rw [render_append, String.append_eq_empty_iff] at hempty
  have hpieces : q.render (piece :: rest) = q.renderPiece piece ++ q.render rest := by
    apply String.toList_inj.mp
    simp [render]
  rw [hpieces, String.append_eq_empty_iff] at hempty
  exact hne hempty.2.1

theorem conditionStr_text (cond : Condition T) (valueClause : Sql T) :
    ∃ text ≠ "", .text text ∈ conditionStr cond valueClause := by
  have hspace : ∀ text : String, cond.column ++ " " ++ text ≠ "" := by
    intro text hempty
    have hlead := (String.append_eq_empty_iff.mp hempty).1
    exact absurd (String.append_eq_empty_iff.mp hlead).2 (by decide)
  unfold conditionStr
  split
  · exact ⟨_, hspace _, List.mem_singleton_self _⟩
  · refine ⟨cond.column ++ " " ++ (opToString cond.op ++ " "), hspace _, ?_⟩
    simp [String.append_assoc]

theorem render_conditionsClause_ne_empty (q : QueryWrapper T) (startIndex : Int32)
    (hconditions : q.mConditions ≠ []) : q.render (q.conditionsClause startIndex) ≠ "" := by
  obtain ⟨cond, rest, hcons⟩ := List.exists_cons_of_ne_nil hconditions
  obtain ⟨text, htext, hmem⟩ := conditionStr_text cond (buildValueClause cond startIndex).1
  have hclause : .text text ∈ q.conditionsClause startIndex := by
    simp [conditionsClause, hcons, conditionsText, hmem]
  exact render_ne_empty_of_mem q hclause htext

theorem guardFullTable_of_containsWhere {q : QueryWrapper T} {message : String} {sql : Sql T}
    (hcontains : containsWhere (q.render sql) = true) : q.guardFullTable message sql = .ok sql := by
  simp [guardFullTable, hcontains]

section Guard

variable {q : QueryWrapper T} {head message : String} {sql : Sql T} {startIndex : Int32}

theorem guarded_of_conditions (hconditions : q.mConditions ≠ [])
    (hrender : q.render (q.appendConditions sql startIndex) = head ++ " WHERE " ++
      (q.softDeleteLead ++ q.render (q.conditionsClause startIndex))) :
    Guarded q head startIndex (q.guardFullTable message (q.appendConditions sql startIndex)) := by
  have hok : q.guardFullTable message (q.appendConditions sql startIndex) =
      .ok (q.appendConditions sql startIndex) := by
    apply guardFullTable_of_containsWhere
    rw [hrender]
    exact containsWhere_of_where head _
  rw [hok]
  refine ⟨?_, fun _ => ⟨_, rfl, hrender⟩⟩
  intro sql' hsql'
  cases hsql'
  exact ⟨_, append_ne_empty_of_right
    (render_conditionsClause_ne_empty q startIndex hconditions), hrender⟩

theorem guarded_of_enabled (henabled : q.softDeleteConfig.enabled = true)
    (hsql : q.render sql = head ++ notDeleted q.softDeleteConfig) :
    Guarded q head startIndex (q.guardFullTable message (q.appendConditions sql startIndex)) := by
  let kept := q.softDeleteConfig.columnName ++ " = " ++ q.softDeleteConfig.logicNotDeletedValue
  have hkept : kept ≠ "" := by
    intro hempty
    have hlead := (String.append_eq_empty_iff.mp hempty).1
    exact absurd (String.append_eq_empty_iff.mp hlead).2 (by decide)
  have hclause : q.render sql = head ++ " WHERE " ++ kept := by
    rw [hsql, notDeleted]
    simp [kept, String.append_assoc]
  have hcontains : containsWhere (q.render sql) = true := by
    rw [hclause]
    exact containsWhere_of_where head kept
  by_cases hconditions : q.mConditions = []
  · rw [appendConditions_of_nil q sql startIndex hconditions,
      guardFullTable_of_containsWhere hcontains]
    refine ⟨?_, fun hne => absurd hconditions hne⟩
    intro sql' hok
    cases hok
    exact ⟨kept, hkept, hclause⟩
  · apply guarded_of_conditions hconditions
    rw [render_appendConditions q sql startIndex hconditions, hcontains, hclause]
    simp [softDeleteLead, henabled, kept, String.append_assoc]

theorem guarded_of_clean_head (hallow : q.mAllowFullTable = false)
    (hdisabled : q.softDeleteConfig.enabled = false) (hsql : q.render sql = head)
    (hclean : containsWhere head = false) :
    Guarded q head startIndex (q.guardFullTable message (q.appendConditions sql startIndex)) := by
  by_cases hconditions : q.mConditions = []
  · have herror : q.guardFullTable message sql = .error message := by
      simp [guardFullTable, hsql, hclean, hallow]
    rw [appendConditions_of_nil q sql startIndex hconditions, herror]
    refine ⟨?_, fun hne => absurd hconditions hne⟩
    intro sql' hok
    cases hok
  · apply guarded_of_conditions hconditions
    rw [render_appendConditions q sql startIndex hconditions, hsql, hclean]
    simp [softDeleteLead, hdisabled, String.append_assoc]

theorem append_ne_self {first second : String} (hsecond : second ≠ "") : first ≠ first ++ second := by
  intro heq
  have hempty : first ++ "" = first ++ second := by rwa [String.append_empty]
  exact hsecond (String.append_right_inj first |>.mp hempty).symm

theorem not_guarded_of_where_in_head (hsql : q.render sql = head) (hcontains : containsWhere head = true) :
    ¬ Guarded q head startIndex (q.guardFullTable message (q.appendConditions sql startIndex)) := by
  intro hguarded
  by_cases hconditions : q.mConditions = []
  · rw [appendConditions_of_nil q sql startIndex hconditions,
      guardFullTable_of_containsWhere (by rwa [hsql])] at hguarded
    obtain ⟨clause, _, hrender⟩ := hguarded.hasWhere sql rfl
    rw [hsql, String.append_assoc] at hrender
    exact append_ne_self (fun hempty => absurd (String.append_eq_empty_iff.mp hempty).1 (by decide))
      hrender
  · obtain ⟨sql', hok, hrender⟩ := hguarded.conditionsInside hconditions
    have hsql' : sql' = q.appendConditions sql startIndex := by
      unfold guardFullTable at hok
      split at hok
      · cases hok
      · exact (Except.ok.inj hok).symm
    rw [hsql', render_appendConditions q sql startIndex hconditions, hsql, hcontains,
      String.append_assoc, String.append_assoc, String.append_right_inj] at hrender
    have hlists := congrArg String.toList hrender
    simp at hlists

theorem guarded_iff (hallow : q.mAllowFullTable = false)
    (hsql : q.render sql =
      head ++ if q.softDeleteConfig.enabled then notDeleted q.softDeleteConfig else "") :
    Guarded q head startIndex (q.guardFullTable message (q.appendConditions sql startIndex)) ↔
      q.softDeleteConfig.enabled = true ∨ containsWhere head = false := by
  cases henabled : q.softDeleteConfig.enabled with
  | true =>
      rw [henabled, if_pos rfl] at hsql
      exact ⟨fun _ => Or.inl rfl, fun _ => guarded_of_enabled henabled hsql⟩
  | false =>
      rw [henabled, if_neg Bool.false_ne_true, String.append_empty] at hsql
      constructor
      · intro hguarded
        right
        by_contra hcontains
        rw [Bool.not_eq_false] at hcontains
        exact not_guarded_of_where_in_head hsql hcontains hguarded
      · rintro (htrue | hclean)
        · contradiction
        · exact guarded_of_clean_head hallow henabled hsql hclean

end Guard

theorem delete_guarded_iff {q : QueryWrapper T} (hallow : q.mAllowFullTable = false)
    (tableName : String) :
    Guarded q (q.deleteHead tableName) 1 (q.buildDeleteSql tableName) ↔
      q.softDeleteConfig.enabled = true ∨ containsWhere tableName = false := by
  unfold buildDeleteSql
  rw [guarded_iff hallow]
  · cases henabled : q.softDeleteConfig.enabled with
    | true => simp
    | false => rw [containsWhere_deleteHead q tableName henabled]
  · cases henabled : q.softDeleteConfig.enabled with
    | true =>
        simp only [if_true, render_text, deleteHead, henabled, notDeleted]
        simp [String.append_assoc]
    | false => simp [render_text, deleteHead, henabled]

theorem update_guarded_iff {q : QueryWrapper T} (hallow : q.mAllowFullTable = false)
    (tableName : String) (updates : List (String × QVariant T)) :
    Guarded q (q.updateHead tableName updates) (1 + Int32.ofNat updates.length + 1)
        (q.buildUpdateSql tableName updates) ↔
      q.softDeleteConfig.enabled = true ∨
        ∀ name ∈ tableName :: updates.map Prod.fst, containsWhere name = false := by
  have hclean : containsWhere (q.updateHead tableName updates) = false ↔
      ∀ name ∈ tableName :: updates.map Prod.fst, containsWhere name = false := by
    rw [← Bool.not_eq_true, containsWhere_updateHead_iff]
    simp
  rw [← hclean]
  unfold buildUpdateSql
  apply guarded_iff hallow
  cases henabled : q.softDeleteConfig.enabled with
  | true =>
      rw [if_pos rfl, if_pos rfl, render_append, render_text]
      simp [updateHead, updateSql]
  | false => simp [updateHead, updateSql]

/-- The condition under which the builder is right about its own text, for the two statements that
change rows. -/
theorem statements_guarded_iff (q : QueryWrapper T) (hallow : q.mAllowFullTable = false)
    (tableName : String) (updates : List (String × QVariant T)) :
    (Guarded q (q.deleteHead tableName) 1 (q.buildDeleteSql tableName) ↔
      q.softDeleteConfig.enabled = true ∨ containsWhere tableName = false) ∧
    (Guarded q (q.updateHead tableName updates) (1 + Int32.ofNat updates.length + 1)
        (q.buildUpdateSql tableName updates) ↔
      q.softDeleteConfig.enabled = true ∨
        ∀ name ∈ tableName :: updates.map Prod.fst, containsWhere name = false) :=
  ⟨delete_guarded_iff hallow tableName, update_guarded_iff hallow tableName updates⟩

def withoutSoftDelete : QueryWrapper Nat :=
  { mDialect := some { cls := .sqliteDialect, softDelete := { enabled := false } } }

theorem statements_guarded_users :
    withoutSoftDelete.mAllowFullTable = false ∧
    Guarded withoutSoftDelete (withoutSoftDelete.deleteHead "users") 1
      (withoutSoftDelete.buildDeleteSql "users") ∧
    Guarded withoutSoftDelete (withoutSoftDelete.updateHead "users" [("name", .other 1)]) 3
      (withoutSoftDelete.buildUpdateSql "users" [("name", .other 1)]) := by
  have hboth := statements_guarded_iff withoutSoftDelete rfl "users" [("name", .other 1)]
  exact ⟨rfl, hboth.1.mpr (Or.inr (by decide)), hboth.2.mpr (Or.inr (by decide))⟩

/-- Every row of `somewhere` is deleted by a builder that did not ask for it, and a condition is
appended by an `AND` that no `WHERE` precedes. -/
theorem somewhere_deleted_without_where :
    withoutSoftDelete.mAllowFullTable = false ∧
    withoutSoftDelete.buildDeleteSql "somewhere" = .ok [.text "DELETE FROM somewhere"] ∧
    (withoutSoftDelete.eq "id" (.other 1)).buildDeleteSql "somewhere" =
      .ok [.text "DELETE FROM somewhere", .text " AND ", .text "id = ",
        .param 1 (.value (.other 1))] ∧
    ¬ Guarded withoutSoftDelete (withoutSoftDelete.deleteHead "somewhere") 1
      (withoutSoftDelete.buildDeleteSql "somewhere") ∧
    ¬ Guarded (withoutSoftDelete.eq "id" (.other 1))
      ((withoutSoftDelete.eq "id" (.other 1)).deleteHead "somewhere") 1
      ((withoutSoftDelete.eq "id" (.other 1)).buildDeleteSql "somewhere") := by
  refine ⟨rfl, by decide, by decide, ?_, ?_⟩
  · rw [delete_guarded_iff rfl]
    decide
  · rw [delete_guarded_iff rfl]
    decide

end SoulCoreKit.Orm.QueryWrapper
