import SoulCoreKit.Proof.EmittedTree
import SoulCoreKit.Proof.FullTableGuard

/-!
# Deleted rows stay hidden

With soft delete, each of the four statements has a `WHERE` clause that starts with the test of the
deletion column; the conditions of the builder are joined to it by `AND`. The test is the atom `0` of
the clause and the conditions are the atoms after it. A row makes some atoms true; `AND` and `OR` are
true of it exactly when both operands are and when one of them is, unknown operands included.
-/

namespace SoulCoreKit.Orm

open Precedence

/-! ### An operand in front of a tree without `OR` -/

namespace CallTree

variable {A : Type} {front : List (Token A)} {first : Expr A}

/-- The tokens go on after an operand, as factors of the same term. -/
def GoesOn (front : List (Token A)) (first : Expr A) (tokens : List (Token A)) : Prop :=
  ∃ e, IsSequence (front ++ [.connective .and] ++ tokens) none e ∧
    ∀ v, e.eval v = true → first.eval v = true

theorem goesOn_operand (hfront : IsSequence front none first) {operand : List (Token A)} {e : Expr A}
    (hoperand : IsOperand operand e) : GoesOn front first operand := by
  refine ⟨.and first e, hfront.and hoperand, ?_⟩
  intro v htrue
  rw [Expr.eval, Bool.and_eq_true] at htrue
  exact htrue.1

theorem GoesOn.join {tokens operand : List (Token A)} {e : Expr A} (hgoes : GoesOn front first tokens)
    (hoperand : IsOperand operand e) : GoesOn front first (tokens ++ [.connective .and] ++ operand) := by
  obtain ⟨term, hsequence, hterm⟩ := hgoes
  refine ⟨.and term e, ?_, ?_⟩
  · have hlonger := hsequence.and hoperand
    rwa [List.append_assoc (front ++ _), List.append_assoc (front ++ _)] at hlonger
  · intro v htrue
    rw [Expr.eval, Bool.and_eq_true] at htrue
    exact hterm v htrue.1

theorem tokens_ne_nil {tree : CallTree A} (hsize : tree.size ≠ 0) : tree.tokens ≠ [] := by
  obtain ⟨terms, term, hsequence, -⟩ := (readAs_tokens tree).resolve_left hsize
  exact ne_nil_of_isSequence hsequence

theorem goesOn_joinTokens (hfront : IsSequence front none first) {before : CallTree A}
    (hbefore : before.size ≠ 0 → GoesOn front first before.tokens) {operand : List (Token A)}
    {e : Expr A} (hoperand : IsOperand operand e) :
    GoesOn front first (joinTokens before.tokens .and operand) := by
  have hne : operand.isEmpty = false := by simpa using ne_nil_of_isSequence hoperand.isSequence
  rw [joinTokens, hne, if_neg Bool.false_ne_true]
  by_cases hzero : before.size = 0
  · rw [(tokens_of_size_zero hzero).1, if_pos List.isEmpty_nil]
    exact goesOn_operand hfront hoperand
  · rw [if_neg (by simpa using tokens_ne_nil hzero)]
    exact (hbefore hzero).join hoperand

theorem goesOn_strict (hfront : IsSequence front none first) (tree : CallTree A)
    (hsize : tree.size ≠ 0) : GoesOn front first tree.strict.tokens := by
  have hgroup (before body : CallTree A) (hsum : before.size + body.size ≠ 0)
      (hbefore : before.size ≠ 0 → GoesOn front first before.strict.tokens) :
      GoesOn front first (CallTree.and_ before.strict body.strict).tokens := by
    rw [tokens]
    by_cases hbody : body.size = 0
    · have hempty : body.strict.size = 0 := by rwa [size_strict]
      rw [hempty, (tokens_of_size_zero hempty).1]
      exact hbefore (by omega)
    · have hne : body.strict.size ≠ 0 := by rwa [size_strict]
      obtain ⟨e, hoperand, -⟩ := isOperand_group hne ((readAs_tokens _).resolve_left hne)
      rw [← size_strict] at hbefore
      exact goesOn_joinTokens hfront hbefore hoperand
  induction tree with
  | empty => exact absurd rfl hsize
  | atom before a ih =>
    rw [← size_strict] at ih
    exact goesOn_joinTokens hfront ih (isOperand_atom a)
  | and_ before body ihBefore ihBody => exact hgroup before body hsize ihBefore
  | or_ before body ihBefore ihBody => exact hgroup before body hsize ihBefore

end CallTree

namespace QueryWrapper

variable {T : Type}

/-! ### The clause -/

/-- The clause as tokens: the test of the deletion column, then the conditions. -/
def clauseTokens (q : QueryWrapper T) : List (Token Nat) :=
  .atom 0 :: if q.mConditions.isEmpty then []
    else .connective .and :: q.whereTokens.map (Token.map (· + 1))

def spellClause (q : QueryWrapper T) (startIndex : Int32) : Token Nat → Sql T
  | .atom 0 =>
      [.text (q.softDeleteConfig.columnName ++ " = " ++ q.softDeleteConfig.logicNotDeletedValue)]
  | .atom (i + 1) => spell startIndex q.mConditions (.atom i)
  | token => spell startIndex q.mConditions token

/-- The characters of the clause. -/
def clauseText (q : QueryWrapper T) (startIndex : Int32) : String :=
  q.render (q.clauseTokens.flatMap (q.spellClause startIndex))

/-- What a selection says after its clause. -/
def selectTail (q : QueryWrapper T) : String :=
  (if q.mGroupBy.isEmpty then "" else " GROUP BY " ++ ", ".intercalate q.mGroupBy) ++
    (if q.mOrderBy.isEmpty then "" else " ORDER BY " ++ ", ".intercalate q.mOrderBy) ++
    (if q.mLimit > 0 ∨ q.mOffset > 0 then " " ++ q.limitOffset else "")

theorem conditionTokens_shift (i : Nat) (conds : List (Condition T)) :
    conditionTokens (i + 2) conds = (conditionTokens (i + 1) conds).map (Token.map (· + 1)) := by
  induction conds generalizing i with
  | nil => rfl
  | cons cond rest ih =>
    rw [conditionTokens, conditionTokens, ih (i + 1)]
    simp [Token.map]

theorem sequenceTokens_shift (conds : List (Condition T)) :
    sequenceTokens 1 conds = (sequenceTokens 0 conds).map (Token.map (· + 1)) := by
  cases conds with
  | nil => rfl
  | cons cond rest =>
    rw [sequenceTokens, sequenceTokens, conditionTokens_shift 0]
    simp [Token.map]

theorem spellClause_map (q : QueryWrapper T) (startIndex : Int32) (token : Token Nat) :
    q.spellClause startIndex (token.map (· + 1)) = spell startIndex q.mConditions token := by
  cases token <;> rfl

theorem conditionsClause_eq (q : QueryWrapper T) (startIndex : Int32) :
    q.conditionsClause startIndex = q.whereTokens.flatMap (spell startIndex q.mConditions) := by
  have htext := conditionsText_eq startIndex [] q.mConditions
  rw [List.length_nil, List.nil_append, show indexAfter startIndex [] = startIndex from rfl] at htext
  rw [conditionsClause, whereTokens, htext, List.flatMap_append, List.flatMap_append]
  split_ifs <;> rfl

theorem clauseText_eq (q : QueryWrapper T) (startIndex : Int32) :
    q.clauseText startIndex =
      q.softDeleteConfig.columnName ++ " = " ++ q.softDeleteConfig.logicNotDeletedValue ++
        if q.mConditions.isEmpty then "" else " AND " ++ q.render (q.conditionsClause startIndex) := by
  rw [clauseText, clauseTokens, List.flatMap_cons, render_append]
  have hpieces : (q.whereTokens.map (Token.map (· + 1))).flatMap (q.spellClause startIndex) =
      q.conditionsClause startIndex := by
    rw [List.flatMap_map, conditionsClause_eq]
    simp only [spellClause_map]
  have hand : q.render (q.spellClause startIndex (.connective .and)) = " AND " := render_text q " AND "
  have htest : q.render (q.spellClause startIndex (.atom 0)) = _ := render_text q _
  rw [htest]
  split_ifs
  · rfl
  · rw [List.flatMap_cons, hpieces, render_append, hand]

/-- After a head with the test of the deletion column, the whole is the head and the clause. -/
theorem render_appendConditions_of_notDeleted (q : QueryWrapper T) {sql : Sql T} {head : String}
    (hsql : q.render sql = head ++ notDeleted q.softDeleteConfig) (startIndex : Int32) :
    q.render (q.appendConditions sql startIndex) = head ++ " WHERE " ++ q.clauseText startIndex := by
  have hclause : q.render sql = head ++ " WHERE " ++ (q.softDeleteConfig.columnName ++ " = " ++
      q.softDeleteConfig.logicNotDeletedValue) := by
    rw [hsql, notDeleted]
    simp only [String.append_assoc]
  rw [clauseText_eq]
  by_cases hconditions : q.mConditions = []
  · rw [appendConditions_of_nil q sql startIndex hconditions, hclause, hconditions]
    simp
  · have hcontains : containsWhere (q.render sql) = true := by
      rw [hclause]
      exact containsWhere_of_where head _
    rw [render_appendConditions q sql startIndex hconditions, hcontains, hclause, if_pos rfl,
      if_neg (by simpa using hconditions)]
    simp only [String.append_assoc]

theorem guardFullTable_of_notDeleted (q : QueryWrapper T) {sql : Sql T} {head : String}
    (hsql : q.render sql = head ++ notDeleted q.softDeleteConfig) (startIndex : Int32)
    (message : String) :
    ∃ sql', q.guardFullTable message (q.appendConditions sql startIndex) = .ok sql' ∧
      q.render sql' = head ++ " WHERE " ++ q.clauseText startIndex := by
  have hrender := render_appendConditions_of_notDeleted q hsql startIndex
  refine ⟨_, guardFullTable_of_containsWhere ?_, hrender⟩
  rw [hrender]
  exact containsWhere_of_where head _

/-! ### The clause as it is read -/

theorem sequenceTokens_of_not_hasOr {q : QueryWrapper T} (hor : q.hasOr = false) (i : Nat) :
    sequenceTokens i q.mConditions = sequenceTokens i (q.mConditions.map Condition.joinedByAnd) := by
  have htags : ∀ cond ∈ q.mConditions, connectiveOf cond = .and := by
    intro cond hcond
    have hlogic := List.any_eq_false.mp hor cond hcond
    rw [connectiveOf, if_neg (by simpa using hlogic)]
  have hrest : ∀ (conds : List (Condition T)) (n : Nat), (∀ cond ∈ conds, connectiveOf cond = .and) →
      conditionTokens n conds = conditionTokens n (conds.map Condition.joinedByAnd) := by
    intro conds
    induction conds with
    | nil => intros; rfl
    | cons cond rest ih =>
      intro n hand
      rw [List.forall_mem_cons] at hand
      rw [List.map_cons, conditionTokens, conditionTokens, hand.1, ih (n + 1) hand.2]
      rfl
  cases hconds : q.mConditions with
  | nil => rfl
  | cons cond rest =>
    rw [hconds, List.forall_mem_cons] at htags
    rw [List.map_cons, sequenceTokens, sequenceTokens, hrest rest (i + 1) htags.2]
    rfl

/-- The clause of every builder is read, and the test decides. -/
theorem parse_clauseTokens (tree : CallTree (Atom T)) (settings : QueryWrapper T) :
    ∃ e, Precedence.parse (tree.fill { settings with mConditions := [] }).clauseTokens = some e ∧
      ∀ v, e.eval v = true → v 0 = true := by
  set q := tree.fill { settings with mConditions := [] } with hq
  have hconditions : q.mConditions = tree.conditions := by
    rw [hq, CallTree.fill_eq]
    rfl
  have hfront : IsSequence [.atom 0] none (.atom 0) := (isOperand_atom 0).isSequence
  by_cases hsize : tree.size = 0
  · have hempty : q.mConditions.isEmpty = true := by
      rw [hconditions, List.isEmpty_iff_length_eq_zero, CallTree.length_conditions, hsize]
    refine ⟨.atom 0, ?_, fun v htrue => htrue⟩
    rw [clauseTokens, hempty, if_pos rfl, hfront.parse_eq]
    rfl
  · have hnonempty : ¬ q.mConditions.isEmpty = true := by
      rw [hconditions, List.isEmpty_iff_length_eq_zero, CallTree.length_conditions]
      exact hsize
    have hgoes : CallTree.GoesOn [.atom 0] (.atom 0) (q.whereTokens.map (Token.map (· + 1))) := by
      rw [whereTokens, List.map_append, List.map_append, conditionTokens_zero, ← sequenceTokens_shift]
      cases hor : q.hasOr with
      | true =>
        -- whatever is inside, the parentheses make it one factor
        have hne : (tree.number 1).emitted.size ≠ 0 := by
          rwa [CallTree.size_emitted, CallTree.size_number]
        obtain ⟨terms, term, hsequence, -⟩ := (CallTree.readAs_tokens _).resolve_left hne
        rw [hconditions, CallTree.sequenceTokens_conditions tree 1]
        exact CallTree.goesOn_operand hfront hsequence.parenthesized
      | false =>
        have hne : (tree.number 1).size ≠ 0 := by rwa [CallTree.size_number]
        rw [sequenceTokens_of_not_hasOr hor, hconditions, CallTree.sequenceTokens_joinedByAnd tree 1]
        simpa using CallTree.goesOn_strict hfront (tree.number 1) hne
    obtain ⟨e, hsequence, hdecides⟩ := hgoes
    refine ⟨e, ?_, hdecides⟩
    rw [clauseTokens, if_neg hnonempty]
    exact hsequence.parse_eq

/-! ### The statements -/

section Statements

variable {q : QueryWrapper T} (henabled : q.softDeleteConfig.enabled = true) (tableName : String)

include henabled

theorem render_buildSelectSql :
    q.render (q.buildSelectSql tableName) =
      "SELECT * FROM " ++ tableName ++ " WHERE " ++ q.clauseText 1 ++ q.selectTail := by
  have hsql : q.render [.text ("SELECT * FROM " ++ tableName), .text (notDeleted q.softDeleteConfig)] =
      "SELECT * FROM " ++ tableName ++ notDeleted q.softDeleteConfig := by
    rw [← List.singleton_append, render_append, render_text, render_text]
  rw [← render_appendConditions_of_notDeleted q hsql 1]
  simp only [buildSelectSql, henabled, if_true, List.singleton_append, selectTail]
  split_ifs <;> simp only [render_append, render_text, String.append_assoc, String.append_empty,
    String.empty_append]

theorem render_buildCountSql :
    q.render (q.buildCountSql tableName) =
      "SELECT COUNT(*) FROM " ++ tableName ++ " WHERE " ++ q.clauseText 1 := by
  have hhead : q.render [.text "SELECT COUNT", .lparen, .text "*", .rparen,
      .text (" FROM " ++ tableName)] = "SELECT COUNT(*) FROM " ++ tableName := by
    apply String.toList_inj.mp
    simp [render, renderPiece]
  simp only [buildCountSql, henabled, if_true]
  apply render_appendConditions_of_notDeleted
  rw [render_append, render_text, hhead]

theorem render_buildDeleteSql :
    ∃ sql, q.buildDeleteSql tableName = .ok sql ∧
      q.render sql = q.deleteHead tableName ++ " WHERE " ++ q.clauseText 1 := by
  simp only [buildDeleteSql, deleteHead, henabled, if_true]
  apply guardFullTable_of_notDeleted
  rw [render_text, notDeleted]
  simp only [String.append_assoc]

theorem render_buildUpdateSql (updates : List (String × QVariant T)) :
    ∃ sql, q.buildUpdateSql tableName updates = .ok sql ∧
      q.render sql = q.updateHead tableName updates ++ " WHERE " ++
        q.clauseText (1 + Int32.ofNat updates.length + 1) := by
  simp only [buildUpdateSql, henabled, if_true]
  apply guardFullTable_of_notDeleted
  rw [render_append, render_text]
  rfl

end Statements

/-- With soft delete, the four statements have a clause after their heads, and it is true of a row only
if the deletion column says that the row is not deleted. -/
theorem deleted_rows_excluded (tree : CallTree (Atom T)) (settings : QueryWrapper T)
    (tableName : String) (updates : List (String × QVariant T)) :
    let q := tree.fill { settings with mConditions := [] }
    q.softDeleteConfig.enabled = true →
      q.render (q.buildSelectSql tableName) =
        "SELECT * FROM " ++ tableName ++ " WHERE " ++ q.clauseText 1 ++ q.selectTail ∧
      q.render (q.buildCountSql tableName) =
        "SELECT COUNT(*) FROM " ++ tableName ++ " WHERE " ++ q.clauseText 1 ∧
      (∃ sql, q.buildDeleteSql tableName = .ok sql ∧
        q.render sql = q.deleteHead tableName ++ " WHERE " ++ q.clauseText 1) ∧
      (∃ sql, q.buildUpdateSql tableName updates = .ok sql ∧
        q.render sql = q.updateHead tableName updates ++ " WHERE " ++
          q.clauseText (1 + Int32.ofNat updates.length + 1)) ∧
      ∃ e, Precedence.parse q.clauseTokens = some e ∧ ∀ v, e.eval v = true → v 0 = true := by
  intro q henabled
  exact ⟨render_buildSelectSql henabled tableName, render_buildCountSql henabled tableName,
    render_buildDeleteSql henabled tableName, render_buildUpdateSql henabled tableName updates,
    parse_clauseTokens tree settings⟩

/-- A leading group and an `OR` behind it. -/
def leadingGroup : CallTree (Atom Nat) :=
  .or_ (.or_ .empty (.atom (.atom .empty (.isNull "a")) (.isNull "b"))) (.atom .empty (.isNull "c"))

theorem deleted_rows_excluded_leadingGroup :
    (leadingGroup.fill {}).softDeleteConfig.enabled = true ∧
      (leadingGroup.fill {}).clauseText 1 =
        "deleted = 0 AND ((a IS NULL AND b IS NULL) OR c IS NULL)" ∧
      ∃ e, Precedence.parse (leadingGroup.fill {}).clauseTokens = some e ∧
        ∀ v, e.eval v = true → v 0 = true := by
  refine ⟨rfl, by decide, ?_⟩
  exact (deleted_rows_excluded leadingGroup {} "users" [] rfl).2.2.2.2

end QueryWrapper

end SoulCoreKit.Orm
