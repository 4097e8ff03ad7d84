import SoulCoreKit.Orm.CallTree

/-!
# What the emitted condition means

The conditions of a builder are a flat list with counters of parentheses and one tag each, and a
nested builder is appended after its tags and counters were rewritten. The text that comes out is the
text of a tree again: of the tree in which every `or_` inside an `and_` has become an `and_`. A tree
and the tree its text spells denote the same function exactly if there was no such `or_`, because a
read-once condition tells its connectives apart.
-/

namespace SoulCoreKit.Orm

open Precedence

variable {T A : Type}

/-! ### The conditions of a tree -/

def Atom.condition : Atom T → Condition T
  | .eq column value => { column, op := .eq, value }
  | .ne column value => { column, op := .ne, value }
  | .gt column value => { column, op := .gt, value }
  | .ge column value => { column, op := .ge, value }
  | .lt column value => { column, op := .lt, value }
  | .le column value => { column, op := .le, value }
  | .like column value => { column, op := .like, value := .string ("%" ++ value ++ "%") }
  | .notLike column value => { column, op := .notLike, value := .string ("%" ++ value ++ "%") }
  | .likeLeft column value => { column, op := .like, value := .string ("%" ++ value) }
  | .likeRight column value => { column, op := .like, value := .string (value ++ "%") }
  | .in_ column values =>
      { column, op := .in_, inValues := values, value := values.head?.getD .invalid }
  | .notIn column values =>
      { column, op := .notIn, inValues := values, value := values.head?.getD .invalid }
  | .isNull column => { column, op := .isNull }
  | .isNotNull column => { column, op := .isNotNull }

theorem Atom.apply_eq (q : QueryWrapper T) (a : Atom T) :
    a.apply q = q.pushCondition a.condition := by
  cases a <;> rfl

theorem Atom.condition_tags (a : Atom T) :
    a.condition.logic = .and ∧ a.condition.openParens = 0 ∧ a.condition.closeParens = 0 := by
  cases a <;> exact ⟨rfl, rfl, rfl⟩

/-- The tag that `and_` gives to every condition of its group. -/
def Condition.joinedByAnd (cond : Condition T) : Condition T := { cond with logic := .and }

namespace CallTree

/-- The conditions the calls add. -/
def conditions : CallTree (Atom T) → List (Condition T)
  | .empty => []
  | .atom before a => before.conditions ++ [a.condition]
  | .and_ before body =>
      before.conditions ++
        (QueryWrapper.parenthesize body.conditions).map Condition.joinedByAnd
  | .or_ before body =>
      before.conditions ++
        QueryWrapper.setFrontLogic .or (QueryWrapper.parenthesize body.conditions)

theorem fill_eq (tree : CallTree (Atom T)) (q : QueryWrapper T) :
    tree.fill q = { q with mConditions := q.mConditions ++ tree.conditions } := by
  induction tree generalizing q with
  | empty => simp [fill, conditions]
  | atom before a ih =>
      rw [fill, Atom.apply_eq, ih]
      simp [QueryWrapper.pushCondition, conditions]
  | and_ before body ihBefore ihBody =>
      rw [fill, ihBefore, QueryWrapper.and_, ihBody]
      simp only [conditions, List.nil_append, List.append_assoc]
      rfl
  | or_ before body ihBefore ihBody =>
      rw [fill, ihBefore, QueryWrapper.or_, ihBody]
      simp [conditions]

end CallTree

namespace QueryWrapper

variable {conds group : List (Condition T)}

@[simp]
theorem length_openFront (conds : List (Condition T)) : (openFront conds).length = conds.length := by
  cases conds <;> rfl

@[simp]
theorem length_closeBack (conds : List (Condition T)) : (closeBack conds).length = conds.length := by
  induction conds using closeBack.induct <;> simp_all [closeBack]

@[simp]
theorem length_parenthesize (conds : List (Condition T)) :
    (parenthesize conds).length = conds.length := by
  unfold parenthesize
  split_ifs <;> simp

@[simp]
theorem length_setFrontLogic (logic : SqlKeyword) (conds : List (Condition T)) :
    (setFrontLogic logic conds).length = conds.length := by
  cases conds <;> rfl

theorem map_openFront (conds : List (Condition T)) :
    (openFront conds).map Condition.joinedByAnd = openFront (conds.map Condition.joinedByAnd) := by
  cases conds <;> rfl

theorem map_closeBack (conds : List (Condition T)) :
    (closeBack conds).map Condition.joinedByAnd = closeBack (conds.map Condition.joinedByAnd) := by
  induction conds using closeBack.induct <;> simp_all [closeBack, Condition.joinedByAnd]

theorem map_parenthesize (conds : List (Condition T)) :
    (parenthesize conds).map Condition.joinedByAnd =
      parenthesize (conds.map Condition.joinedByAnd) := by
  unfold parenthesize
  rw [List.length_map]
  split_ifs
  · rw [map_closeBack, map_openFront]
  · rfl

theorem map_setFrontLogic (logic : SqlKeyword) (conds : List (Condition T)) :
    (setFrontLogic logic conds).map Condition.joinedByAnd = conds.map Condition.joinedByAnd := by
  cases conds <;> rfl

@[simp]
theorem map_map_joinedByAnd (conds : List (Condition T)) :
    (conds.map Condition.joinedByAnd).map Condition.joinedByAnd =
      conds.map Condition.joinedByAnd := by
  rw [List.map_map]
  rfl

/-! ### The tokens of a list of conditions -/

/-- The tokens of the conditions from position `i` on, without the connective before them. -/
def sequenceTokens (i : Nat) : List (Condition T) → List (Token Nat)
  | [] => []
  | cond :: rest =>
      List.replicate cond.openParens .lparen ++ [.atom i] ++
        List.replicate cond.closeParens .rparen ++ conditionTokens (i + 1) rest

theorem conditionTokens_zero (conds : List (Condition T)) :
    conditionTokens 0 conds = sequenceTokens 0 conds := by
  cases conds <;> simp [conditionTokens, sequenceTokens]

theorem conditionTokens_cons (i : Nat) (cond : Condition T) (rest : List (Condition T)) :
    conditionTokens (i + 1) (cond :: rest) =
      [.connective (connectiveOf cond)] ++ sequenceTokens (i + 1) (cond :: rest) := by
  simp [conditionTokens, sequenceTokens]

theorem conditionTokens_append (i : Nat) (conds group : List (Condition T)) :
    conditionTokens (i + 1) (conds ++ group) =
      conditionTokens (i + 1) conds ++ conditionTokens (i + 1 + conds.length) group := by
  induction conds generalizing i with
  | nil => simp [conditionTokens]
  | cons cond rest ih =>
      have hnext : i + 1 + 1 + rest.length = i + 1 + (rest.length + 1) := by omega
      simp [conditionTokens, ih, hnext]

theorem sequenceTokens_eq_nil_iff (i : Nat) : sequenceTokens i conds = [] ↔ conds = [] := by
  cases conds <;> simp [sequenceTokens]

/-- A group of conditions after others: one connective, the tag of its first condition, between. -/
theorem sequenceTokens_append (i : Nat) (cond : Condition T) (rest group : List (Condition T)) :
    sequenceTokens i (group ++ cond :: rest) =
      if group.isEmpty then sequenceTokens i (cond :: rest)
      else sequenceTokens i group ++ [.connective (connectiveOf cond)] ++
        sequenceTokens (i + group.length) (cond :: rest) := by
  cases group with
  | nil => rfl
  | cons first others =>
      have hnext : i + 1 + others.length = i + others.length + 1 := by omega
      have happend : conditionTokens (i + 1) (others ++ cond :: rest) =
          conditionTokens (i + 1) others ++
            ([.connective (connectiveOf cond)] ++
              sequenceTokens (i + others.length + 1) (cond :: rest)) := by
        rw [conditionTokens_append, hnext, conditionTokens_cons]
      rw [List.cons_append, sequenceTokens, happend]
      simp [sequenceTokens, Nat.add_assoc]

theorem sequenceTokens_openFront (i : Nat) (hne : conds ≠ []) :
    sequenceTokens i (openFront conds) = [.lparen] ++ sequenceTokens i conds := by
  cases conds with
  | nil => exact absurd rfl hne
  | cons cond rest => simp [openFront, sequenceTokens, List.replicate_succ]

theorem conditionTokens_closeBack (i : Nat) (hne : conds ≠ []) :
    conditionTokens (i + 1) (closeBack conds) =
      conditionTokens (i + 1) conds ++ [.rparen] := by
  induction conds using closeBack.induct generalizing i with
  | case1 => exact absurd rfl hne
  | case2 cond => simp [closeBack, conditionTokens, connectiveOf, List.replicate_succ']
  | case3 cond next rest ih =>
      have hrest := ih (i + 1) (by simp)
      simp only [closeBack]
      rw [conditionTokens, conditionTokens, hrest]
      simp

theorem sequenceTokens_closeBack (i : Nat) (hne : conds ≠ []) :
    sequenceTokens i (closeBack conds) = sequenceTokens i conds ++ [.rparen] := by
  match conds with
  | [] => exact absurd rfl hne
  | [cond] => simp [closeBack, sequenceTokens, conditionTokens, List.replicate_succ']
  | cond :: next :: rest =>
      simp only [closeBack]
      rw [sequenceTokens, sequenceTokens, conditionTokens_closeBack i (by simp)]
      simp

theorem sequenceTokens_parenthesize (i : Nat) (conds : List (Condition T)) :
    sequenceTokens i (parenthesize conds) =
      if conds.length > 1 then [.lparen] ++ sequenceTokens i conds ++ [.rparen]
      else sequenceTokens i conds := by
  unfold parenthesize
  split_ifs with hlong
  · have hne : conds ≠ [] := List.ne_nil_of_length_pos (by omega)
    have hopen : openFront conds ≠ [] := by
      apply List.ne_nil_of_length_pos
      rw [length_openFront]
      omega
    rw [sequenceTokens_closeBack i hopen, sequenceTokens_openFront i hne]
  · rfl

theorem sequenceTokens_setFrontLogic (i : Nat) (logic : SqlKeyword) (conds : List (Condition T)) :
    sequenceTokens i (setFrontLogic logic conds) = sequenceTokens i conds := by
  cases conds <;> rfl

end QueryWrapper

/-! ### The tree the text spells -/

namespace CallTree

/-- Every `or_` turned into an `and_`. -/
def strict : CallTree A → CallTree A
  | .empty => .empty
  | .atom before a => .atom before.strict a
  | .and_ before body => .and_ before.strict body.strict
  | .or_ before body => .and_ before.strict body.strict

/-- Every `or_` inside an `and_` turned into an `and_`. -/
def emitted : CallTree A → CallTree A
  | .empty => .empty
  | .atom before a => .atom before.emitted a
  | .and_ before body => .and_ before.emitted body.strict
  | .or_ before body => .or_ before.emitted body.emitted

/-- An operand written after others. -/
def joinTokens (before : List (Token A)) (connective : Connective) (operand : List (Token A)) :
    List (Token A) :=
  if operand.isEmpty then before
  else if before.isEmpty then operand
  else before ++ [.connective connective] ++ operand

/-- A nested builder of `n` atoms. -/
def groupTokens (n : Nat) (tokens : List (Token A)) : List (Token A) :=
  if n > 1 then [.lparen] ++ tokens ++ [.rparen] else tokens

/-- The tree written out, with the connective it asks for before every operand. -/
def tokens : CallTree A → List (Token A)
  | .empty => []
  | .atom before a => joinTokens before.tokens .and [.atom a]
  | .and_ before body => joinTokens before.tokens .and (groupTokens body.size body.tokens)
  | .or_ before body => joinTokens before.tokens .or (groupTokens body.size body.tokens)

@[simp]
theorem size_number (tree : CallTree A) (start : Nat) : (tree.number start).size = tree.size := by
  induction tree generalizing start <;> simp_all [number, size]

@[simp]
theorem size_strict (tree : CallTree A) : tree.strict.size = tree.size := by
  induction tree <;> simp_all [strict, size]

@[simp]
theorem size_emitted (tree : CallTree A) : tree.emitted.size = tree.size := by
  induction tree <;> simp_all [emitted, size]

@[simp]
theorem length_conditions (tree : CallTree (Atom T)) : tree.conditions.length = tree.size := by
  induction tree <;> simp_all [conditions, size]

theorem joinTokens_sequenceTokens (i : Nat) (connective : Connective)
    (before group : List (Condition T))
    (hhead : ∀ cond ∈ group.head?, QueryWrapper.connectiveOf cond = connective) :
    QueryWrapper.sequenceTokens i (before ++ group) =
      joinTokens (QueryWrapper.sequenceTokens i before) connective
        (QueryWrapper.sequenceTokens (i + before.length) group) := by
  unfold joinTokens
  cases group with
  | nil => simp [QueryWrapper.sequenceTokens]
  | cons cond rest =>
      have hconnective := hhead cond rfl
      rw [QueryWrapper.sequenceTokens_append, hconnective]
      simp only [List.isEmpty_iff, QueryWrapper.sequenceTokens_eq_nil_iff, reduceCtorEq, if_false]
      split_ifs with hbefore
      · rw [hbefore, List.length_nil, Nat.add_zero]
      · rfl

theorem head_joinedByAnd {conds : List (Condition T)} :
    ∀ cond ∈ (conds.map Condition.joinedByAnd).head?, QueryWrapper.connectiveOf cond = .and := by
  intro cond hcond
  rw [List.head?_map, Option.mem_def, Option.map_eq_some_iff] at hcond
  obtain ⟨original, _, rfl⟩ := hcond
  rfl

theorem head_setFrontLogic {conds : List (Condition T)} :
    ∀ cond ∈ (QueryWrapper.setFrontLogic .or conds).head?, QueryWrapper.connectiveOf cond = .or := by
  intro cond hcond
  cases conds with
  | nil => exact absurd hcond (by simp [QueryWrapper.setFrontLogic])
  | cons first rest =>
      obtain rfl : _ = cond := by simpa [QueryWrapper.setFrontLogic] using hcond
      rfl

/-- With every tag set to `AND` the text spells the tree without its `or_`. -/
theorem sequenceTokens_joinedByAnd (tree : CallTree (Atom T)) (start : Nat) :
    QueryWrapper.sequenceTokens start (tree.conditions.map Condition.joinedByAnd) =
      (tree.number start).strict.tokens := by
  induction tree generalizing start with
  | empty => rfl
  | atom before a ih =>
      obtain ⟨_, hopen, hclose⟩ := a.condition_tags
      rw [conditions, List.map_append, joinTokens_sequenceTokens _ .and _ _ head_joinedByAnd, ih]
      simp [number, strict, tokens, QueryWrapper.sequenceTokens, QueryWrapper.conditionTokens,
        Condition.joinedByAnd, hopen, hclose]
  | and_ before body ihBefore ihBody =>
      rw [conditions, List.map_append, QueryWrapper.map_map_joinedByAnd,
        joinTokens_sequenceTokens _ .and _ _ head_joinedByAnd, ihBefore,
        QueryWrapper.map_parenthesize, QueryWrapper.sequenceTokens_parenthesize, ihBody]
      simp [number, strict, tokens, groupTokens]
  | or_ before body ihBefore ihBody =>
      rw [conditions, List.map_append, QueryWrapper.map_setFrontLogic,
        joinTokens_sequenceTokens _ .and _ _ head_joinedByAnd, ihBefore,
        QueryWrapper.map_parenthesize, QueryWrapper.sequenceTokens_parenthesize, ihBody]
      simp [number, strict, tokens, groupTokens]

theorem sequenceTokens_conditions (tree : CallTree (Atom T)) (start : Nat) :
    QueryWrapper.sequenceTokens start tree.conditions = (tree.number start).emitted.tokens := by
  induction tree generalizing start with
  | empty => rfl
  | atom before a ih =>
      obtain ⟨hlogic, hopen, hclose⟩ := a.condition_tags
      have hhead : ∀ cond ∈ [a.condition].head?, QueryWrapper.connectiveOf cond = .and := by
        intro cond hcond
        obtain rfl : a.condition = cond := by simpa using hcond
        simp [QueryWrapper.connectiveOf, hlogic]
      rw [conditions, joinTokens_sequenceTokens _ .and _ _ hhead, ih]
      simp [number, emitted, tokens, QueryWrapper.sequenceTokens, QueryWrapper.conditionTokens,
        hopen, hclose]
  | and_ before body ihBefore ihBody =>
      rw [conditions, joinTokens_sequenceTokens _ .and _ _ head_joinedByAnd, ihBefore,
        QueryWrapper.map_parenthesize, QueryWrapper.sequenceTokens_parenthesize,
        sequenceTokens_joinedByAnd]
      simp [number, emitted, tokens, groupTokens]
  | or_ before body ihBefore ihBody =>
      rw [conditions, joinTokens_sequenceTokens _ .or _ _ head_setFrontLogic, ihBefore,
        QueryWrapper.sequenceTokens_setFrontLogic, QueryWrapper.sequenceTokens_parenthesize, ihBody]
      simp [number, emitted, tokens, groupTokens]

/-! ### The text is read as it was written -/

variable {v : A → Bool}

theorem tokens_of_size_zero {tree : CallTree A} (hsize : tree.size = 0) :
    tree.tokens = [] ∧ ∀ v, tree.value v = none := by
  have hgroup (before body : CallTree A) (hsum : before.size + body.size = 0) :
      before.size = 0 ∧ body.size = 0 := by omega
  induction tree with
  | empty => exact ⟨rfl, fun _ => rfl⟩
  | atom before a ih => exact absurd hsize (by simp [size])
  | and_ before body ihBefore ihBody | or_ before body ihBefore ihBody =>
      obtain ⟨hbefore, hbody⟩ := hgroup before body hsize
      obtain ⟨htokens, hvalue⟩ := ihBefore hbefore
      obtain ⟨htokens', hvalue'⟩ := ihBody hbody
      constructor
      · simp [tokens, joinTokens, groupTokens, hbody, htokens, htokens']
      · intro v
        simp [value, join, hvalue v, hvalue' v]

/-- The tokens are read as a sequence of operands with the given value. -/
def ReadAs (tokens : List (Token A)) (value : (A → Bool) → Option Partial) : Prop :=
  ∃ terms term, IsSequence tokens terms term ∧
    ∀ v, value v = some (terms.elim false fun terms => terms.eval v, term.eval v)

theorem ne_nil_of_isSequence {tokens : List (Token A)} {terms : Option (Expr A)} {term : Expr A}
    (hsequence : IsSequence tokens terms term) : tokens ≠ [] := by
  intro hnil
  have hscan := hsequence []
  rw [hnil] at hscan
  exact absurd hscan (by simp)

theorem eval_combine_or (terms : Option (Expr A)) (term : Expr A) (v : A → Bool) :
    (combine .or terms term).eval v =
      Partial.total (terms.elim false fun terms => terms.eval v, term.eval v) := by
  cases terms <;> rfl

theorem ReadAs.join {tokens operand : List (Token A)} {value : (A → Bool) → Option Partial}
    {e : Expr A} (hread : ReadAs tokens value) (hoperand : IsOperand operand e)
    (connective : Connective) :
    ReadAs (joinTokens tokens connective operand)
      (fun v => join (value v) connective (some (e.eval v))) := by
  obtain ⟨terms, term, hsequence, hvalue⟩ := hread
  have htokens : tokens.isEmpty = false := by
    simpa using ne_nil_of_isSequence hsequence
  have hne : operand.isEmpty = false := by
    simpa using ne_nil_of_isSequence hoperand.isSequence
  simp only [joinTokens, htokens, hne, Bool.false_eq_true, if_false]
  cases connective with
  | and =>
      refine ⟨terms, .and term e, hsequence.and hoperand, ?_⟩
      intro v
      simp only [hvalue v]
      rfl
  | or =>
      refine ⟨some (combine .or terms term), e, hsequence.or hoperand, ?_⟩
      intro v
      simp only [hvalue v, Option.elim_some, eval_combine_or]
      rfl

theorem readAs_first {operand : List (Token A)} {e : Expr A} (hoperand : IsOperand operand e)
    (connective : Connective) :
    ReadAs (joinTokens [] connective operand)
      (fun v => CallTree.join none connective (some (e.eval v))) := by
  have hne : operand.isEmpty = false := by
    simpa using ne_nil_of_isSequence hoperand.isSequence
  simp only [joinTokens, hne, List.isEmpty_nil, Bool.false_eq_true, if_false, if_true]
  exact ⟨none, e, hoperand.isSequence, fun v => rfl⟩

theorem tokens_of_size_one {tree : CallTree A} (hsize : tree.size = 1) :
    ∃ a, tree.tokens = [.atom a] ∧ ∀ v, tree.value v = some (false, v a) := by
  have hgroup (before body : CallTree A) (hsum : before.size + body.size = 1) :
      (before.size = 0 ∧ body.size = 1) ∨ (before.size = 1 ∧ body.size = 0) := by omega
  induction tree with
  | empty => exact absurd hsize (by simp [size])
  | atom before a ih =>
      have hbefore : before.size = 0 := by simpa [size] using hsize
      obtain ⟨htokens, hvalue⟩ := tokens_of_size_zero hbefore
      refine ⟨a, by simp [tokens, joinTokens, htokens], ?_⟩
      intro v
      simp [value, CallTree.join, hvalue v]
  | and_ before body ihBefore ihBody | or_ before body ihBefore ihBody =>
      rcases hgroup before body hsize with ⟨hbefore, hbody⟩ | ⟨hbefore, hbody⟩
      · obtain ⟨htokens, hvalue⟩ := tokens_of_size_zero hbefore
        obtain ⟨a, htokens', hvalue'⟩ := ihBody hbody
        refine ⟨a, by simp [tokens, joinTokens, groupTokens, hbody, htokens, htokens'], ?_⟩
        intro v
        simp [value, CallTree.join, hvalue v, hvalue' v, Partial.total]
      · obtain ⟨a, htokens, hvalue⟩ := ihBefore hbefore
        obtain ⟨htokens', hvalue'⟩ := tokens_of_size_zero hbody
        refine ⟨a, by simp [tokens, joinTokens, groupTokens, hbody, htokens, htokens'], ?_⟩
        intro v
        simp [value, CallTree.join, hvalue v, hvalue' v]

theorem isOperand_group {body : CallTree A} (hsize : body.size ≠ 0)
    (hread : ReadAs body.tokens body.value) :
    ∃ e, IsOperand (groupTokens body.size body.tokens) e ∧ ∀ v, body.meaning v = some (e.eval v) := by
  by_cases hone : body.size = 1
  · obtain ⟨a, htokens, hvalue⟩ := tokens_of_size_one hone
    refine ⟨.atom a, ?_, ?_⟩
    · simpa [groupTokens, hone, htokens] using isOperand_atom a
    · intro v
      simp [meaning, hvalue v, Partial.total, Expr.eval]
  · obtain ⟨terms, term, hsequence, hvalue⟩ := hread
    have hlong : body.size > 1 := by omega
    refine ⟨combine .or terms term, ?_, ?_⟩
    · rw [groupTokens, if_pos hlong]
      exact hsequence.parenthesized
    · intro v
      simp only [meaning, hvalue v, Option.map_some, eval_combine_or]

theorem readAs_tokens (tree : CallTree A) : tree.size = 0 ∨ ReadAs tree.tokens tree.value := by
  have hgroup (before body : CallTree A) (connective : Connective)
      (ihBefore : before.size = 0 ∨ ReadAs before.tokens before.value)
      (ihBody : body.size = 0 ∨ ReadAs body.tokens body.value) :
      before.size + body.size = 0 ∨
        ReadAs (joinTokens before.tokens connective (groupTokens body.size body.tokens))
          (fun v => CallTree.join (before.value v) connective (body.meaning v)) := by
    by_cases hbody : body.size = 0
    · obtain ⟨htokens, hvalue⟩ := tokens_of_size_zero hbody
      rcases ihBefore with hbefore | hread
      · exact .inl (by omega)
      · right
        simpa [joinTokens, groupTokens, hbody, htokens, meaning, hvalue, CallTree.join] using hread
    · obtain ⟨e, hoperand, hmeaning⟩ := isOperand_group hbody (ihBody.resolve_left hbody)
      right
      simp only [hmeaning]
      rcases ihBefore with hbefore | hread
      · obtain ⟨htokens, hvalue⟩ := tokens_of_size_zero hbefore
        simpa only [htokens, hvalue] using readAs_first hoperand connective
      · exact hread.join hoperand connective
  induction tree with
  | empty => exact .inl rfl
  | atom before a ih =>
      right
      rcases ih with hbefore | hread
      · obtain ⟨htokens, hvalue⟩ := tokens_of_size_zero hbefore
        simpa only [tokens, value, htokens, hvalue, Expr.eval] using
          readAs_first (isOperand_atom a) .and
      · exact hread.join (isOperand_atom a) .and
  | and_ before body ihBefore ihBody => exact hgroup before body .and ihBefore ihBody
  | or_ before body ihBefore ihBody => exact hgroup before body .or ihBefore ihBody

/-- A tree written out is read back with its meaning. -/
theorem parse_tokens (tree : CallTree A) (v : A → Bool) :
    (parse tree.tokens).map (fun e => e.eval v) = tree.meaning v := by
  rcases readAs_tokens tree with hsize | ⟨terms, term, hsequence, hvalue⟩
  · obtain ⟨htokens, hvalue⟩ := tokens_of_size_zero hsize
    rw [htokens, meaning, hvalue v]
    rfl
  · have htree : tree.value v = some _ := hvalue v
    rw [hsequence.parse_eq, Option.map_some, meaning, htree, Option.map_some, eval_combine_or]

theorem parse_parenthesized (tree : CallTree A) (hsize : tree.size ≠ 0) (v : A → Bool) :
    (parse ([.lparen] ++ tree.tokens ++ [.rparen])).map (fun e => e.eval v) = tree.meaning v := by
  obtain ⟨terms, term, hsequence, hvalue⟩ := (readAs_tokens tree).resolve_left hsize
  have htree : tree.value v = some _ := hvalue v
  rw [hsequence.parenthesized.isSequence.parse_eq, combine_none, Option.map_some, meaning, htree,
    Option.map_some, eval_combine_or]

end CallTree

end SoulCoreKit.Orm
