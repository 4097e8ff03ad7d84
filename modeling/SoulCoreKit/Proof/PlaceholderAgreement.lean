import SoulCoreKit.Proof.EmittedTree

/-!
# Placeholders and bind values

The text and the values of a statement come from two traversals of the same conditions. Both visit a
condition's values in the same order, so the `k`-th placeholder stands for the `k`-th value, unless a
count does not fit the `int` it is kept in: the length of an `IN` list is cast to `int`, which leaves
placeholders out, and the index of a placeholder wraps, which shows where it is written.
-/

namespace SoulCoreKit.Orm.QueryWrapper

open Precedence (Token)

variable {T : Type}

/-! ### What is claimed -/

/-- The placeholders of a text, in order. -/
def params : Sql T → List (Int32 × Bind T)
  | [] => []
  | .param index bind :: rest => (index, bind) :: params rest
  | _ :: rest => params rest

/-- The value a placeholder stands for in an update made at the given time. -/
def resolve (now : String) : Bind T → QVariant T
  | .value value => value
  | .updateTime => .string now

/-- The number of parentheses open after the text, if none is closed that was not open. -/
def parenDepth (depth : Nat) : Sql T → Option Nat
  | [] => some depth
  | .lparen :: rest => parenDepth (depth + 1) rest
  | .rparen :: rest =>
      match depth with
      | 0 => none
      | depth + 1 => parenDepth depth rest
  | _ :: rest => parenDepth depth rest

def isPostgreSql (q : QueryWrapper T) : Bool :=
  match q.mDialect with
  | some dialect => dialect.cls = .postgreSqlDialect
  | none => false

/-- The text and the values agree. -/
structure Agrees (q : QueryWrapper T) (now : String) (sql : Sql T) (values : List (QVariant T)) :
    Prop where
  stands_for : (params sql).map (fun param => resolve now param.2) = values
  numbered : q.isPostgreSql = true →
    (params sql).map (fun param => q.placeholder param.1) =
      (List.range values.length).map fun k => "$" ++ toString (k + 1)
  balanced : parenDepth 0 sql = some 0

/-- The counts fit in an `int`: those of the lists, and where the dialect shows it the index of the
last placeholder, `before` of which precede the conditions. -/
def Fits (q : QueryWrapper T) (before : Nat) : Prop :=
  (∀ cond ∈ q.mConditions, cond.op = .in_ ∨ cond.op = .notIn → cond.inValues.length < 2 ^ 31) ∧
    (q.isPostgreSql = true → before + q.getBindValues.length < 2 ^ 31)

/-! ### The placeholders of a text -/

@[simp]
theorem params_nil : params ([] : Sql T) = [] := rfl

@[simp]
theorem params_text (text : String) (rest : Sql T) : params (.text text :: rest) = params rest := rfl

@[simp]
theorem params_lparen (rest : Sql T) : params (.lparen :: rest) = params rest := rfl

@[simp]
theorem params_rparen (rest : Sql T) : params (.rparen :: rest) = params rest := rfl

@[simp]
theorem params_param (index : Int32) (bind : Bind T) (rest : Sql T) :
    params (.param index bind :: rest) = (index, bind) :: params rest := rfl

@[simp]
theorem params_append (first second : Sql T) :
    params (first ++ second) = params first ++ params second := by
  induction first with
  | nil => rfl
  | cons piece rest ih => cases piece <;> simp [ih]

@[simp]
theorem params_replicate_lparen (n : Nat) : params (List.replicate n (.lparen : Piece T)) = [] := by
  induction n <;> simp_all [List.replicate_succ]

@[simp]
theorem params_replicate_rparen (n : Nat) : params (List.replicate n (.rparen : Piece T)) = [] := by
  induction n <;> simp_all [List.replicate_succ]

theorem params_join (separator : String) (parts : List (Sql T)) :
    params (join separator parts) = parts.flatMap params := by
  unfold join
  induction parts with
  | nil => rfl
  | cons first rest ih =>
      cases rest with
      | nil => simp
      | cons second rest => simpa using ih

/-- Placeholders with consecutive indices. -/
def numberedFrom (index : Int32) : List (Bind T) → List (Int32 × Bind T)
  | [] => []
  | bind :: rest => (index, bind) :: numberedFrom (index + 1) rest

theorem numberedFrom_append (index : Int32) (first second : List (Bind T)) :
    numberedFrom index (first ++ second) =
      numberedFrom index first ++ numberedFrom (index + Int32.ofNat first.length) second := by
  induction first generalizing index with
  | nil => simp [numberedFrom]
  | cons bind rest ih =>
      have hindex : index + Int32.ofNat (rest.length + 1) =
          index + 1 + Int32.ofNat rest.length := by
        rw [Int32.ofNat_add, Int32.add_comm (Int32.ofNat rest.length), ← Int32.add_assoc]
        rfl
      rw [List.cons_append, numberedFrom, ih, List.length_cons, hindex]
      rfl

@[simp]
theorem length_numberedFrom (index : Int32) (binds : List (Bind T)) :
    (numberedFrom index binds).length = binds.length := by
  induction binds generalizing index <;> simp_all [numberedFrom]

theorem map_snd_numberedFrom (index : Int32) (binds : List (Bind T)) :
    (numberedFrom index binds).map Prod.snd = binds := by
  induction binds generalizing index <;> simp_all [numberedFrom]

/-- The values for which the clause of a condition has a placeholder. -/
def slots (cond : Condition T) : List (QVariant T) :=
  if cond.op = .isNull ∨ cond.op = .isNotNull then
    []
  else if cond.op = .in_ ∨ cond.op = .notIn then
    (if cond.inValues.isEmpty then [cond.value] else cond.inValues).take
      (inCount cond).toNatClampNeg
  else
    [cond.value]

theorem flatMap_params_placeholders (index : Int32) (values : List (QVariant T)) :
    ((placeholders index values).map fun piece => [piece]).flatMap params =
      numberedFrom index (values.map .value) := by
  induction values generalizing index with
  | nil => rfl
  | cons value rest ih => simp [placeholders, numberedFrom, ih]

theorem length_placeholders (index : Int32) (values : List (QVariant T)) :
    (placeholders index values).length = values.length := by
  induction values generalizing index <;> simp_all [placeholders]

theorem buildValueClause_spec (cond : Condition T) (index : Int32) :
    params (buildValueClause cond index).1 = numberedFrom index ((slots cond).map .value) ∧
      (buildValueClause cond index).2 = index + Int32.ofNat (slots cond).length := by
  by_cases hnull : cond.op = .isNull ∨ cond.op = .isNotNull
  · simp only [buildValueClause, slots, if_pos hnull]
    exact ⟨rfl, (Int32.add_zero index).symm⟩
  · by_cases hlist : cond.op = .in_ ∨ cond.op = .notIn
    · simp only [buildValueClause, slots, if_neg hnull, if_pos hlist, params_append, params_lparen,
        params_rparen, params_nil, params_join, flatMap_params_placeholders, length_placeholders,
        List.nil_append, List.append_nil]
      exact ⟨trivial, trivial⟩
    · simp only [buildValueClause, slots, if_neg hnull, if_neg hlist]
      exact ⟨rfl, rfl⟩

theorem params_conditionStr (cond : Condition T) (valueClause : Sql T) :
    params (conditionStr cond valueClause) = params valueClause := by
  unfold conditionStr
  split_ifs with hempty
  · rw [List.isEmpty_iff.mp hempty]
    rfl
  · rfl

/-- The loop numbers the slots of the conditions one after the other. -/
theorem params_conditionsText (i : Nat) (index : Int32) (conds : List (Condition T)) :
    params (conditionsText i index conds) =
      numberedFrom index ((conds.flatMap slots).map .value) := by
  induction conds generalizing i index with
  | nil => rfl
  | cons cond rest ih =>
      obtain ⟨hparams, hindex⟩ := buildValueClause_spec cond index
      have hlead : params (if i = 0 then [] else [.text (logicStr cond)] : Sql T) = [] := by
        split_ifs <;> rfl
      simp only [conditionsText, params_append, params_conditionStr, params_replicate_lparen,
        params_replicate_rparen, hlead, hparams, hindex, ih, List.flatMap_cons, List.map_append,
        numberedFrom_append, List.length_map, List.nil_append, List.append_nil]

theorem params_appendConditions (q : QueryWrapper T) (sql : Sql T) (startIndex : Int32) :
    params (q.appendConditions sql startIndex) =
      params sql ++ numberedFrom startIndex ((q.mConditions.flatMap slots).map .value) := by
  by_cases hempty : q.mConditions.isEmpty = true
  · rw [appendConditions, if_pos hempty, List.isEmpty_iff.mp hempty]
    simp [numberedFrom]
  · have hopen : params (if q.hasOr then [.lparen] else [] : Sql T) = [] := by
      split_ifs <;> rfl
    have hclose : params (if q.hasOr then [.rparen] else [] : Sql T) = [] := by
      split_ifs <;> rfl
    rw [appendConditions, if_neg hempty]
    simp only [params_append, params_text, params_nil, hopen, hclose, params_conditionsText,
      List.append_nil]

/-! ### The values a text has placeholders for -/

/-- The list of an `IN` condition is cut at the count; no other condition is cut. -/
theorem slots_eq (cond : Condition T) :
    slots cond =
      if cond.op = .in_ ∨ cond.op = .notIn then
        (bindValuesOf cond).take (inCount cond).toNatClampNeg
      else bindValuesOf cond := by
  by_cases hlist : cond.op = .in_ ∨ cond.op = .notIn
  · have hnull : ¬ (cond.op = .isNull ∨ cond.op = .isNotNull) := by
      rcases hlist with hop | hop <;> simp [hop]
    rw [slots, bindValuesOf, if_neg hnull, if_neg hnull, if_pos hlist, if_pos hlist, if_pos hlist]
    by_cases hempty : cond.inValues.isEmpty = true
    · rw [if_pos hempty, if_neg (not_not_intro hempty)]
    · rw [if_neg hempty, if_pos hempty]
  · simp [slots, bindValuesOf, hlist]

theorem length_slots_le (cond : Condition T) : (slots cond).length ≤ (bindValuesOf cond).length := by
  rw [slots_eq]
  split_ifs
  · exact List.length_take_le' _ _
  · exact Nat.le_refl _

/-- A condition has a placeholder for each of its values exactly if the length of its list fits. -/
theorem slots_eq_iff (cond : Condition T) :
    slots cond = bindValuesOf cond ↔
      (cond.op = .in_ ∨ cond.op = .notIn → cond.inValues.length < 2 ^ 31) := by
  rw [slots_eq]
  by_cases hlist : cond.op = .in_ ∨ cond.op = .notIn
  · have hnull : ¬ (cond.op = .isNull ∨ cond.op = .isNotNull) := by
      rcases hlist with hop | hop <;> simp [hop]
    rw [if_pos hlist, bindValuesOf, if_neg hnull, if_pos hlist, inCount]
    by_cases hempty : cond.inValues.isEmpty = true
    · have hlength : cond.inValues.length = 0 := by simpa using hempty
      rw [if_pos hempty, if_neg (not_not_intro hempty)]
      simp only [hlength, hlist, true_imp_iff]
      exact ⟨fun _ => by decide, fun _ => rfl⟩
    · rw [if_neg hempty, if_pos hempty]
      simp only [hlist, true_imp_iff]
      constructor
      · intro htake
        have hlength := congrArg List.length htake
        rw [List.length_take] at hlength
        have hlt := (Int32.ofNat cond.inValues.length).toNatClampNeg_lt
        omega
      · intro hfits
        rw [Int32.toNatClampNeg_ofNat_of_lt hfits, List.take_length]
  · simp [hlist]

theorem flatMap_slots_eq_iff (conds : List (Condition T)) :
    conds.flatMap slots = conds.flatMap bindValuesOf ↔ ∀ cond ∈ conds, slots cond = bindValuesOf cond := by
  induction conds with
  | nil => simp
  | cons cond rest ih =>
      have hrest : ∀ rest : List (Condition T),
          (rest.flatMap slots).length ≤ (rest.flatMap bindValuesOf).length := by
        intro rest
        induction rest with
        | nil => exact Nat.le_refl _
        | cons cond rest ih =>
            rw [List.flatMap_cons, List.flatMap_cons, List.length_append, List.length_append]
            exact Nat.add_le_add (length_slots_le cond) ih
      rw [List.flatMap_cons, List.flatMap_cons, List.forall_mem_cons, ← ih]
      constructor
      · intro hboth
        apply List.append_inj hboth
        have hlength := congrArg List.length hboth
        rw [List.length_append, List.length_append] at hlength
        have hfirst := length_slots_le cond
        have hothers := hrest rest
        omega
      · rintro ⟨hfirst, hothers⟩
        rw [hfirst, hothers]

/-! ### The numbers of the placeholders -/

theorem toString_ofNat {n : Nat} (hlt : n < 2 ^ 31) : toString (Int32.ofNat n) = toString n := by
  have hint : (Int32.ofNat n).toInt = n := Int32.toInt_ofNat_of_lt hlt
  calc toString (Int32.ofNat n) = toString (Int32.ofNat n).toInt := rfl
    _ = toString (n : Int) := by rw [hint]
    _ = toString n := rfl

theorem placeholder_of_postgreSql {q : QueryWrapper T} (hdialect : q.isPostgreSql = true)
    (index : Int32) : q.placeholder index = "$" ++ toString index := by
  unfold isPostgreSql at hdialect
  unfold placeholder
  cases hdialects : q.mDialect with
  | none => simp [hdialects] at hdialect
  | some dialect =>
      rw [hdialects] at hdialect
      have hcls : dialect.cls = .postgreSqlDialect := of_decide_eq_true hdialect
      simp only [SqlDialect.convertPlaceholder, hcls]

theorem getElem?_numberedFrom (start k : Nat) (binds : List (Bind T)) :
    ((numberedFrom (Int32.ofNat start) binds).map Prod.fst)[k]? =
      if k < binds.length then some (Int32.ofNat (start + k)) else none := by
  induction binds generalizing start k with
  | nil => simp [numberedFrom]
  | cons bind rest ih =>
      cases k with
      | zero => simp [numberedFrom]
      | succ k =>
          have hnext := ih (start + 1) k
          have hsum : start + 1 + k = start + (k + 1) := by omega
          rw [hsum] at hnext
          simpa [numberedFrom] using hnext

/-- The placeholders of a PostgreSQL text are `$1`, `$2` and so on exactly if their number fits. -/
theorem numbered_iff {q : QueryWrapper T} (hdialect : q.isPostgreSql = true)
    (binds : List (Bind T)) :
    (numberedFrom 1 binds).map (fun param => q.placeholder param.1) =
        (List.range binds.length).map (fun k => "$" ++ toString (k + 1)) ↔
      binds.length < 2 ^ 31 := by
  have htexts : (numberedFrom 1 binds).map (fun param => q.placeholder param.1) =
      ((numberedFrom (Int32.ofNat 1) binds).map Prod.fst).map fun index => "$" ++ toString index := by
    rw [List.map_map]
    apply List.map_congr_left
    intro param _
    exact placeholder_of_postgreSql hdialect param.1
  have hnth (k : Nat) :
      (((numberedFrom (Int32.ofNat 1) binds).map Prod.fst).map fun index =>
        "$" ++ toString index)[k]? =
      if k < binds.length then some ("$" ++ toString (Int32.ofNat (1 + k))) else none := by
    rw [List.getElem?_map, getElem?_numberedFrom]
    split_ifs <;> rfl
  rw [htexts]
  constructor
  · intro hsame
    by_contra hlarge
    have hlast : 2 ^ 31 - 1 < binds.length := by omega
    have hboth := congrArg (fun texts => texts[2 ^ 31 - 1]?) hsame
    simp only [hnth, if_pos hlast] at hboth
    rw [List.getElem?_map, List.getElem?_range hlast, Option.map_some] at hboth
    exact absurd (Option.some.inj hboth) (by decide)
  · intro hfits
    apply List.ext_getElem?
    intro k
    rw [hnth, List.getElem?_map]
    by_cases hk : k < binds.length
    · have hlt : 1 + k < 2 ^ 31 := by omega
      rw [if_pos hk, List.getElem?_range hk, Option.map_some, toString_ofNat hlt, Nat.add_comm]
    · rw [if_neg hk, List.getElem?_eq_none (by simpa using hk)]
      rfl

/-! ### The parentheses -/

/-- The text closes the parentheses it opens, and no others. -/
def Neutral (sql : Sql T) : Prop := ∀ depth, parenDepth depth sql = some depth

theorem parenDepth_append (depth : Nat) (first second : Sql T) :
    parenDepth depth (first ++ second) =
      (parenDepth depth first).bind fun depth => parenDepth depth second := by
  induction first generalizing depth with
  | nil => rfl
  | cons piece rest ih =>
      cases piece with
      | text text => exact ih depth
      | lparen => exact ih (depth + 1)
      | param index bind => exact ih depth
      | rparen =>
          cases depth with
          | zero => rfl
          | succ depth => exact ih depth

theorem neutral_nil : Neutral ([] : Sql T) := fun _ => rfl

theorem neutral_text (text : String) : Neutral ([.text text] : Sql T) := fun _ => rfl

theorem neutral_param (index : Int32) (bind : Bind T) : Neutral [.param index bind] := fun _ => rfl

theorem Neutral.append {first second : Sql T} (hfirst : Neutral first) (hsecond : Neutral second) :
    Neutral (first ++ second) := by
  intro depth
  rw [parenDepth_append, hfirst depth]
  exact hsecond depth

theorem Neutral.parenthesized {sql : Sql T} (hsql : Neutral sql) :
    Neutral ([.lparen] ++ sql ++ [.rparen]) := by
  intro depth
  rw [parenDepth_append, parenDepth_append]
  change ((parenDepth (depth + 1) sql).bind fun depth => parenDepth depth [.rparen]) = some depth
  rw [hsql (depth + 1)]
  rfl

theorem neutral_join (separator : String) {parts : List (Sql T)}
    (hparts : ∀ part ∈ parts, Neutral part) : Neutral (join separator parts) := by
  unfold join
  induction parts with
  | nil => exact neutral_nil
  | cons first rest ih =>
      have hfirst := hparts first List.mem_cons_self
      have hrest := ih fun part hpart => hparts part (List.mem_cons_of_mem _ hpart)
      cases rest with
      | nil => simpa using hfirst
      | cons second rest => simpa using hfirst.append ((neutral_text separator).append hrest)

theorem neutral_placeholders (index : Int32) (values : List (QVariant T)) :
    ∀ part ∈ (placeholders index values).map fun piece => [piece], Neutral part := by
  induction values generalizing index with
  | nil => simp [placeholders]
  | cons value rest ih =>
      rw [placeholders, List.map_cons, List.forall_mem_cons]
      exact ⟨neutral_param _ _, ih (index + 1)⟩

theorem neutral_buildValueClause (cond : Condition T) (index : Int32) :
    Neutral (buildValueClause cond index).1 := by
  by_cases hnull : cond.op = .isNull ∨ cond.op = .isNotNull
  · rw [buildValueClause, if_pos hnull]
    exact neutral_nil
  · by_cases hlist : cond.op = .in_ ∨ cond.op = .notIn
    · rw [buildValueClause, if_neg hnull, if_pos hlist]
      exact (neutral_join _ (neutral_placeholders _ _)).parenthesized
    · rw [buildValueClause, if_neg hnull, if_neg hlist]
      exact neutral_param _ _

theorem neutral_conditionStr (cond : Condition T) (index : Int32) :
    Neutral (conditionStr cond (buildValueClause cond index).1) := by
  unfold conditionStr
  split_ifs
  · exact neutral_text _
  · exact (neutral_text _).append (neutral_buildValueClause cond index)

section Spelled

variable (startIndex : Int32) (conditions : List (Condition T))

theorem neutral_spell_atom (i : Nat) : Neutral (spell startIndex conditions (.atom i)) := by
  simp only [spell]
  split
  · exact neutral_nil
  · exact neutral_conditionStr _ _

theorem neutral_joinTokens {before operand : List (Token Nat)} (connective : Precedence.Connective)
    (hbefore : Neutral (before.flatMap (spell startIndex conditions)))
    (hoperand : Neutral (operand.flatMap (spell startIndex conditions))) :
    Neutral ((CallTree.joinTokens before connective operand).flatMap
      (spell startIndex conditions)) := by
  unfold CallTree.joinTokens
  split_ifs
  · exact hbefore
  · exact hoperand
  · rw [List.flatMap_append, List.flatMap_append]
    apply (hbefore.append _).append hoperand
    cases connective <;> exact neutral_text _

theorem neutral_groupTokens (n : Nat) {tokens : List (Token Nat)}
    (htokens : Neutral (tokens.flatMap (spell startIndex conditions))) :
    Neutral ((CallTree.groupTokens n tokens).flatMap (spell startIndex conditions)) := by
  unfold CallTree.groupTokens
  split_ifs
  · rw [List.flatMap_append, List.flatMap_append]
    exact htokens.parenthesized
  · exact htokens

theorem neutral_tokens (tree : CallTree Nat) :
    Neutral (tree.tokens.flatMap (spell startIndex conditions)) := by
  induction tree with
  | empty => exact neutral_nil
  | atom before a ih =>
      apply neutral_joinTokens startIndex conditions .and ih
      rw [List.flatMap_singleton]
      exact neutral_spell_atom startIndex conditions a
  | and_ before body ihBefore ihBody =>
      exact neutral_joinTokens startIndex conditions .and ihBefore
        (neutral_groupTokens startIndex conditions body.size ihBody)
  | or_ before body ihBefore ihBody =>
      exact neutral_joinTokens startIndex conditions .or ihBefore
        (neutral_groupTokens startIndex conditions body.size ihBody)

end Spelled

theorem neutral_appendConditions {q : QueryWrapper T} {tree : CallTree (Atom T)}
    (hconditions : q.mConditions = tree.conditions) {sql : Sql T} (hsql : Neutral sql)
    (startIndex : Int32) : Neutral (q.appendConditions sql startIndex) := by
  by_cases hnil : q.mConditions = []
  · simpa [appendConditions, hnil] using hsql
  · have hspelled := neutral_tokens startIndex q.mConditions (tree.number 0).emitted
    rw [appendConditions_eq q sql startIndex hnil]
    apply (hsql.append (neutral_text _)).append
    rw [whereTokens, conditionTokens_zero, hconditions, CallTree.sequenceTokens_conditions,
      ← hconditions]
    split_ifs
    · rw [List.flatMap_append, List.flatMap_append]
      exact hspelled.parenthesized
    · rwa [List.nil_append, List.append_nil]

/-! ### The statements -/

/-- A balanced text whose placeholders are numbered from one: those before the conditions, then those
of the conditions. -/
theorem agrees_iff_fits {q : QueryWrapper T} (now : String) {sql : Sql T} (first : List (Bind T))
    (hparams : params sql =
      numberedFrom 1 (first ++ (q.mConditions.flatMap slots).map .value))
    (hneutral : Neutral sql) :
    Agrees q now sql (first.map (resolve now) ++ q.getBindValues) ↔ Fits q first.length := by
  have hresolved : (params sql).map (fun param => resolve now param.2) =
      first.map (resolve now) ++ q.mConditions.flatMap slots := by
    have hbinds := map_snd_numberedFrom 1 (first ++ (q.mConditions.flatMap slots).map Bind.value)
    calc (params sql).map (fun param => resolve now param.2)
        = ((params sql).map Prod.snd).map (resolve now) := by
          rw [List.map_map]
          rfl
      _ = (first ++ (q.mConditions.flatMap slots).map Bind.value).map (resolve now) := by
          rw [hparams, hbinds]
      _ = first.map (resolve now) ++ q.mConditions.flatMap slots := by
          rw [List.map_append, List.map_map]
          congr 1
          exact List.map_id _
  have hslots : q.mConditions.flatMap slots = q.getBindValues ↔
      ∀ cond ∈ q.mConditions, cond.op = .in_ ∨ cond.op = .notIn → cond.inValues.length < 2 ^ 31 := by
    rw [getBindValues, flatMap_slots_eq_iff]
    exact forall₂_congr fun cond _ => slots_eq_iff cond
  constructor
  · intro hagrees
    have hsame : q.mConditions.flatMap slots = q.getBindValues :=
      List.append_cancel_left (hresolved.symm.trans hagrees.stands_for)
    refine ⟨hslots.mp hsame, ?_⟩
    intro hdialect
    have hnumbered := hagrees.numbered hdialect
    have hlength : (first.map (resolve now) ++ q.getBindValues).length =
        (first ++ (q.mConditions.flatMap slots).map Bind.value).length := by
      simp [hsame]
    rw [hparams, hlength, numbered_iff hdialect] at hnumbered
    simpa [hsame] using hnumbered
  · rintro ⟨hlists, hindex⟩
    have hsame := hslots.mpr hlists
    refine ⟨by rw [hresolved, hsame], ?_, hneutral 0⟩
    intro hdialect
    have hlength : (first.map (resolve now) ++ q.getBindValues).length =
        (first ++ (q.mConditions.flatMap slots).map Bind.value).length := by
      simp [hsame]
    rw [hparams, hlength, numbered_iff hdialect]
    simpa [hsame] using hindex hdialect

/-- Pieces without placeholders or parentheses. -/
def texts (parts : List String) : Sql T := parts.map .text

@[simp]
theorem params_texts (parts : List String) : params (texts parts : Sql T) = [] := by
  unfold texts
  induction parts <;> simp_all

theorem neutral_texts (parts : List String) : Neutral (texts parts : Sql T) := by
  induction parts with
  | nil => exact neutral_nil
  | cons first rest ih => exact (neutral_text first).append ih

/-- The pieces that exclude deleted rows. -/
def notDeletedTexts (sd : SoftDeleteConfig) : List String :=
  if sd.enabled then [notDeleted sd] else []

theorem ite_notDeleted (sql : Sql T) (sd : SoftDeleteConfig) :
    (if sd.enabled then sql ++ [.text (notDeleted sd)] else sql) =
      sql ++ texts (notDeletedTexts sd) := by
  unfold notDeletedTexts
  split_ifs
  · rfl
  · exact (List.append_nil sql).symm

theorem buildSelectSql_eq (q : QueryWrapper T) (tableName : String) :
    ∃ trail, q.buildSelectSql tableName =
      q.appendConditions
        (texts (("SELECT * FROM " ++ tableName) :: notDeletedTexts q.softDeleteConfig)) ++
        texts trail := by
  refine ⟨(if q.mGroupBy.isEmpty then [] else [" GROUP BY " ++ ", ".intercalate q.mGroupBy]) ++
    (if q.mOrderBy.isEmpty then [] else [" ORDER BY " ++ ", ".intercalate q.mOrderBy]) ++
    (if q.mLimit > 0 ∨ q.mOffset > 0 then [" " ++ q.limitOffset] else []), ?_⟩
  simp only [buildSelectSql, ite_notDeleted]
  split_ifs <;> simp [texts]

theorem buildCountSql_eq (q : QueryWrapper T) (tableName : String) :
    q.buildCountSql tableName =
      q.appendConditions
        (texts ["SELECT COUNT"] ++ ([.lparen] ++ texts ["*"] ++ [.rparen]) ++
          texts ((" FROM " ++ tableName) :: notDeletedTexts q.softDeleteConfig)) := by
  simp only [buildCountSql, ite_notDeleted]
  rfl

theorem eq_of_guardFullTable {q : QueryWrapper T} {message : String} {sql sql' : Sql T}
    (hguard : q.guardFullTable message sql = .ok sql') : sql' = sql := by
  unfold guardFullTable at hguard
  split_ifs at hguard
  exact (Except.ok.inj hguard).symm

theorem buildDeleteSql_eq {q : QueryWrapper T} {tableName : String} {sql : Sql T}
    (hdelete : q.buildDeleteSql tableName = .ok sql) :
    ∃ lead, sql = q.appendConditions (texts lead) := by
  rw [eq_of_guardFullTable hdelete]
  split_ifs
  · exact ⟨[_], rfl⟩
  · exact ⟨[_], rfl⟩

theorem buildUpdateSql_eq {q : QueryWrapper T} {tableName : String}
    {updates : List (String × QVariant T)} {sql : Sql T}
    (hupdate : q.buildUpdateSql tableName updates = .ok sql) :
    sql = q.appendConditions
      (texts ["UPDATE " ++ tableName ++ " SET "] ++ join ", " (setParts 1 updates) ++
        (texts [", update_time = "] ++ [.param (1 + Int32.ofNat updates.length) .updateTime]) ++
        texts (notDeletedTexts q.softDeleteConfig))
      (1 + Int32.ofNat updates.length + 1) := by
  rw [eq_of_guardFullTable hupdate, ite_notDeleted]
  rfl

theorem flatMap_params_setParts (index : Int32) (updates : List (String × QVariant T)) :
    (setParts index updates).flatMap params =
      numberedFrom index (updates.map fun pair => .value pair.2) := by
  induction updates generalizing index with
  | nil => rfl
  | cons pair rest ih => simp [setParts, numberedFrom, ih]

theorem neutral_setParts (index : Int32) (updates : List (String × QVariant T)) :
    ∀ part ∈ setParts index updates, Neutral part := by
  induction updates generalizing index with
  | nil => simp [setParts]
  | cons pair rest ih =>
      rw [setParts, List.forall_mem_cons]
      exact ⟨(neutral_text _).append (neutral_param _ _), ih (index + 1)⟩

section Statements

variable {q : QueryWrapper T} {tree : CallTree (Atom T)}
  (hconditions : q.mConditions = tree.conditions) (now tableName : String)

include hconditions

theorem select_agrees_iff :
    Agrees q now (q.buildSelectSql tableName) q.getBindValues ↔ Fits q 0 := by
  obtain ⟨trail, hsql⟩ := buildSelectSql_eq q tableName
  rw [hsql]
  apply agrees_iff_fits now []
  · rw [params_append, params_appendConditions, params_texts, params_texts, List.append_nil]
    rfl
  · exact (neutral_appendConditions hconditions (neutral_texts _) 1).append (neutral_texts _)

theorem count_agrees_iff :
    Agrees q now (q.buildCountSql tableName) q.getBindValues ↔ Fits q 0 := by
  rw [buildCountSql_eq]
  apply agrees_iff_fits now []
  · rw [params_appendConditions]
    simp
  · apply neutral_appendConditions hconditions
    exact ((neutral_texts _).append (neutral_texts _).parenthesized).append (neutral_texts _)

theorem delete_agrees_iff {sql : Sql T} (hdelete : q.buildDeleteSql tableName = .ok sql) :
    Agrees q now sql q.getBindValues ↔ Fits q 0 := by
  obtain ⟨lead, rfl⟩ := buildDeleteSql_eq hdelete
  apply agrees_iff_fits now []
  · rw [params_appendConditions, params_texts]
    rfl
  · exact neutral_appendConditions hconditions (neutral_texts _) 1

theorem update_agrees_iff {updates : List (String × QVariant T)} {sql : Sql T}
    (hupdate : q.buildUpdateSql tableName updates = .ok sql) :
    Agrees q now sql (q.getUpdateBindValues updates now) ↔ Fits q (updates.length + 1) := by
  rw [buildUpdateSql_eq hupdate]
  let first : List (Bind T) := updates.map (fun pair => .value pair.2) ++ [.updateTime]
  have hvalues : q.getUpdateBindValues updates now =
      first.map (resolve now) ++ q.getBindValues := by
    simp [getUpdateBindValues, first, resolve, Function.comp_def]
  have hlength : first.length = updates.length + 1 := by simp [first]
  rw [hvalues, ← hlength]
  apply agrees_iff_fits now first
  · have hnext : (1 : Int32) + Int32.ofNat first.length = 1 + Int32.ofNat updates.length + 1 := by
      rw [hlength, Int32.ofNat_add, Int32.add_assoc]
      rfl
    rw [params_appendConditions, numberedFrom_append, hnext, numberedFrom_append]
    simp [params_join, flatMap_params_setParts, numberedFrom]
  · apply neutral_appendConditions hconditions
    exact (((neutral_texts _).append (neutral_join _ (neutral_setParts 1 updates))).append
      ((neutral_texts _).append (neutral_param _ _))).append (neutral_texts _)

end Statements

/-- In every statement a tree of calls produces, the placeholders agree with the bind values, are
numbered in order and stand between balanced parentheses, exactly if the counts fit in an `int`. -/
theorem placeholders_agree_iff (tree : CallTree (Atom T)) (settings : QueryWrapper T)
    (tableName now : String) (updates : List (String × QVariant T)) :
    let q := tree.fill { settings with mConditions := [] }
    (Agrees q now (q.buildSelectSql tableName) q.getBindValues ↔ Fits q 0) ∧
      (Agrees q now (q.buildCountSql tableName) q.getBindValues ↔ Fits q 0) ∧
      (∀ sql, q.buildDeleteSql tableName = .ok sql →
        (Agrees q now sql q.getBindValues ↔ Fits q 0)) ∧
      (∀ sql, q.buildUpdateSql tableName updates = .ok sql →
        (Agrees q now sql (q.getUpdateBindValues updates now) ↔ Fits q (updates.length + 1))) := by
  intro q
  have hconditions : q.mConditions = tree.conditions := by
    simp only [q, CallTree.fill_eq]
    rfl
  exact ⟨select_agrees_iff hconditions now tableName, count_agrees_iff hconditions now tableName,
    fun _ hdelete => delete_agrees_iff hconditions now tableName hdelete,
    fun _ hupdate => update_agrees_iff hconditions now tableName hupdate⟩

/-- An update under PostgreSQL with a list, a group and a condition without a value. -/
def exampleTree : CallTree (Atom Nat) :=
  .or_ (.atom (.atom .empty (.eq "name" (.string "a"))) (.in_ "id" [.other 1, .other 2]))
    (.atom (.atom .empty (.isNull "age")) (.like "name" "b"))

def exampleSettings : QueryWrapper Nat := { mDialect := some { cls := .postgreSqlDialect } }

def exampleSql : Sql Nat :=
  [.text "UPDATE users SET ", .text "age = ", .param 1 (.value (.other 5)),
    .text ", update_time = ", .param 2 .updateTime, .text " WHERE deleted = 0", .text " AND ",
    .lparen, .text "name = ", .param 3 (.value (.string "a")), .text " AND ", .text "id IN ",
    .lparen, .param 4 (.value (.other 1)), .text ",", .param 5 (.value (.other 2)), .rparen,
    .text " OR ", .lparen, .text "age IS NULL", .text " AND ", .text "name LIKE ",
    .param 6 (.value (.string "%b%")), .rparen, .rparen]

theorem placeholders_agree_exampleTree :
    (exampleTree.fill exampleSettings).buildUpdateSql "users" [("age", .other 5)] =
        .ok exampleSql ∧
      Agrees (exampleTree.fill exampleSettings) "2024-01-01T00:00:00" exampleSql
        [.other 5, .string "2024-01-01T00:00:00", .string "a", .other 1, .other 2,
          .string "%b%"] := by
  have hsql : (exampleTree.fill exampleSettings).buildUpdateSql "users" [("age", .other 5)] =
      .ok exampleSql := by decide +kernel
  have hfits : Fits (exampleTree.fill exampleSettings) 2 := ⟨by decide, fun _ => by decide⟩
  exact ⟨hsql, ((placeholders_agree_iff exampleTree exampleSettings "users" "2024-01-01T00:00:00"
    [("age", .other 5)]).2.2.2 exampleSql hsql).mpr hfits⟩

/-- The length of a list of `2 ^ 31` values is negative as an `int`, so no placeholder is written for
any of them. -/
theorem params_of_long_list {values : List (QVariant T)} (hlength : values.length = 2 ^ 31)
    (tableName : String) :
    let q := (CallTree.atom .empty (Atom.in_ "id" values)).fill {}
    params (q.buildSelectSql tableName) = [] ∧ q.getBindValues = values := by
  intro q
  have hne : values.isEmpty = false := by
    rw [← Bool.not_eq_true, List.isEmpty_iff_length_eq_zero]
    omega
  have hcount : (Int32.ofNat values.length).toNatClampNeg = 0 := by
    rw [hlength]
    decide
  have hslots : q.mConditions.flatMap slots = [] := by
    simp [q, CallTree.fill, Atom.apply, in_, pushList, pushCondition, slots, inCount, hne, hcount]
  refine ⟨?_, ?_⟩
  · obtain ⟨trail, hsql⟩ := buildSelectSql_eq q tableName
    rw [hsql, params_append, params_appendConditions, hslots, params_texts, params_texts]
    rfl
  · simp [q, CallTree.fill, Atom.apply, in_, pushList, pushCondition, getBindValues, bindValuesOf,
      hne]

theorem long_list_without_placeholders :
    let tree : CallTree (Atom Unit) := .atom .empty (.in_ "id" (List.replicate (2 ^ 31) .invalid))
    let q := tree.fill {}
    params (q.buildSelectSql "users") = [] ∧ q.getBindValues.length = 2 ^ 31 ∧
      ¬ Agrees q "" (q.buildSelectSql "users") q.getBindValues := by
  intro tree q
  have hreplicate : (List.replicate (2 ^ 31) QVariant.invalid : List (QVariant Unit)).length =
      2 ^ 31 := List.length_replicate
  obtain ⟨hparams, hvalues⟩ := params_of_long_list hreplicate "users"
  have hlength : q.getBindValues.length = 2 ^ 31 := (congrArg List.length hvalues).trans hreplicate
  refine ⟨hparams, hlength, ?_⟩
  intro hagrees
  have hnone := congrArg List.length hagrees.stands_for
  rw [List.length_map, hlength] at hnone
  have hzero : (params (q.buildSelectSql "users")).length = 0 := congrArg List.length hparams
  omega

end SoulCoreKit.Orm.QueryWrapper
