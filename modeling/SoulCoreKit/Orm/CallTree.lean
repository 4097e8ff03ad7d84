import SoulCoreKit.Lib.Precedence
import SoulCoreKit.Orm.QueryWrapper

/-!
# Trees of fluent calls

The calls made on a builder, with the calls a nested builder received under each `and_` and `or_`.
A tree says what was asked for: the calls of one builder are the operands of an infix condition, a
nested builder is one operand in parentheses, and a builder that received nothing is no operand. The
meaning of a tree is a boolean function of its atoms, or nothing when it has none.

Atoms are told apart by their position, not by their text: two equal calls are two atoms.
-/

namespace SoulCoreKit.Orm

open Precedence (Connective Token)

/-- The calls that add one condition. -/
inductive Atom (T : Type) where
  | eq (column : String) (value : QVariant T)
  | ne (column : String) (value : QVariant T)
  | gt (column : String) (value : QVariant T)
  | ge (column : String) (value : QVariant T)
  | lt (column : String) (value : QVariant T)
  | le (column : String) (value : QVariant T)
  | like (column value : String)
  | notLike (column value : String)
  | likeLeft (column value : String)
  | likeRight (column value : String)
  | in_ (column : String) (values : List (QVariant T))
  | notIn (column : String) (values : List (QVariant T))
  | isNull (column : String)
  | isNotNull (column : String)
  deriving DecidableEq, Repr

def Atom.apply {T : Type} (q : QueryWrapper T) : Atom T → QueryWrapper T
  | .eq column value => q.eq column value
  | .ne column value => q.ne column value
  | .gt column value => q.gt column value
  | .ge column value => q.ge column value
  | .lt column value => q.lt column value
  | .le column value => q.le column value
  | .like column value => q.like column value
  | .notLike column value => q.notLike column value
  | .likeLeft column value => q.likeLeft column value
  | .likeRight column value => q.likeRight column value
  | .in_ column values => q.in_ column values
  | .notIn column values => q.notIn column values
  | .isNull column => q.isNull column
  | .isNotNull column => q.isNotNull column

/-- The calls a builder received; `before` are the earlier ones. -/
inductive CallTree (A : Type) where
  | empty
  | atom (before : CallTree A) (a : A)
  | and_ (before body : CallTree A)
  | or_ (before body : CallTree A)
  deriving DecidableEq, Repr

namespace CallTree

/-- The calls, made on a builder. -/
def fill {T : Type} : CallTree (Atom T) → QueryWrapper T → QueryWrapper T
  | .empty, q => q
  | .atom before a, q => a.apply (before.fill q)
  | .and_ before body, q => (before.fill q).and_ body.fill
  | .or_ before body, q => (before.fill q).or_ body.fill

variable {A : Type}

def size : CallTree A → Nat
  | .empty => 0
  | .atom before _ => before.size + 1
  | .and_ before body => before.size + body.size
  | .or_ before body => before.size + body.size

/-- The tree with each atom replaced by its position. -/
def number (start : Nat) : CallTree A → CallTree Nat
  | .empty => .empty
  | .atom before _ => .atom (before.number start) (start + before.size)
  | .and_ before body => .and_ (before.number start) (body.number (start + before.size))
  | .or_ before body => .or_ (before.number start) (body.number (start + before.size))

/-- A condition read so far: the value of the terms an `OR` has closed, and of the term after them. -/
abbrev Partial := Bool × Bool

def Partial.total (read : Partial) : Bool := read.1 || read.2

/-- One more operand, if there is one; the first one is joined to nothing. -/
def join (read : Option Partial) (connective : Connective) : Option Bool → Option Partial
  | none => read
  | some operand =>
      match read, connective with
      | none, _ => some (false, operand)
      | some (terms, term), .and => some (terms, term && operand)
      | some (terms, term), .or => some (terms || term, operand)

def value (v : A → Bool) : CallTree A → Option Partial
  | .empty => none
  | .atom before a => join (before.value v) .and (some (v a))
  | .and_ before body => join (before.value v) .and ((body.value v).map Partial.total)
  | .or_ before body => join (before.value v) .or ((body.value v).map Partial.total)

/-- The boolean function the tree denotes. -/
def meaning (v : A → Bool) (tree : CallTree A) : Option Bool := (tree.value v).map Partial.total

/-- Somewhere in the tree, at any depth, an operand is joined by `OR` to one before it. -/
def joinsByOr : CallTree A → Bool
  | .empty => false
  | .atom before _ => before.joinsByOr
  | .and_ before body => before.joinsByOr || body.joinsByOr
  | .or_ before body =>
      before.joinsByOr || body.joinsByOr || (before.size ≠ 0 && body.size ≠ 0)

/-- No builder given to `and_` joins operands by `OR`. -/
def noOrInAnd : CallTree A → Bool
  | .empty => true
  | .atom before _ => before.noOrInAnd
  | .and_ before body => before.noOrInAnd && !body.joinsByOr
  | .or_ before body => before.noOrInAnd && body.noOrInAnd

end CallTree

namespace QueryWrapper

variable {T : Type}

def connectiveOf (cond : Condition T) : Connective := if cond.logic = .or then .or else .and

/-- The text of the loop, with the `i`-th condition as the atom `i`. -/
def conditionTokens (i : Nat) : List (Condition T) → List (Token Nat)
  | [] => []
  | cond :: rest =>
      (if i = 0 then [] else [.connective (connectiveOf cond)]) ++
        List.replicate cond.openParens .lparen ++ [.atom i] ++
        List.replicate cond.closeParens .rparen ++
        conditionTokens (i + 1) rest

/-- The condition that `appendConditions` writes after `WHERE` or `AND`. -/
def whereTokens (q : QueryWrapper T) : List (Token Nat) :=
  (if q.hasOr then [.lparen] else []) ++ conditionTokens 0 q.mConditions ++
    (if q.hasOr then [.rparen] else [])

/-- The placeholder index after the conditions. -/
def indexAfter (index : Int32) (conditions : List (Condition T)) : Int32 :=
  conditions.foldl (fun index cond => (buildValueClause cond index).2) index

/-- The pieces a token is written with. -/
def spell (startIndex : Int32) (conditions : List (Condition T)) : Token Nat → Sql T
  | .atom i =>
      match conditions[i]? with
      | none => []
      | some cond =>
          conditionStr cond (buildValueClause cond (indexAfter startIndex (conditions.take i))).1
  | .connective .and => [.text " AND "]
  | .connective .or => [.text " OR "]
  | .lparen => [.lparen]
  | .rparen => [.rparen]

end QueryWrapper

end SoulCoreKit.Orm
