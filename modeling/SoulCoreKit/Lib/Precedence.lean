import Mathlib.Data.List.Basic

/-!
# Conditions with two connectives

Infix conditions over atoms with parentheses, `AND` and `OR`, where `AND` binds tighter. The parser
reads the tokens from left to right. It keeps, for each parenthesis that is open, the terms an `OR`
has closed and the factors an `AND` has left waiting, so that no token is looked at twice.
-/

namespace SoulCoreKit.Precedence

inductive Connective where
  | and
  | or
  deriving DecidableEq, Repr

inductive Token (A : Type) where
  | atom (a : A)
  | connective (connective : Connective)
  | lparen
  | rparen
  deriving DecidableEq, Repr

/-- The token with another atom in its place. -/
def Token.map {A B : Type} (f : A → B) : Token A → Token B
  | .atom a => .atom (f a)
  | .connective joined => .connective joined
  | .lparen => .lparen
  | .rparen => .rparen

inductive Expr (A : Type) where
  | atom (a : A)
  | and (left right : Expr A)
  | or (left right : Expr A)
  deriving DecidableEq, Repr

variable {A : Type}

def Expr.eval (v : A → Bool) : Expr A → Bool
  | .atom a => v a
  | .and left right => left.eval v && right.eval v
  | .or left right => left.eval v || right.eval v

/-- The left operand of the connective that waits for its right one. -/
def combine (connective : Expr A → Expr A → Expr A) (left : Option (Expr A)) (right : Expr A) :
    Expr A :=
  match left with
  | none => right
  | some left => connective left right

@[simp]
theorem combine_none (connective : Expr A → Expr A → Expr A) (right : Expr A) :
    combine connective none right = right := rfl

@[simp]
theorem combine_some (connective : Expr A → Expr A → Expr A) (left right : Expr A) :
    combine connective (some left) right = connective left right := rfl

/-- What waits on one level of parentheses: the terms before the last `OR` and the factors before the
last `AND`. -/
structure Waiting (A : Type) where
  terms : Option (Expr A) := none
  factors : Option (Expr A) := none

inductive State (A : Type) where
  | operand (waiting : Waiting A) (outer : List (Waiting A))
  | operator (terms : Option (Expr A)) (term : Expr A) (outer : List (Waiting A))

def next : State A → Token A → Option (State A)
  | .operand waiting outer, .atom a =>
      some (.operator waiting.terms (combine .and waiting.factors (.atom a)) outer)
  | .operand waiting outer, .lparen => some (.operand {} (waiting :: outer))
  | .operator terms term outer, .connective .and => some (.operand ⟨terms, some term⟩ outer)
  | .operator terms term outer, .connective .or =>
      some (.operand ⟨some (combine .or terms term), none⟩ outer)
  | .operator terms term (waiting :: outer), .rparen =>
      some (.operator waiting.terms (combine .and waiting.factors (combine .or terms term)) outer)
  | _, _ => none

def finish : State A → Option (Expr A)
  | .operator terms term [] => some (combine .or terms term)
  | _ => none

/-- The state after the tokens. -/
def scan (state : State A) (tokens : List (Token A)) : Option (State A) := tokens.foldlM next state

def parse (tokens : List (Token A)) : Option (Expr A) := (scan (.operand {} []) tokens).bind finish

@[simp]
theorem scan_nil (state : State A) : scan state [] = some state := rfl

@[simp]
theorem scan_cons (state : State A) (token : Token A) (tokens : List (Token A)) :
    scan state (token :: tokens) = (next state token).bind fun state => scan state tokens := by
  simp [scan, List.foldlM_cons]

theorem scan_append (state : State A) (first second : List (Token A)) :
    scan state (first ++ second) = (scan state first).bind fun state => scan state second := by
  simp [scan, List.foldlM_append]

/-! ### Operands

The tokens of an operand, read where one is expected, leave the state that its expression alone would
leave. -/

/-- The tokens are read as one operand with the given expression. -/
def IsOperand (tokens : List (Token A)) (e : Expr A) : Prop :=
  ∀ waiting outer, scan (.operand waiting outer) tokens =
    some (.operator waiting.terms (combine .and waiting.factors e) outer)

/-- The tokens are read as a sequence of operands, with these terms and this last term. -/
def IsSequence (tokens : List (Token A)) (terms : Option (Expr A)) (term : Expr A) : Prop :=
  ∀ outer, scan (.operand {} outer) tokens = some (.operator terms term outer)

theorem isOperand_atom (a : A) : IsOperand [.atom a] (.atom a) := by
  intro waiting outer
  simp [next]

theorem IsOperand.isSequence {tokens : List (Token A)} {e : Expr A} (hoperand : IsOperand tokens e) :
    IsSequence tokens none e := fun outer => hoperand {} outer

variable {tokens operand : List (Token A)} {terms : Option (Expr A)} {term e : Expr A}

theorem IsSequence.parenthesized (hsequence : IsSequence tokens terms term) :
    IsOperand ([.lparen] ++ tokens ++ [.rparen]) (combine .or terms term) := by
  intro waiting outer
  rw [scan_append, scan_append]
  simp [next, hsequence (waiting :: outer)]

theorem IsSequence.and (hsequence : IsSequence tokens terms term) (hoperand : IsOperand operand e) :
    IsSequence (tokens ++ [.connective .and] ++ operand) terms (.and term e) := by
  intro outer
  rw [scan_append, scan_append, hsequence outer]
  simp [next, hoperand ⟨terms, some term⟩ outer]

theorem IsSequence.or (hsequence : IsSequence tokens terms term) (hoperand : IsOperand operand e) :
    IsSequence (tokens ++ [.connective .or] ++ operand) (some (combine .or terms term)) e := by
  intro outer
  rw [scan_append, scan_append, hsequence outer]
  simp [next, hoperand ⟨some (combine .or terms term), none⟩ outer]

theorem IsSequence.parse_eq (hsequence : IsSequence tokens terms term) :
    parse tokens = some (combine .or terms term) := by
  unfold parse
  rw [hsequence []]
  rfl

end SoulCoreKit.Precedence
