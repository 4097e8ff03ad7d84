import Mathlib.Data.List.Basic

/-!
# Labels in the exposition format

A reader of `name="value"` entries with commas between them and braces around them. In a value, a backslash
makes a backslash, a quotation mark and `n` stand for a backslash, a quotation mark and a newline; a raw
newline ends the sample. The reader takes one character after the other.
-/

namespace SoulCoreKit.Lib.LabelSyntax

def isNameStart (c : Char) : Bool := c.isAlpha || c = '_'

def isNameChar (c : Char) : Bool := isNameStart c || c.isDigit

/-- A label name is not empty, and no digit begins it. -/
def isName : List Char → Bool
  | [] => false
  | c :: rest => isNameStart c && rest.all isNameChar

/-- What an escaped character stands for. -/
def unescape (c : Char) : Option Char :=
  if c = '\x5c' ∨ c = '\x22' then some c
  else if c = 'n' then some '\n'
  else none

abbrev Entries := List (List Char × List Char)

/-- Where the reader stands, with what it has read. -/
inductive State where
  | name (entries : Entries) (name : List Char)
  | equals (entries : Entries) (name : List Char)
  | value (entries : Entries) (name value : List Char)
  | escape (entries : Entries) (name value : List Char)
  | quoted (entries : Entries)
  | closed (entries : Entries)

/-- Whether a character may go on with the name. -/
def continues (name : List Char) (c : Char) : Bool :=
  if name.isEmpty then isNameStart c else isNameChar c

def step : State → Char → Option State
  | .name entries name, c =>
      if continues name c then some (.name entries (name ++ [c]))
      else if c = '=' ∧ name ≠ [] then some (.equals entries name)
      else none
  | .equals entries name, c => if c = '\x22' then some (.value entries name []) else none
  | .value entries name value, c =>
      if c = '\x5c' then some (.escape entries name value)
      else if c = '\x22' then some (.quoted (entries ++ [(name, value)]))
      else if c = '\n' then none
      else some (.value entries name (value ++ [c]))
  | .escape entries name value, c => (unescape c).map fun d => .value entries name (value ++ [d])
  | .quoted entries, c =>
      if c = ',' then some (.name entries [])
      else if c = '\x7d' then some (.closed entries)
      else none
  | .closed _, _ => none

/-- The entries, and what follows them. -/
def readFrom : State → List Char → Option (Entries × List Char)
  | .closed entries, rest => some (entries, rest)
  | _, [] => none
  | state, c :: rest => (step state c).bind fun next => readFrom next rest

/-- The labels after the name of a metric, which may have none. -/
def readLabels : List Char → Option (Entries × List Char)
  | [] => some ([], [])
  | c :: rest => if c = '\x7b' then readFrom (.name [] []) rest else some ([], c :: rest)

theorem readFrom_step {state next : State} {c : Char} (hstep : step state c = some next)
    (rest : List Char) : readFrom state (c :: rest) = readFrom next rest := by
  cases state with
  | closed entries => cases hstep
  | _ => simp only [readFrom, hstep, Option.bind_some]

/-! ### Names -/

theorem isNameChar_of_isName {name : List Char} (hname : isName name = true) :
    ∀ c ∈ name, isNameChar c = true := by
  cases name with
  | nil => exact fun c hc => absurd hc List.not_mem_nil
  | cons first rest =>
      obtain ⟨hfirst, hrest⟩ := Bool.and_eq_true_iff.mp hname
      intro c hc
      obtain rfl | hc := List.mem_cons.mp hc
      · exact Bool.or_eq_true_iff.mpr (.inl hfirst)
      · exact List.all_eq_true.mp hrest c hc

theorem readFrom_nameChars (entries : Entries) {front : List Char} (hfront : front ≠ []) {name : List Char}
    (hname : ∀ c ∈ name, isNameChar c = true) (rest : List Char) :
    readFrom (.name entries front) (name ++ rest) = readFrom (.name entries (front ++ name)) rest := by
  induction name generalizing front with
  | nil => rw [List.nil_append, List.append_nil]
  | cons c name ih =>
      obtain ⟨hc, hname⟩ := List.forall_mem_cons.mp hname
      have hcontinues : continues front c = true := by
        rw [continues, if_neg (by simpa using hfront), hc]
      have hstep : step (.name entries front) c = some (.name entries (front ++ [c])) := if_pos hcontinues
      rw [List.cons_append, readFrom_step hstep, ih (by simp) hname, List.append_assoc, List.singleton_append]

/-- A name with the character that ends it. -/
theorem readFrom_name (entries : Entries) {name : List Char} (hname : isName name = true) (rest : List Char) :
    readFrom (.name entries []) (name ++ '=' :: rest) = readFrom (.equals entries name) rest := by
  cases name with
  | nil => cases hname
  | cons first name =>
      have hchars := (List.forall_mem_cons.mp (isNameChar_of_isName hname)).2
      have hfirst : continues [] first = true := (Bool.and_eq_true_iff.mp hname).1
      have hstart : step (.name entries []) first = some (.name entries [first]) := if_pos hfirst
      have hend : step (.name entries (first :: name)) '=' = some (.equals entries (first :: name)) := rfl
      rw [List.cons_append, readFrom_step hstart,
        readFrom_nameChars entries (List.cons_ne_nil first []) hchars, List.singleton_append,
        readFrom_step hend]

/-! ### Values -/

section

variable (entries : Entries) (name value : List Char)

theorem readFrom_openQuote (rest : List Char) :
    readFrom (.equals entries name) ('\x22' :: rest) = readFrom (.value entries name []) rest :=
  readFrom_step rfl rest

theorem readFrom_closeQuote (rest : List Char) :
    readFrom (.value entries name value) ('\x22' :: rest) =
      readFrom (.quoted (entries ++ [(name, value)])) rest :=
  readFrom_step rfl rest

theorem readFrom_escaped {c d : Char} (hunescape : unescape c = some d) (rest : List Char) :
    readFrom (.value entries name value) ('\x5c' :: c :: rest) =
      readFrom (.value entries name (value ++ [d])) rest := by
  have hstep : step (.escape entries name value) c = some (.value entries name (value ++ [d])) := by
    rw [step, hunescape]
    rfl
  have hbackslash : step (.value entries name value) '\x5c' = some (.escape entries name value) := rfl
  rw [readFrom_step hbackslash, readFrom_step hstep]

theorem readFrom_plain {c : Char} (hbackslash : c ≠ '\x5c') (hquote : c ≠ '\x22') (hnewline : c ≠ '\n')
    (rest : List Char) :
    readFrom (.value entries name value) (c :: rest) =
      readFrom (.value entries name (value ++ [c])) rest := by
  apply readFrom_step
  rw [step, if_neg hbackslash, if_neg hquote, if_neg hnewline]

theorem readFrom_comma (rest : List Char) :
    readFrom (.quoted entries) (',' :: rest) = readFrom (.name entries []) rest :=
  readFrom_step rfl rest

theorem readFrom_close (rest : List Char) :
    readFrom (.quoted entries) ('\x7d' :: rest) = some (entries, rest) := by
  have hstep : step (.quoted entries) '\x7d' = some (.closed entries) := rfl
  rw [readFrom_step hstep, readFrom]

end

end SoulCoreKit.Lib.LabelSyntax
