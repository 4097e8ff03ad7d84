import Mathlib.Data.List.Basic

/-!
# The tokens of an SQL text

How a text falls into words, numbers, quoted identifiers, string literals and single symbols, under rules
that differ between database systems: which quote stands around identifiers, whether a backslash escapes,
whether a NUL may stand in a literal, and whether two literals with a line break between them are one. A
comment is not recognised as such.
-/

namespace SoulCoreKit.SqlLexer

inductive Token where
  | word (letters : List Char)
  | number (value : Nat)
  | identifier (name : List Char)
  | string (value : List Char)
  | symbol (symbol : Char)
  deriving DecidableEq, Repr

structure Rules where
  identifierQuote : Char
  stringQuotes : List Char
  backslashEscapes : Bool
  nulInStrings : Bool
  joinsStrings : Bool
  emptyIdentifiers : Bool

def sqlite : Rules := ⟨'\x22', ['\x27'], false, false, false, true⟩

def mySql : Rules := ⟨'\x60', ['\x27', '\x22'], true, true, false, true⟩

def postgreSql : Rules := ⟨'\x22', ['\x27'], false, false, true, false⟩

def isNewline (c : Char) : Bool := c = '\n' || c = '\r'

def isSpace (c : Char) : Bool := c = ' ' || decide (9 ≤ c.toNat) && decide (c.toNat ≤ 13)

def isWordStart (c : Char) : Bool := c.isAlpha || c = '_' || decide (128 ≤ c.toNat)

def isWordRest (c : Char) : Bool := isWordStart c || c.isDigit || c = '$'

/-! ### Quoted texts -/

def push (chars : List Char) : Option (List Char × List Char) → Option (List Char × List Char) :=
  Option.map fun read => (chars ++ read.1, read.2)

/-- What a backslash and this character stand for. -/
def escaped : Char → List Char
  | '0' => ['\x00']
  | 'b' => ['\x08']
  | 'n' => ['\n']
  | 'r' => ['\r']
  | 't' => ['\t']
  | 'Z' => ['\x1a']
  | '%' => ['\x5c', '%']
  | '_' => ['\x5c', '_']
  | c => [c]

/-- The value of a text after its opening quote, and what follows the closing one. The quote itself is
written twice. -/
def readDelimited (quote : Char) (backslash nul : Bool) : List Char → Option (List Char × List Char)
  | [] => none
  | [c] => if c = quote then some ([], []) else none
  | c :: d :: rest =>
      if c = quote then
        if d = quote then push [quote] (readDelimited quote backslash nul rest) else some ([], d :: rest)
      else if backslash = true ∧ c = '\x5c' then
        push (escaped d) (readDelimited quote backslash nul rest)
      else if nul = false ∧ c = '\x00' then
        none
      else
        push [c] (readDelimited quote backslash nul (d :: rest))

/-- White space with a line break in it, or with comments to the end of a line, up to a quote: what
follows that quote. -/
def continuation (quote : Char) : (lineBreak comment : Bool) → List Char → Option (List Char)
  | _, _, [] => none
  | lineBreak, comment, c :: rest =>
      if isNewline c then continuation quote true false rest
      else if comment = true then continuation quote lineBreak true rest
      else if isSpace c then continuation quote lineBreak false rest
      else if c = '-' ∧ rest.head? = some '-' then continuation quote lineBreak true rest
      else if c = quote ∧ lineBreak = true then some rest
      else none

/-- What follows the opening quote of a literal that goes on after this one. -/
def Rules.joined (rules : Rules) (quote : Char) (rest : List Char) : Option (List Char) :=
  if rules.joinsStrings then continuation quote false false rest else none

theorem push_eq_some {chars : List Char} {read : Option (List Char × List Char)}
    {value rest : List Char} (hpush : push chars read = some (value, rest)) :
    ∃ tail, read = some (tail, rest) ∧ value = chars ++ tail := by
  obtain ⟨⟨tail, rest'⟩, hread, heq⟩ := Option.map_eq_some_iff.mp hpush
  obtain ⟨rfl, rfl⟩ := Prod.mk.inj heq
  exact ⟨tail, hread, rfl⟩

theorem readDelimited_length {quote : Char} {backslash nul : Bool} {text value rest : List Char}
    (hread : readDelimited quote backslash nul text = some (value, rest)) :
    rest.length < text.length := by
  induction text using readDelimited.induct quote backslash nul generalizing value with
  | case1 => simp [readDelimited] at hread
  | case2 => simp_all [readDelimited]
  | case3 => simp_all [readDelimited]
  | case4 rest' ih =>
    simp only [readDelimited, if_true] at hread
    obtain ⟨tail, htail, _⟩ := push_eq_some hread
    have hlt := ih htail
    simp only [List.length_cons]
    omega
  | case5 d rest' hd =>
    simp only [readDelimited, if_true, if_neg hd, Option.some.injEq, Prod.mk.injEq] at hread
    simp [← hread.2]
  | case6 c d rest' hc hescape ih =>
    simp only [readDelimited, if_neg hc, if_pos hescape] at hread
    obtain ⟨tail, htail, _⟩ := push_eq_some hread
    have hlt := ih htail
    simp only [List.length_cons]
    omega
  | case7 c d rest' hc hescape hnul => simp [readDelimited, if_neg hc, if_neg hescape, if_pos hnul] at hread
  | case8 c d rest' hc hescape hnul ih =>
    simp only [readDelimited, if_neg hc, if_neg hescape, if_neg hnul] at hread
    obtain ⟨tail, htail, _⟩ := push_eq_some hread
    have hlt := ih htail
    simp only [List.length_cons] at hlt ⊢
    omega

theorem continuation_length {quote : Char} {lineBreak comment : Bool} {text rest : List Char}
    (hcontinues : continuation quote lineBreak comment text = some rest) :
    rest.length < text.length := by
  induction text generalizing lineBreak comment with
  | nil => simp [continuation] at hcontinues
  | cons c tail ih =>
    rw [continuation] at hcontinues
    rw [List.length_cons]
    split at hcontinues
    · exact Nat.lt_succ_of_lt (ih hcontinues)
    · split at hcontinues
      · exact Nat.lt_succ_of_lt (ih hcontinues)
      · split at hcontinues
        · exact Nat.lt_succ_of_lt (ih hcontinues)
        · split at hcontinues
          · exact Nat.lt_succ_of_lt (ih hcontinues)
          · split at hcontinues
            · obtain rfl := Option.some.inj hcontinues
              exact Nat.lt_succ_self _
            · cases hcontinues

theorem joined_length {rules : Rules} {quote : Char} {text rest : List Char}
    (hjoined : rules.joined quote text = some rest) : rest.length < text.length := by
  unfold Rules.joined at hjoined
  split at hjoined
  · exact continuation_length hjoined
  · cases hjoined

/-- The value of a string literal after its opening quote, and what follows it. -/
def readString (rules : Rules) (quote : Char) (text : List Char) : Option (List Char × List Char) :=
  match _ : readDelimited quote rules.backslashEscapes rules.nulInStrings text with
  | none => none
  | some (value, rest) =>
      match _ : rules.joined quote rest with
      | none => some (value, rest)
      | some more => push value (readString rules quote more)
termination_by text.length
decreasing_by exact Nat.lt_trans (joined_length ‹_›) (readDelimited_length ‹_›)

theorem readString_of_none {rules : Rules} {quote : Char} {text : List Char}
    (hread : readDelimited quote rules.backslashEscapes rules.nulInStrings text = none) :
    readString rules quote text = none := by
  rw [readString]
  split
  · rfl
  · simp_all

theorem readString_of_ends {rules : Rules} {quote : Char} {text value rest : List Char}
    (hread : readDelimited quote rules.backslashEscapes rules.nulInStrings text = some (value, rest))
    (hends : rules.joined quote rest = none) : readString rules quote text = some (value, rest) := by
  rw [readString]
  split
  · simp_all
  · rename_i hsome
    rw [hread] at hsome
    obtain ⟨rfl, rfl⟩ := Prod.mk.inj (Option.some.inj hsome)
    split
    · rfl
    · simp_all

theorem readString_of_joined {rules : Rules} {quote : Char} {text value rest more : List Char}
    (hread : readDelimited quote rules.backslashEscapes rules.nulInStrings text = some (value, rest))
    (hjoined : rules.joined quote rest = some more) :
    readString rules quote text = push value (readString rules quote more) := by
  rw [readString]
  split
  · simp_all
  · rename_i hsome
    rw [hread] at hsome
    obtain ⟨rfl, rfl⟩ := Prod.mk.inj (Option.some.inj hsome)
    split
    · simp_all
    · simp_all

theorem readString_length {rules : Rules} {quote : Char} {text value rest : List Char}
    (hread : readString rules quote text = some (value, rest)) : rest.length < text.length := by
  induction text using readString.induct rules quote generalizing value with
  | case1 text hnone =>
    rw [readString_of_none hnone] at hread
    cases hread
  | case2 text first rest' hfirst hends =>
    rw [readString_of_ends hfirst hends] at hread
    obtain ⟨-, rfl⟩ := Prod.mk.inj (Option.some.inj hread)
    exact readDelimited_length hfirst
  | case3 text first rest' hfirst more hjoined ih =>
    rw [readString_of_joined hfirst hjoined] at hread
    obtain ⟨tail, htail, _⟩ := push_eq_some hread
    exact Nat.lt_trans (ih htail) (Nat.lt_trans (joined_length hjoined) (readDelimited_length hfirst))

/-! ### Tokens -/

/-- The token that starts with this character, and the text after it. -/
def lexToken (rules : Rules) (c : Char) (tail : List Char) : Option (Token × List Char) :=
  if c = rules.identifierQuote then
    match readDelimited c false false tail with
    | none => none
    | some (name, rest) =>
        if name.isEmpty ∧ rules.emptyIdentifiers = false then none else some (.identifier name, rest)
  else if c ∈ rules.stringQuotes then
    (readString rules c tail).map fun read => (.string read.1, read.2)
  else if c.isDigit then
    some (.number (Nat.ofDigitChars 10 (c :: tail.takeWhile Char.isDigit) 0), tail.dropWhile Char.isDigit)
  else if isWordStart c then
    some (.word (c :: tail.takeWhile isWordRest), tail.dropWhile isWordRest)
  else
    some (.symbol c, tail)

/-- The token at the start of a text, and the text after it. -/
def firstToken (rules : Rules) : List Char → Option (Token × List Char)
  | [] => none
  | c :: tail => lexToken rules c tail

theorem length_dropWhile_le (p : Char → Bool) (text : List Char) :
    (text.dropWhile p).length ≤ text.length := (List.dropWhile_sublist p).length_le

theorem lexToken_length {rules : Rules} {c : Char} {tail rest : List Char} {token : Token}
    (hlex : lexToken rules c tail = some (token, rest)) : rest.length ≤ tail.length := by
  unfold lexToken at hlex
  split at hlex
  · cases hread : readDelimited c false false tail with
    | none => simp [hread] at hlex
    | some read =>
      rw [hread] at hlex
      dsimp only at hlex
      split at hlex
      · cases hlex
      · obtain ⟨-, rfl⟩ := Prod.mk.inj (Option.some.inj hlex)
        exact Nat.le_of_lt (readDelimited_length hread)
  · split at hlex
    · obtain ⟨read, hread, heq⟩ := Option.map_eq_some_iff.mp hlex
      obtain ⟨-, rfl⟩ := Prod.mk.inj heq
      exact Nat.le_of_lt (readString_length hread)
    · split at hlex
      · obtain ⟨-, rfl⟩ := Prod.mk.inj (Option.some.inj hlex)
        exact length_dropWhile_le _ _
      · split at hlex
        · obtain ⟨-, rfl⟩ := Prod.mk.inj (Option.some.inj hlex)
          exact length_dropWhile_le _ _
        · obtain ⟨-, rfl⟩ := Prod.mk.inj (Option.some.inj hlex)
          exact Nat.le_refl _

/-- The tokens of a text, if all of it falls into tokens. -/
def lex (rules : Rules) : List Char → Option (List Token)
  | [] => some []
  | c :: tail =>
      if isSpace c then lex rules tail
      else
        match _ : lexToken rules c tail with
        | none => none
        | some (token, rest) => (lex rules rest).map fun tokens => token :: tokens
termination_by text => text.length
decreasing_by
  · exact Nat.lt_succ_self _
  · exact Nat.lt_succ_of_le (lexToken_length ‹_›)

@[simp]
theorem lex_nil (rules : Rules) : lex rules [] = some [] := by rw [lex]

theorem lex_space {rules : Rules} {c : Char} {tail : List Char} (hspace : isSpace c = true) :
    lex rules (c :: tail) = lex rules tail := by
  rw [lex, if_pos hspace]

theorem lex_token {rules : Rules} {c : Char} {tail rest : List Char} {token : Token}
    (hspace : isSpace c = false) (htoken : lexToken rules c tail = some (token, rest)) :
    lex rules (c :: tail) = (lex rules rest).map fun tokens => token :: tokens := by
  rw [lex, if_neg (by rw [hspace]; decide)]
  split
  · simp_all
  · rename_i hsome
    rw [htoken] at hsome
    obtain ⟨rfl, rfl⟩ := Prod.mk.inj (Option.some.inj hsome)
    rfl

theorem lex_none {rules : Rules} {c : Char} {tail : List Char} (hspace : isSpace c = false)
    (htoken : lexToken rules c tail = none) : lex rules (c :: tail) = none := by
  rw [lex, if_neg (by rw [hspace]; decide)]
  split
  · rfl
  · simp_all

/-! ### Texts between quotes -/

variable {quote : Char} {backslash nul : Bool}

theorem readDelimited_end {rest : List Char} (hrest : rest.head? ≠ some quote) :
    readDelimited quote backslash nul (quote :: rest) = some ([], rest) := by
  cases rest with
  | nil => simp [readDelimited]
  | cons d rest =>
    have hd : d ≠ quote := fun heq => hrest (congrArg some heq)
    simp [readDelimited, hd]

/-- A character that stands for itself. -/
theorem readDelimited_cons {c : Char} {text : List Char} (hc : c ≠ quote)
    (hescape : ¬ (backslash = true ∧ c = '\x5c')) (hnul : ¬ (nul = false ∧ c = '\x00')) (htext : text ≠ []) :
    readDelimited quote backslash nul (c :: text) = push [c] (readDelimited quote backslash nul text) := by
  obtain ⟨d, rest, rfl⟩ := List.exists_cons_of_ne_nil htext
  rw [readDelimited, if_neg hc, if_neg hescape, if_neg hnul]

theorem readDelimited_nul {text : List Char} (hquote : '\x00' ≠ quote) :
    readDelimited quote false false ('\x00' :: text) = none := by
  cases text <;> simp [readDelimited, hquote]

/-- A text in which every character is written so that it is read back. -/
theorem readDelimited_flatMap {encode : Char → List Char} {value rest : List Char}
    (hencode : ∀ c ∈ value, ∀ text, text ≠ [] →
      readDelimited quote backslash nul (encode c ++ text) =
        push [c] (readDelimited quote backslash nul text))
    (hrest : rest.head? ≠ some quote) :
    readDelimited quote backslash nul (value.flatMap encode ++ quote :: rest) = some (value, rest) := by
  induction value with
  | nil => exact readDelimited_end hrest
  | cons c value ih =>
    rw [List.flatMap_cons, List.append_assoc, hencode c List.mem_cons_self _ (by simp),
      ih fun d hd => hencode d (List.mem_cons_of_mem c hd)]
    rfl

/-- A NUL in it ends a text in which the characters before stand for themselves. -/
theorem readDelimited_flatMap_nul {encode : Char → List Char} {value text : List Char}
    (hencode : ∀ c ∈ value, c ≠ '\x00' → ∀ text, text ≠ [] →
      readDelimited quote false false (encode c ++ text) = push [c] (readDelimited quote false false text))
    (hzero : encode '\x00' = ['\x00']) (hquote : '\x00' ≠ quote) (hmem : '\x00' ∈ value)
    (htext : text ≠ []) :
    readDelimited quote false false (value.flatMap encode ++ text) = none := by
  induction value with
  | nil => cases hmem
  | cons c value ih =>
    rw [List.flatMap_cons, List.append_assoc]
    by_cases hc : c = '\x00'
    · rw [hc, hzero]
      exact readDelimited_nul hquote
    · have hrest : '\x00' ∈ value := (List.mem_cons.mp hmem).resolve_left (Ne.symm hc)
      rw [hencode c List.mem_cons_self hc _ (by simp [htext]),
        ih (fun d hd => hencode d (List.mem_cons_of_mem c hd)) hrest]
      rfl

/-- A text that does not start with a quote does not read as quotes. -/
theorem readDelimited_ne_replicate {rest rest' : List Char} (hrest : rest.head? ≠ some quote) (k : Nat) :
    readDelimited quote false false rest ≠ some (List.replicate k quote, rest') := by
  intro hread
  cases rest with
  | nil => simp [readDelimited] at hread
  | cons r rest =>
    have hr : r ≠ quote := fun heq => hrest (congrArg some heq)
    by_cases hnul : r = '\x00'
    · subst hnul
      rw [readDelimited_nul hr] at hread
      cases hread
    · by_cases hnil : rest = []
      · simp [hnil, readDelimited, hr] at hread
      · rw [readDelimited_cons hr (by simp) (by simp [hnul]) hnil] at hread
        obtain ⟨more, _, hmore⟩ := push_eq_some hread
        have hmem : r ∈ List.replicate k quote := by simp [hmore]
        exact hr (List.eq_of_mem_replicate hmem)

/-- Where a verbatim text reads as some quotes and itself, there is no quote in it: each quote read costs
two, and the text that follows does not start with one. -/
theorem eq_of_readDelimited {rest rest' : List Char} (hrest : rest.head? ≠ some quote) :
    ∀ (k : Nat) (text : List Char),
      readDelimited quote false false (text ++ quote :: rest) =
        some (List.replicate k quote ++ text, rest') →
      k = 0 ∧ quote ∉ text ∧ '\x00' ∉ text ∧ rest' = rest
  | k, [], hread => by
    rw [List.nil_append, readDelimited_end hrest] at hread
    obtain ⟨hvalue, rfl⟩ := Prod.mk.inj (Option.some.inj hread)
    have hk : k = 0 := by simpa using hvalue
    exact ⟨hk, by simp, by simp, rfl⟩
  | k, c :: text, hread => by
    by_cases hc : c = quote
    · exfalso
      rw [hc] at hread
      match text, hread with
      | [], hread =>
        -- the closing quote is read as the second of two
        simp only [List.cons_append, List.nil_append, readDelimited, if_true] at hread
        obtain ⟨tail, htail, heq⟩ := push_eq_some hread
        have hvalue : tail = List.replicate k quote := by
          rw [← List.replicate_succ', List.replicate_succ, List.singleton_append] at heq
          exact (List.cons.inj heq).2.symm
        exact readDelimited_ne_replicate hrest k (hvalue ▸ htail)
      | d :: text, hread =>
        by_cases hd : d = quote
        · rw [hd] at hread
          simp only [List.cons_append, readDelimited, if_true] at hread
          obtain ⟨tail, htail, heq⟩ := push_eq_some hread
          have hvalue : tail = List.replicate (k + 1) quote ++ text := by
            have hshift : List.replicate k quote ++ quote :: quote :: text =
                [quote] ++ (List.replicate (k + 1) quote ++ text) := by
              rw [List.append_cons, ← List.replicate_succ', List.append_cons, ← List.replicate_succ',
                List.replicate_succ]
              rfl
            rw [hshift] at heq
            exact (List.append_cancel_left heq).symm
          rw [hvalue] at htail
          have hzero := (eq_of_readDelimited hrest (k + 1) text htail).1
          omega
        · simp only [List.cons_append, readDelimited, if_true, if_neg hd] at hread
          obtain ⟨hvalue, _⟩ := Prod.mk.inj (Option.some.inj hread)
          simp at hvalue
    · by_cases hnul : c = '\x00'
      · subst hnul
        rw [List.cons_append, readDelimited_nul hc] at hread
        cases hread
      · rw [List.cons_append, readDelimited_cons hc (by simp) (by simp [hnul]) (by simp)] at hread
        obtain ⟨tail, htail, heq⟩ := push_eq_some hread
        cases k with
        | zero =>
          have hvalue : tail = List.replicate 0 quote ++ text := (List.cons.inj heq).2.symm
          rw [hvalue] at htail
          obtain ⟨_, hquote, hnone, hrest'⟩ := eq_of_readDelimited hrest 0 text htail
          exact ⟨rfl, by simpa using ⟨Ne.symm hc, hquote⟩, by simpa using ⟨Ne.symm hnul, hnone⟩, hrest'⟩
        | succ k => exact absurd (List.cons.inj heq).1.symm hc

/-- A name between quotes is read as itself exactly if it has neither the quote nor a NUL in it. -/
theorem readDelimited_verbatim_iff {name rest rest' : List Char} (hrest : rest.head? ≠ some quote) :
    readDelimited quote false false (name ++ quote :: rest) = some (name, rest') ↔
      quote ∉ name ∧ '\x00' ∉ name ∧ rest' = rest := by
  constructor
  · intro hread
    exact (eq_of_readDelimited hrest 0 name hread).2
  · rintro ⟨hquote, hnul, rfl⟩
    have hcopied : ∀ c ∈ name, ∀ text, text ≠ [] →
        readDelimited quote false false ([c] ++ text) = push [c] (readDelimited quote false false text) := by
      intro c hc text htext
      exact readDelimited_cons (fun heq => hquote (heq ▸ hc)) (by simp)
        (fun hzero => hnul (hzero.2 ▸ hc)) htext
    have hread := readDelimited_flatMap hcopied hrest
    simpa using hread

/-! ### Token by token -/

/-- The character does not start a quoted text. -/
def Rules.Plain (rules : Rules) (c : Char) : Prop := c ≠ rules.identifierQuote ∧ c ∉ rules.stringQuotes

/-- Quotes are neither digits nor white space. -/
structure Rules.Regular (rules : Rules) : Prop where
  digits : ∀ c : Char, c.isDigit = true → rules.Plain c
  identifierQuote : isSpace rules.identifierQuote = false

theorem plain_of_isDigit {c : Char} (hc : c.isDigit = true) :
    c ≠ '\x22' ∧ c ≠ '\x27' ∧ c ≠ '\x60' := by
  refine ⟨?_, ?_, ?_⟩ <;> rintro rfl <;> exact absurd hc (by decide)

theorem regular_sqlite : sqlite.Regular :=
  ⟨fun c hc => by simpa [Rules.Plain, sqlite] using ⟨(plain_of_isDigit hc).1, (plain_of_isDigit hc).2.1⟩,
    by decide⟩

theorem regular_mySql : mySql.Regular :=
  ⟨fun c hc => by
    obtain ⟨hdouble, hsingle, hback⟩ := plain_of_isDigit hc
    simpa [Rules.Plain, mySql] using ⟨hback, hsingle, hdouble⟩, by decide⟩

theorem regular_postgreSql : postgreSql.Regular :=
  ⟨fun c hc => by
    simpa [Rules.Plain, postgreSql] using ⟨(plain_of_isDigit hc).1, (plain_of_isDigit hc).2.1⟩, by decide⟩

variable {rules : Rules}

theorem takeWhile_append_stop {p : Char → Bool} {letters rest : List Char}
    (hletters : letters.all p = true) (hrest : ∀ c ∈ rest.head?, p c = false) :
    (letters ++ rest).takeWhile p = letters ∧ (letters ++ rest).dropWhile p = rest := by
  rw [List.all_eq_true] at hletters
  rw [List.takeWhile_append_of_pos hletters, List.dropWhile_append_of_pos hletters]
  cases rest with
  | nil => simp
  | cons c rest =>
    have hc : p c = false := hrest c rfl
    simp [hc]

theorem lex_word {c : Char} {letters rest : List Char} (hplain : rules.Plain c)
    (hspace : isSpace c = false) (hdigit : c.isDigit = false) (hc : isWordStart c = true)
    (hletters : letters.all isWordRest = true) (hrest : ∀ d ∈ rest.head?, isWordRest d = false) :
    lex rules (c :: (letters ++ rest)) =
      (lex rules rest).map fun tokens => .word (c :: letters) :: tokens := by
  obtain ⟨htake, hdrop⟩ := takeWhile_append_stop hletters hrest
  apply lex_token hspace
  rw [lexToken, if_neg hplain.1, if_neg hplain.2, if_neg (by rw [hdigit]; decide), if_pos hc, htake, hdrop]

theorem lex_symbol {c : Char} {rest : List Char} (hplain : rules.Plain c)
    (hspace : isSpace c = false) (hdigit : c.isDigit = false) (hc : isWordStart c = false) :
    lex rules (c :: rest) = (lex rules rest).map fun tokens => .symbol c :: tokens := by
  apply lex_token hspace
  rw [lexToken, if_neg hplain.1, if_neg hplain.2, if_neg (by rw [hdigit]; decide),
    if_neg (by rw [hc]; decide)]

theorem isSpace_of_isDigit {c : Char} (hc : c.isDigit = true) : isSpace c = false := by
  rw [Char.isDigit, Bool.and_eq_true, decide_eq_true_eq, decide_eq_true_eq] at hc
  have hlow : 48 ≤ c.toNat := hc.1
  have hne : c ≠ ' ' := by
    rintro rfl
    exact absurd hlow (by decide)
  simp [isSpace, hne]
  omega

theorem lex_number (hrules : rules.Regular) (n : Nat) {rest : List Char}
    (hrest : ∀ d ∈ rest.head?, d.isDigit = false) :
    lex rules (Nat.toDigits 10 n ++ rest) = (lex rules rest).map fun tokens => .number n :: tokens := by
  have hdigits : ∀ d ∈ Nat.toDigits 10 n, d.isDigit = true := fun d hd =>
    Nat.isDigit_of_mem_toDigits (by decide) (by decide) hd
  have hvalue : Nat.ofDigitChars 10 (Nat.toDigits 10 n) 0 = n := Nat.ofDigitChars_ten_toDigits
  obtain ⟨c, digits, heq⟩ := List.exists_cons_of_ne_nil (l := Nat.toDigits 10 n) Nat.toDigits_ne_nil
  rw [heq] at hdigits hvalue ⊢
  rw [List.cons_append]
  have hc : c.isDigit = true := hdigits c List.mem_cons_self
  have hall : digits.all Char.isDigit = true :=
    List.all_eq_true.mpr fun d hd => hdigits d (List.mem_cons_of_mem c hd)
  obtain ⟨htake, hdrop⟩ := takeWhile_append_stop hall hrest
  obtain ⟨hquote, hstring⟩ := hrules.digits c hc
  apply lex_token (isSpace_of_isDigit hc)
  rw [lexToken, if_neg hquote, if_neg hstring, if_pos hc, htake, hdrop, hvalue]

/-- A name between identifier quotes is the first token exactly if it is a text without the quote and
NUL, and not empty where the system refuses that. -/
def Rules.Names (rules : Rules) (name : List Char) : Prop :=
  rules.identifierQuote ∉ name ∧ '\x00' ∉ name ∧ (rules.emptyIdentifiers = false → name ≠ [])

instance decidableNames (name : List Char) : Decidable (rules.Names name) :=
  inferInstanceAs (Decidable (_ ∧ _ ∧ (_ → _)))

def Rules.quoted (rules : Rules) (name : List Char) : List Char :=
  rules.identifierQuote :: (name ++ [rules.identifierQuote])

theorem quoted_append (name rest : List Char) :
    rules.quoted name ++ rest =
      rules.identifierQuote :: (name ++ rules.identifierQuote :: rest) := by
  simp [Rules.quoted]

theorem lexToken_quoted_iff {name rest rest' : List Char}
    (hrest : rest.head? ≠ some rules.identifierQuote) :
    lexToken rules rules.identifierQuote (name ++ rules.identifierQuote :: rest) =
        some (.identifier name, rest') ↔ rules.Names name ∧ rest' = rest := by
  rw [lexToken, if_pos rfl]
  cases hread : readDelimited rules.identifierQuote false false
      (name ++ rules.identifierQuote :: rest) with
  | none =>
    simp only [reduceCtorEq, false_iff, not_and]
    rintro ⟨hquote, hnul, _⟩ _
    rw [(readDelimited_verbatim_iff hrest).mpr ⟨hquote, hnul, rfl⟩] at hread
    cases hread
  | some read =>
    obtain ⟨value, after⟩ := read
    have hiff := @readDelimited_verbatim_iff _ name rest after hrest
    rw [hread] at hiff
    dsimp only
    constructor
    · intro hlex
      split at hlex
      · cases hlex
      · rename_i hempty
        obtain ⟨htoken, rfl⟩ := Prod.mk.inj (Option.some.inj hlex)
        obtain rfl := Token.identifier.inj htoken
        obtain ⟨hquote, hnul, heq⟩ := hiff.mp rfl
        refine ⟨⟨hquote, hnul, ?_⟩, heq⟩
        intro hrefuses hnil
        exact hempty ⟨by rw [hnil]; rfl, hrefuses⟩
    · rintro ⟨⟨hquote, hnul, hempty⟩, rfl⟩
      have hsame := (@readDelimited_verbatim_iff _ name rest' rest' hrest).mpr ⟨hquote, hnul, rfl⟩
      rw [hread] at hsame
      obtain ⟨rfl, rfl⟩ := Prod.mk.inj (Option.some.inj hsame)
      rw [if_neg]
      rintro ⟨hnil, hrefuses⟩
      exact hempty hrefuses (List.isEmpty_iff.mp hnil)

/-- A quoted name and what follows it: the tokens start with that name exactly if it can be read. -/
theorem lex_quoted_iff (hrules : rules.Regular) {name rest : List Char} {tokens : List Token}
    (hrest : rest.head? ≠ some rules.identifierQuote) :
    lex rules (rules.quoted name ++ rest) = some (.identifier name :: tokens) ↔
      rules.Names name ∧ lex rules rest = some tokens := by
  rw [quoted_append]
  constructor
  · intro hlex
    cases htoken : lexToken rules rules.identifierQuote (name ++ rules.identifierQuote :: rest) with
    | none =>
      rw [lex_none hrules.identifierQuote htoken] at hlex
      cases hlex
    | some read =>
      obtain ⟨token, rest'⟩ := read
      rw [lex_token hrules.identifierQuote htoken] at hlex
      obtain ⟨others, hothers, heq⟩ := Option.map_eq_some_iff.mp hlex
      obtain ⟨rfl, rfl⟩ := List.cons.inj heq
      obtain ⟨hnames, rfl⟩ := (lexToken_quoted_iff hrest).mp htoken
      exact ⟨hnames, hothers⟩
  · rintro ⟨hnames, htokens⟩
    rw [lex_token hrules.identifierQuote ((lexToken_quoted_iff hrest).mpr ⟨hnames, rfl⟩), htokens]
    rfl

/-! ### The paging clause

What may follow the ordered part of a query, as the grammars of three database systems have it, and what it
leaves of the ordered rows. The clause of SQLite and MySQL begins with `LIMIT`; PostgreSQL takes its two
halves in either order and knows no comma. -/

/-- At most so many rows, or all, of those after the first ones. -/
structure Paging where
  limit : Option Nat
  offset : Nat
  deriving DecidableEq, Repr

def Paging.select {R : Type} (paging : Paging) (rows : List R) : List R :=
  match paging.limit with
  | none => rows.drop paging.offset
  | some limit => (rows.drop paging.offset).take limit

def keyword (name : String) : Token := .word name.toList

/-- `[LIMIT count [OFFSET start]]` or `LIMIT start, count`. -/
def parseLimitFirst : List Token → Option Paging
  | [] => some ⟨none, 0⟩
  | [first, .number n] => if first = keyword "LIMIT" then some ⟨some n, 0⟩ else none
  | [first, .number n, second, .number m] =>
      if first = keyword "LIMIT" ∧ second = keyword "OFFSET" then some ⟨some n, m⟩
      else if first = keyword "LIMIT" ∧ second = .symbol ',' then some ⟨some m, n⟩
      else none
  | _ => none

/-- `[LIMIT count] [OFFSET start]`, in either order. -/
def parseEitherOrder : List Token → Option Paging
  | [] => some ⟨none, 0⟩
  | [first, .number n] =>
      if first = keyword "LIMIT" then some ⟨some n, 0⟩
      else if first = keyword "OFFSET" then some ⟨none, n⟩
      else none
  | [first, .number n, second, .number m] =>
      if first = keyword "LIMIT" ∧ second = keyword "OFFSET" then some ⟨some n, m⟩
      else if first = keyword "OFFSET" ∧ second = keyword "LIMIT" then some ⟨some m, n⟩
      else none
  | _ => none

/-- The pages of a size, one after the other, are the rows up to the end of the last page. -/
theorem flatMap_pages {R : Type} (rows : List R) (size count : Nat) :
    (List.range count).flatMap (fun i => (rows.drop (i * size)).take size) = rows.take (count * size) := by
  induction count with
  | zero => simp
  | succ count ih =>
    rw [List.range_succ, List.flatMap_append, ih, List.flatMap_singleton, Nat.succ_mul, List.take_add]

end SoulCoreKit.SqlLexer
