import SoulCoreKit.Proof.Paging

/-!
# Names and strings between quotes

`escapeIdentifier` puts the dialect's quotes around a name and leaves the name as it is. The database reads
it back as one identifier of that name exactly if the quote is not in it; what a caller passes as a field
name is then the one identifier of its statement, and otherwise it is not.
-/

namespace SoulCoreKit.Orm

open SqlLexer Data

variable {engine : DialectClass}

theorem toList_escapeIdentifier (dialect : SqlDialect) (id : String) :
    (dialect.escapeIdentifier id).toList = dialect.cls.rules.quoted id.toList := by
  unfold SqlDialect.escapeIdentifier Rules.quoted
  cases dialect.cls <;> simp [DialectClass.rules, sqlite, mySql, postgreSql, String.toList_append]

/-- Tokens in front of others, which may be taken off both sides. -/
theorem map_cons_eq_some {token : Token} {tokens : List Token} {read : Option (List Token)} :
    read.map (fun others => token :: others) = some (token :: tokens) ↔ read = some tokens := by
  cases read <;> simp

theorem plain_symbol {c : Char} (hc : c = '*' ∨ c = '=' ∨ c = '?') : engine.rules.Plain c := by
  obtain rfl | rfl | rfl := hc <;> cases engine <;> exact ⟨by decide, by decide⟩

/-! ### The statements -/

/-- `SELECT * FROM` and this table. -/
def selectFrom (table : String) : List Token :=
  [keyword "SELECT", .symbol '*', keyword "FROM", .identifier table.toList]

/-- `WHERE` this field has the value of the parameter. -/
def whereField (fieldName : String) : List Token :=
  [keyword "WHERE", .identifier fieldName.toList, .symbol '=', .symbol '?']

/-- `ORDER BY` this field, if there is one. -/
def orderByField (orderBy : String) : List Token :=
  if orderBy.isEmpty then [] else [keyword "ORDER", keyword "BY", .identifier orderBy.toList]

theorem lex_selectFrom_iff (dialect : SqlDialect) (table : String) {rest : List Char} {tokens : List Token}
    (hrest : rest.head? ≠ some dialect.cls.rules.identifierQuote) :
    lex dialect.cls.rules (("SELECT * FROM " ++ dialect.escapeIdentifier table).toList ++ rest) =
        some (selectFrom table ++ tokens) ↔
      dialect.cls.rules.Names table.toList ∧ lex dialect.cls.rules rest = some tokens := by
  have htext : ("SELECT * FROM " ++ dialect.escapeIdentifier table).toList ++ rest =
      'S' :: (['E', 'L', 'E', 'C', 'T'] ++ ' ' :: '*' :: ' ' :: 'F' :: (['R', 'O', 'M'] ++ ' ' ::
        (dialect.cls.rules.quoted table.toList ++ rest))) := by
    simp [String.toList_append, toList_escapeIdentifier]
  rw [htext, lex_keyword _ (by decide) (by decide) (by decide) (by decide),
    lex_symbol (plain_symbol (.inl rfl)) (by decide) (by decide) (by decide), lex_space (by decide),
    lex_keyword _ (by decide) (by decide) (by decide) (by decide),
    ← lex_quoted_iff (DialectClass.regular_rules _) hrest]
  exact map_cons_eq_some.trans (map_cons_eq_some.trans map_cons_eq_some)

theorem space_head_ne {rest : List Char} (engine : DialectClass) :
    (' ' :: rest).head? ≠ some engine.rules.identifierQuote := by
  cases engine <;> simp [DialectClass.rules, sqlite, mySql, postgreSql]

theorem lex_whereField_iff (dialect : SqlDialect) (fieldName : String) :
    lex dialect.cls.rules (" WHERE " ++ dialect.escapeIdentifier fieldName ++ " = ?").toList =
        some (whereField fieldName) ↔
      dialect.cls.rules.Names fieldName.toList := by
  have htext : (" WHERE " ++ dialect.escapeIdentifier fieldName ++ " = ?").toList =
      ' ' :: 'W' :: (['H', 'E', 'R', 'E'] ++ ' ' ::
        (dialect.cls.rules.quoted fieldName.toList ++ [' ', '=', ' ', '?'])) := by
    simp [String.toList_append, toList_escapeIdentifier]
  have hend : lex dialect.cls.rules [' ', '=', ' ', '?'] = some [.symbol '=', .symbol '?'] := by
    rw [lex_space (by decide),
      lex_symbol (plain_symbol (.inr (.inl rfl))) (by decide) (by decide) (by decide),
      lex_space (by decide),
      lex_symbol (plain_symbol (.inr (.inr rfl))) (by decide) (by decide) (by decide), lex_nil]
    rfl
  have hspace := @space_head_ne ['=', ' ', '?'] dialect.cls
  have hname := @lex_quoted_iff _ (DialectClass.regular_rules dialect.cls) fieldName.toList _
    [.symbol '=', .symbol '?'] hspace
  rw [htext, lex_space (by decide), lex_keyword _ (by decide) (by decide) (by decide) (by decide)]
  refine map_cons_eq_some.trans (hname.trans ?_)
  rw [hend]
  exact and_iff_left rfl

theorem lex_findByField_iff (repo : AutoRepository) (fieldName : String) :
    lex repo.mDialect.cls.rules (repo.findByField fieldName).toList =
        some (selectFrom repo.mTableName ++ whereField fieldName) ↔
      repo.mDialect.cls.rules.Names repo.mTableName.toList ∧
        repo.mDialect.cls.rules.Names fieldName.toList := by
  have htext : (repo.findByField fieldName).toList =
      ("SELECT * FROM " ++ repo.mDialect.escapeIdentifier repo.mTableName).toList ++
        (" WHERE " ++ repo.mDialect.escapeIdentifier fieldName ++ " = ?").toList := by
    unfold AutoRepository.findByField
    rw [← String.toList_append]
    simp only [String.append_assoc]
  have hspace : (" WHERE " ++ repo.mDialect.escapeIdentifier fieldName ++ " = ?").toList.head? ≠
      some repo.mDialect.cls.rules.identifierQuote := by
    simpa [String.toList_append] using @space_head_ne [] repo.mDialect.cls
  rw [htext, lex_selectFrom_iff repo.mDialect repo.mTableName hspace, lex_whereField_iff]

/-! ### The statement of a page -/

/-- The tokens of a paging clause. -/
def clauseTokens (cls : DialectClass) (limit offset : Int32) : List Token :=
  let limitNumber : Token := .number limit.toInt.toNat
  let offsetNumber : Token := .number offset.toInt.toNat
  if limit > 0 ∧ offset > 0 then
    if cls = .mySqlDialect then [keyword "LIMIT", offsetNumber, .symbol ',', limitNumber]
    else [keyword "LIMIT", limitNumber, keyword "OFFSET", offsetNumber]
  else if limit > 0 then
    [keyword "LIMIT", limitNumber]
  else if offset > 0 ∧ cls ≠ .mySqlDialect then
    [keyword "OFFSET", offsetNumber]
  else
    []

theorem lex_limitThenOffset {cls : DialectClass} (hcls : cls ≠ .mySqlDialect) (limit offset : Int32) :
    lex engine.rules (" " ++ SqlDialect.limitThenOffset limit offset).toList =
      some (clauseTokens cls limit offset) := by
  unfold SqlDialect.limitThenOffset clauseTokens
  dsimp only
  split
  · rename_i hboth
    exact lex_both (Int32.le_of_lt hboth.1) (Int32.le_of_lt hboth.2)
  · split
    · rename_i hlimit
      exact lex_limit_clause (Int32.le_of_lt hlimit)
    · split
      · rename_i hoffset
        rw [if_pos ⟨hoffset, hcls⟩]
        exact lex_offset_clause (Int32.le_of_lt hoffset)
      · rename_i hnone
        rw [if_neg fun hoffset => hnone hoffset.1]
        exact lex_blank

theorem lex_buildLimitOffset (dialect : SqlDialect) (limit offset : Int32) :
    lex dialect.cls.rules (" " ++ dialect.buildLimitOffset limit offset).toList =
      some (clauseTokens dialect.cls limit offset) := by
  unfold SqlDialect.buildLimitOffset
  cases dialect.cls with
  | sqliteDialect => exact lex_limitThenOffset (by decide) limit offset
  | postgreSqlDialect => exact lex_limitThenOffset (by decide) limit offset
  | mySqlDialect =>
    unfold clauseTokens
    dsimp only
    split
    · rename_i hboth
      exact lex_comma (Int32.le_of_lt hboth.1) (Int32.le_of_lt hboth.2)
    · split
      · rename_i hlimit
        exact lex_limit_clause (Int32.le_of_lt hlimit)
      · rw [if_neg fun hoffset => hoffset.2 rfl]
        exact lex_blank

/-- The clause of a page starts with a space, if there is one. -/
theorem lex_pageClause (repo : AutoRepository) (page pageSize : Int32) :
    lex repo.mDialect.cls.rules (repo.pageClause page pageSize).toList =
        some (clauseTokens repo.mDialect.cls pageSize ((page - 1) * pageSize)) ∧
      (repo.pageClause page pageSize).toList.head? ≠ some repo.mDialect.cls.rules.identifierQuote := by
  have hlex := lex_buildLimitOffset repo.mDialect pageSize ((page - 1) * pageSize)
  unfold AutoRepository.pageClause
  dsimp only
  split
  · rename_i hempty
    rw [String.isEmpty_iff.mp hempty, lex_blank] at hlex
    exact ⟨by simpa using hlex, by simp⟩
  · refine ⟨hlex, ?_⟩
    simpa [String.toList_append] using @space_head_ne [] repo.mDialect.cls

theorem lex_orderBy_iff (dialect : SqlDialect) (orderBy : String) {rest : List Char} {tokens : List Token}
    (hrest : rest.head? ≠ some dialect.cls.rules.identifierQuote) :
    lex dialect.cls.rules ((" ORDER BY " ++ dialect.escapeIdentifier orderBy).toList ++ rest) =
        some (keyword "ORDER" :: keyword "BY" :: .identifier orderBy.toList :: tokens) ↔
      dialect.cls.rules.Names orderBy.toList ∧ lex dialect.cls.rules rest = some tokens := by
  have htext : (" ORDER BY " ++ dialect.escapeIdentifier orderBy).toList ++ rest =
      ' ' :: 'O' :: (['R', 'D', 'E', 'R'] ++ ' ' :: 'B' :: (['Y'] ++ ' ' ::
        (dialect.cls.rules.quoted orderBy.toList ++ rest))) := by
    simp [String.toList_append, toList_escapeIdentifier]
  rw [htext, lex_space (by decide), lex_keyword _ (by decide) (by decide) (by decide) (by decide),
    lex_keyword _ (by decide) (by decide) (by decide) (by decide),
    ← lex_quoted_iff (DialectClass.regular_rules _) hrest]
  exact map_cons_eq_some.trans map_cons_eq_some

theorem lex_pageQuery_iff (repo : AutoRepository) (page pageSize : Int32) (orderBy : String) :
    lex repo.mDialect.cls.rules (repo.pageQuery page pageSize orderBy).toList =
        some (selectFrom repo.mTableName ++ (orderByField orderBy ++
          clauseTokens repo.mDialect.cls pageSize ((page - 1) * pageSize))) ↔
      repo.mDialect.cls.rules.Names repo.mTableName.toList ∧
        (orderBy ≠ "" → repo.mDialect.cls.rules.Names orderBy.toList) := by
  obtain ⟨hclause, hhead⟩ := lex_pageClause repo page pageSize
  by_cases hempty : orderBy = ""
  · have htext : (repo.pageQuery page pageSize orderBy).toList =
        ("SELECT * FROM " ++ repo.mDialect.escapeIdentifier repo.mTableName).toList ++
          (repo.pageClause page pageSize).toList := by
      unfold AutoRepository.pageQuery AutoRepository.pageBody
      rw [← String.toList_append, if_pos (String.isEmpty_iff.mpr hempty), String.append_empty]
    have hfield : orderByField orderBy = [] := by simp [orderByField, hempty]
    rw [htext, hfield, List.nil_append, lex_selectFrom_iff repo.mDialect repo.mTableName hhead]
    simp [hclause, hempty]
  · have hfilled : orderBy.isEmpty = false := by
      rw [← Bool.not_eq_true, String.isEmpty_iff]
      exact hempty
    have htext : (repo.pageQuery page pageSize orderBy).toList =
        ("SELECT * FROM " ++ repo.mDialect.escapeIdentifier repo.mTableName).toList ++
          ((" ORDER BY " ++ repo.mDialect.escapeIdentifier orderBy).toList ++
            (repo.pageClause page pageSize).toList) := by
      unfold AutoRepository.pageQuery AutoRepository.pageBody
      rw [← String.toList_append, ← String.toList_append, hfilled]
      simp only [Bool.false_eq_true, if_false, String.append_assoc]
    have hfield : orderByField orderBy =
        [keyword "ORDER", keyword "BY", .identifier orderBy.toList] := by simp [orderByField, hfilled]
    have hspace : ((" ORDER BY " ++ repo.mDialect.escapeIdentifier orderBy).toList ++
        (repo.pageClause page pageSize).toList).head? ≠ some repo.mDialect.cls.rules.identifierQuote := by
      simpa [String.toList_append] using @space_head_ne [] repo.mDialect.cls
    rw [htext, hfield, lex_selectFrom_iff repo.mDialect repo.mTableName hspace]
    have horder := @lex_orderBy_iff repo.mDialect orderBy _
      (clauseTokens repo.mDialect.cls pageSize ((page - 1) * pageSize)) hhead
    simp only [List.cons_append, List.nil_append, horder, hclause, and_true, ne_eq, hempty,
      not_false_eq_true, forall_const]

/-! ### The result -/

/-- A name is one identifier between its quotes exactly if it is free of them (and of NUL, and not empty in
PostgreSQL); and the statements that take a field name consist of their own tokens exactly if this holds of
the table and of that name. -/
theorem quoted_name_iff (dialect : SqlDialect) (id : String) (repo : AutoRepository) (page pageSize : Int32)
    (fieldName : String) :
    (lex dialect.cls.rules (dialect.escapeIdentifier id).toList = some [.identifier id.toList] ↔
      dialect.cls.rules.Names id.toList) ∧
    (lex repo.mDialect.cls.rules (repo.findByField fieldName).toList =
        some (selectFrom repo.mTableName ++ whereField fieldName) ↔
      repo.mDialect.cls.rules.Names repo.mTableName.toList ∧
        repo.mDialect.cls.rules.Names fieldName.toList) ∧
    repo.findAllByField fieldName = repo.findByField fieldName ∧
    (lex repo.mDialect.cls.rules (repo.pageQuery page pageSize fieldName).toList =
        some (selectFrom repo.mTableName ++ (orderByField fieldName ++
          clauseTokens repo.mDialect.cls pageSize ((page - 1) * pageSize))) ↔
      repo.mDialect.cls.rules.Names repo.mTableName.toList ∧
        (fieldName ≠ "" → repo.mDialect.cls.rules.Names fieldName.toList)) := by
  refine ⟨?_, lex_findByField_iff repo fieldName, rfl, lex_pageQuery_iff repo page pageSize fieldName⟩
  have hquoted := @lex_quoted_iff _ (DialectClass.regular_rules dialect.cls) id.toList [] [] (by simp)
  rw [List.append_nil, lex_nil] at hquoted
  rw [toList_escapeIdentifier, hquoted]
  exact and_iff_left rfl

/-- A field name with the quote in it: `findByField` selects by another condition than on one field. -/
theorem quoted_name_breaks_out :
    let repo : AutoRepository := ⟨"users", { cls := .sqliteDialect }⟩
    lex sqlite (repo.mDialect.escapeIdentifier "a\"b").toList = none ∧
    lex sqlite (repo.findByField "id\" IS NOT NULL OR \"id").toList =
      some (selectFrom "users" ++ [keyword "WHERE", .identifier "id".toList, keyword "IS", keyword "NOT",
        keyword "NULL", keyword "OR", .identifier "id".toList, .symbol '=', .symbol '?']) := by
  decide +kernel

end SoulCoreKit.Orm

/-! ### Strings

`escapeString` doubles the quotes of a string, in MySQL its backslashes as well, and puts quotes around it.
The database reads the string back and stops where the literal ends, with two exceptions that are its own:
SQLite and PostgreSQL do not take a NUL, and PostgreSQL goes on with a second literal where there is white
space with a line break between the two. -/

namespace SoulCoreKit.Orm

open SqlLexer

/-- How the dialect writes a character of a string. -/
def DialectClass.encode (cls : DialectClass) (c : Char) : List Char :=
  if c = '\x27' then ['\x27', '\x27']
  else if c = '\x5c' ∧ cls = .mySqlDialect then ['\x5c', '\x5c']
  else [c]

theorem toList_replace (before : Char) (after text : String) :
    (SqlDialect.replace before after text).toList =
      text.toList.flatMap fun c => if c = before then after.toList else [c] := by
  rw [SqlDialect.replace, String.toList_ofList]

/-- Two replacements, one after the other, are one pass over the string. -/
theorem toList_escapeString (dialect : SqlDialect) (str : String) :
    (dialect.escapeString str).toList =
      '\x27' :: (str.toList.flatMap dialect.cls.encode ++ ['\x27']) := by
  unfold SqlDialect.escapeString DialectClass.encode
  cases dialect.cls with
  | mySqlDialect =>
    have hpass : ∀ c : Char, (if c = '\x27' then ['\x27', '\x27'] else [c]).flatMap
        (fun c => if c = '\x5c' then ['\x5c', '\x5c'] else [c]) =
        if c = '\x27' then ['\x27', '\x27'] else if c = '\x5c' then ['\x5c', '\x5c'] else [c] := by
      intro c
      by_cases hquote : c = '\x27'
      · simp [hquote]
      · by_cases hslash : c = '\x5c' <;> simp [hquote, hslash]
    simp only [String.toList_append, toList_replace, List.flatMap_assoc, and_true]
    simp [hpass]
  | _ => simp [String.toList_append, toList_replace]

variable {engine : DialectClass}

/-- Each character is read back, but for a NUL where none may stand. -/
theorem readDelimited_encode {c : Char} {text : List Char}
    (hnul : engine.rules.nulInStrings = false → c ≠ '\x00') (htext : text ≠ []) :
    readDelimited '\x27' engine.rules.backslashEscapes engine.rules.nulInStrings
        (engine.encode c ++ text) =
      push [c] (readDelimited '\x27' engine.rules.backslashEscapes engine.rules.nulInStrings text) := by
  unfold DialectClass.encode
  split
  · rename_i hquote
    rw [hquote]
    simp [readDelimited]
  · rename_i hquote
    split
    · rename_i hslash
      obtain ⟨rfl, rfl⟩ := hslash
      simp [readDelimited, DialectClass.rules, mySql, escaped]
    · rename_i hslash
      refine readDelimited_cons hquote ?_ (fun hzero => hnul hzero.1 hzero.2) htext
      rintro ⟨hescapes, rfl⟩
      cases engine with
      | mySqlDialect => exact hslash ⟨rfl, rfl⟩
      | _ => cases hescapes

theorem nulInStrings_iff : engine.rules.nulInStrings = false ↔ engine ≠ .mySqlDialect := by
  cases engine <;> simp [DialectClass.rules, sqlite, mySql, postgreSql]

theorem not_nul_of_mem {str : String} {c : Char} (hc : c ∈ str.toList)
    (hnul : engine ≠ .mySqlDialect → '\x00' ∉ str.toList) :
    engine.rules.nulInStrings = false → c ≠ '\x00' := by
  rintro hrefuses rfl
  exact hnul (nulInStrings_iff.mp hrefuses) hc

theorem firstToken_quote (engine : DialectClass) (tail : List Char) :
    firstToken engine.rules ('\x27' :: tail) =
      (readString engine.rules '\x27' tail).map fun read => (.string read.1, read.2) := by
  cases engine <;> rfl

/-- What follows a literal and makes it go on. -/
theorem joined_eq_none_iff {rest : List Char} :
    engine.rules.joined '\x27' rest = none ↔
      (engine = .postgreSqlDialect → continuation '\x27' false false rest = none) := by
  cases engine <;> simp [Rules.joined, DialectClass.rules, sqlite, mySql, postgreSql]

theorem readDelimited_literal {str : String} {rest : List Char}
    (hnul : engine ≠ .mySqlDialect → '\x00' ∉ str.toList) (hrest : rest.head? ≠ some '\x27') :
    readDelimited '\x27' engine.rules.backslashEscapes engine.rules.nulInStrings
      (str.toList.flatMap engine.encode ++ '\x27' :: rest) = some (str.toList, rest) :=
  readDelimited_flatMap (fun _ hc _ htext => readDelimited_encode (not_nul_of_mem hc hnul) htext) hrest

theorem readDelimited_literal_nul {str : String} {rest : List Char} (hengine : engine ≠ .mySqlDialect)
    (hnul : '\x00' ∈ str.toList) :
    readDelimited '\x27' engine.rules.backslashEscapes engine.rules.nulInStrings
      (str.toList.flatMap engine.encode ++ '\x27' :: rest) = none := by
  have hescapes : engine.rules.backslashEscapes = false := by
    cases engine with
    | mySqlDialect => exact absurd rfl hengine
    | _ => rfl
  have hrefuses := nulInStrings_iff.mpr hengine
  have hencode : ∀ c ∈ str.toList, c ≠ '\x00' → ∀ text, text ≠ [] →
      readDelimited '\x27' false false (engine.encode c ++ text) =
        push [c] (readDelimited '\x27' false false text) := by
    intro c _ hc text htext
    have hread := @readDelimited_encode engine c text (fun _ => hc) htext
    rwa [hescapes, hrefuses] at hread
  rw [hescapes, hrefuses]
  exact readDelimited_flatMap_nul hencode (by simp [DialectClass.encode]) (by decide) hnul (by simp)

/-- The literal of a string, in front of a text that does not start with a quote, is read as one token
with the string as its value and the text left over, exactly if there is no NUL in the string (where the
system refuses one) and the text does not continue the literal (which PostgreSQL alone looks for). -/
theorem string_literal_iff (dialect : SqlDialect) (str : String) (rest : List Char)
    (hrest : rest.head? ≠ some '\x27') :
    firstToken dialect.cls.rules ((dialect.escapeString str).toList ++ rest) =
        some (.string str.toList, rest) ↔
      (dialect.cls ≠ .mySqlDialect → '\x00' ∉ str.toList) ∧
        (dialect.cls = .postgreSqlDialect → continuation '\x27' false false rest = none) := by
  have htext : (dialect.escapeString str).toList ++ rest =
      '\x27' :: (str.toList.flatMap dialect.cls.encode ++ '\x27' :: rest) := by
    simp [toList_escapeString]
  rw [htext, firstToken_quote, ← joined_eq_none_iff]
  constructor
  · intro hread
    obtain ⟨read, hstring, heq⟩ := Option.map_eq_some_iff.mp hread
    obtain ⟨-, rfl⟩ := Prod.mk.inj heq
    have hnul : dialect.cls ≠ .mySqlDialect → '\x00' ∉ str.toList := by
      intro hengine hmem
      rw [readString_of_none (readDelimited_literal_nul hengine hmem)] at hstring
      cases hstring
    refine ⟨hnul, ?_⟩
    cases hjoined : dialect.cls.rules.joined '\x27' read.2 with
    | none => rfl
    | some more =>
      -- a literal that goes on leaves less than `rest`
      rw [readString_of_joined (readDelimited_literal hnul hrest) hjoined] at hstring
      obtain ⟨tail, htail, _⟩ := push_eq_some hstring
      have hshorter := Nat.lt_trans (readString_length htail) (joined_length hjoined)
      exact absurd hshorter (Nat.lt_irrefl _)
  · rintro ⟨hnul, hends⟩
    rw [readString_of_ends (readDelimited_literal hnul hrest) hends]
    rfl

theorem string_literal_backslash :
    firstToken mySql ((({ cls := .mySqlDialect } : SqlDialect).escapeString "it's a\\").toList ++ [' ']) =
      some (.string "it's a\\".toList, [' ']) :=
  (string_literal_iff { cls := .mySqlDialect } "it's a\\" [' '] (by decide)).mpr
    ⟨fun hne => absurd rfl hne, fun heq => by cases heq⟩

/-- A second literal on the next line becomes a part of the first one in PostgreSQL, and a NUL leaves the
literal of SQLite unfinished. -/
theorem string_literal_joined :
    firstToken postgreSql
        ((({ cls := .postgreSqlDialect } : SqlDialect).escapeString "a").toList ++ "\n'b'".toList) =
      some (.string "ab".toList, []) ∧
    firstToken sqlite ((({ cls := .sqliteDialect } : SqlDialect).escapeString "a\x00b").toList ++ [' ']) =
      none := by
  decide +kernel

end SoulCoreKit.Orm
