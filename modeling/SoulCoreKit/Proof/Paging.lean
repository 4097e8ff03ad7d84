import Mathlib.Algebra.Order.Ring.Int
import SoulCoreKit.Orm.SqlDialect
import SoulCoreKit.Lib.SqlLexer
import SoulCoreKit.Orm.QueryWrapper

/-!
# The rows of a page

A paging clause is read by the grammar of the database it is sent to. An offset without a limit has no
clause of its own in SQLite and MySQL: the builder writes a bare `OFFSET`, which they refuse, or, in the
MySQL dialect, nothing at all. The offset of a numbered page is a product of two `int`s, and from
`2 ^ 31` on it wraps.
-/

namespace SoulCoreKit.Orm

open SqlLexer Data

/-! ### What a database reads -/

namespace DialectClass

/-- The lexical rules of the system that a dialect is for. -/
def rules : DialectClass → Rules
  | .sqliteDialect => sqlite
  | .mySqlDialect => mySql
  | .postgreSqlDialect => postgreSql

def parsePaging : DialectClass → List Token → Option Paging
  | .sqliteDialect => parseLimitFirst
  | .mySqlDialect => parseLimitFirst
  | .postgreSqlDialect => parseEitherOrder

/-- What the clause leaves of the ordered rows, if the system accepts it. -/
def answer {R : Type} (engine : DialectClass) (clause : String) (rows : List R) : Option (List R) :=
  ((lex engine.rules clause.toList).bind engine.parsePaging).map fun paging => paging.select rows

theorem regular_rules (engine : DialectClass) : engine.rules.Regular := by
  cases engine
  · exact regular_sqlite
  · exact regular_mySql
  · exact regular_postgreSql

end DialectClass

/-- The rows after the first ones; a limit of zero means all of them. -/
def pageOf {R : Type} (limit offset : Nat) (rows : List R) : List R :=
  if limit = 0 then rows.drop offset else (rows.drop offset).take limit

/-- The clause is valid and selects this page, of all rows. -/
def Selects (engine : DialectClass) (clause : String) (limit offset : Nat) : Prop :=
  ∀ (R : Type) (rows : List R), engine.answer clause rows = some (pageOf limit offset rows)

/-! ### The tokens of the clauses -/

section Tokens

variable {engine : DialectClass}

theorem plain_keyword {c : Char} (hc : isWordStart c = true) : engine.rules.Plain c := by
  have hne : ∀ q : Char, isWordStart q = false → c ≠ q := by
    rintro q hq rfl
    rw [hc] at hq
    cases hq
  cases engine
  · exact ⟨hne _ (by decide), by simpa [DialectClass.rules, sqlite] using hne _ (by decide)⟩
  · exact ⟨hne _ (by decide),
      by simpa [DialectClass.rules, mySql] using ⟨hne _ (by decide), hne _ (by decide)⟩⟩
  · exact ⟨hne _ (by decide), by simpa [DialectClass.rules, postgreSql] using hne _ (by decide)⟩

theorem plain_comma : engine.rules.Plain ',' := by
  cases engine <;> exact ⟨by decide, by decide⟩

/-- A word and the space after it. -/
theorem lex_keyword {c : Char} {letters : List Char} (rest : List Char) (hc : isWordStart c = true)
    (hspace : isSpace c = false) (hdigit : c.isDigit = false) (hletters : letters.all isWordRest = true) :
    lex engine.rules (c :: (letters ++ ' ' :: rest)) =
      (lex engine.rules rest).map fun tokens => .word (c :: letters) :: tokens := by
  rw [lex_word (plain_keyword hc) hspace hdigit hc hletters (by simp; decide),
    lex_space (c := ' ') (by decide)]

theorem lex_limit (rest : List Char) :
    lex engine.rules ('L' :: 'I' :: 'M' :: 'I' :: 'T' :: ' ' :: rest) =
      (lex engine.rules rest).map fun tokens => keyword "LIMIT" :: tokens :=
  @lex_keyword engine 'L' ['I', 'M', 'I', 'T'] rest (by decide) (by decide) (by decide) (by decide)

theorem lex_offset (rest : List Char) :
    lex engine.rules ('O' :: 'F' :: 'F' :: 'S' :: 'E' :: 'T' :: ' ' :: rest) =
      (lex engine.rules rest).map fun tokens => keyword "OFFSET" :: tokens :=
  @lex_keyword engine 'O' ['F', 'F', 'S', 'E', 'T'] rest (by decide) (by decide) (by decide) (by decide)

theorem toList_toString {n : Int32} (hn : 0 ≤ n) :
    (toString n).toList = Nat.toDigits 10 n.toInt.toNat := by
  have hpos : 0 ≤ n.toInt := Int32.le_iff_toInt_le.mp hn
  obtain ⟨m, hm⟩ := Int.eq_ofNat_of_zero_le hpos
  change (toString n.toInt).toList = _
  rw [hm]
  exact String.toList_ofList

theorem lex_int {n : Int32} (hn : 0 ≤ n) {rest : List Char} (hrest : ∀ d ∈ rest.head?, d.isDigit = false) :
    lex engine.rules ((toString n).toList ++ rest) =
      (lex engine.rules rest).map fun tokens => .number n.toInt.toNat :: tokens := by
  rw [toList_toString hn]
  exact lex_number engine.regular_rules _ hrest

theorem lex_int_end {n : Int32} (hn : 0 ≤ n) :
    lex engine.rules (toString n).toList = some [.number n.toInt.toNat] := by
  have hlex := @lex_int engine n hn [] (by simp)
  rw [List.append_nil, lex_nil] at hlex
  exact hlex

theorem lex_limit_clause {limit : Int32} (hlimit : 0 ≤ limit) :
    lex engine.rules (" " ++ ("LIMIT " ++ toString limit)).toList =
      some [keyword "LIMIT", .number limit.toInt.toNat] := by
  have htext : (" " ++ ("LIMIT " ++ toString limit)).toList =
      ' ' :: 'L' :: 'I' :: 'M' :: 'I' :: 'T' :: ' ' :: (toString limit).toList := by
    simp [String.toList_append]
  rw [htext, lex_space (by decide), lex_limit, lex_int_end hlimit]
  rfl

theorem lex_offset_clause {offset : Int32} (hoffset : 0 ≤ offset) :
    lex engine.rules (" " ++ ("OFFSET " ++ toString offset)).toList =
      some [keyword "OFFSET", .number offset.toInt.toNat] := by
  have htext : (" " ++ ("OFFSET " ++ toString offset)).toList =
      ' ' :: 'O' :: 'F' :: 'F' :: 'S' :: 'E' :: 'T' :: ' ' :: (toString offset).toList := by
    simp [String.toList_append]
  rw [htext, lex_space (by decide), lex_offset, lex_int_end hoffset]
  rfl

theorem lex_both {limit offset : Int32} (hlimit : 0 ≤ limit) (hoffset : 0 ≤ offset) :
    lex engine.rules (" " ++ ("LIMIT " ++ toString limit ++ " OFFSET " ++ toString offset)).toList =
      some [keyword "LIMIT", .number limit.toInt.toNat, keyword "OFFSET", .number offset.toInt.toNat] := by
  have htext : (" " ++ ("LIMIT " ++ toString limit ++ " OFFSET " ++ toString offset)).toList =
      ' ' :: 'L' :: 'I' :: 'M' :: 'I' :: 'T' :: ' ' :: ((toString limit).toList ++
        ' ' :: 'O' :: 'F' :: 'F' :: 'S' :: 'E' :: 'T' :: ' ' :: (toString offset).toList) := by
    simp [String.toList_append]
  rw [htext, lex_space (by decide), lex_limit, lex_int hlimit (by simp), lex_space (by decide), lex_offset,
    lex_int_end hoffset]
  rfl

theorem lex_comma {limit offset : Int32} (hlimit : 0 ≤ limit) (hoffset : 0 ≤ offset) :
    lex engine.rules (" " ++ ("LIMIT " ++ toString offset ++ ", " ++ toString limit)).toList =
      some [keyword "LIMIT", .number offset.toInt.toNat, .symbol ',', .number limit.toInt.toNat] := by
  have htext : (" " ++ ("LIMIT " ++ toString offset ++ ", " ++ toString limit)).toList =
      ' ' :: 'L' :: 'I' :: 'M' :: 'I' :: 'T' :: ' ' :: ((toString offset).toList ++
        ',' :: ' ' :: (toString limit).toList) := by
    simp [String.toList_append]
  rw [htext, lex_space (by decide), lex_limit, lex_int hoffset (by simp),
    lex_symbol plain_comma (by decide) (by decide) (by decide), lex_space (by decide), lex_int_end hlimit]
  rfl

theorem lex_blank : lex engine.rules (" " ++ "").toList = some [] := by
  change lex engine.rules [' '] = some []
  rw [lex_space (by decide), lex_nil]

end Tokens

/-! ### Which clauses select their page -/

section Clauses

variable {engine : DialectClass} {clause : String}

theorem answer_of_tokens {tokens : List Token} {paging : Paging} {R : Type}
    (hlex : lex engine.rules clause.toList = some tokens) (hparse : engine.parsePaging tokens = some paging)
    (rows : List R) : engine.answer clause rows = some (paging.select rows) := by
  rw [DialectClass.answer, hlex, Option.bind_some, hparse]
  rfl

theorem answer_of_refused {tokens : List Token} {R : Type}
    (hlex : lex engine.rules clause.toList = some tokens) (hparse : engine.parsePaging tokens = none)
    (rows : List R) : engine.answer clause rows = none := by
  rw [DialectClass.answer, hlex, Option.bind_some, hparse]
  rfl

theorem parse_limit (n : Nat) : engine.parsePaging [keyword "LIMIT", .number n] = some ⟨some n, 0⟩ := by
  cases engine <;> rfl

theorem parse_both (n m : Nat) :
    engine.parsePaging [keyword "LIMIT", .number n, keyword "OFFSET", .number m] = some ⟨some n, m⟩ := by
  cases engine <;> rfl

theorem pos_toNat {n : Int32} (hn : n > 0) : n.toInt.toNat ≠ 0 := by
  have hpos : 0 < n.toInt := Int32.lt_iff_toInt_lt.mp hn
  omega

theorem selects_limit {limit : Int32} (hlimit : limit > 0) :
    Selects engine (" " ++ ("LIMIT " ++ toString limit)) limit.toInt.toNat 0 := by
  intro R rows
  rw [answer_of_tokens (lex_limit_clause (Int32.le_of_lt hlimit)) (parse_limit _), pageOf,
    if_neg (pos_toNat hlimit)]
  rfl

theorem selects_both {limit offset : Int32} (hlimit : limit > 0) (hoffset : 0 ≤ offset) :
    Selects engine (" " ++ ("LIMIT " ++ toString limit ++ " OFFSET " ++ toString offset))
      limit.toInt.toNat offset.toInt.toNat := by
  intro R rows
  rw [answer_of_tokens (lex_both (Int32.le_of_lt hlimit) hoffset) (parse_both _ _), pageOf,
    if_neg (pos_toNat hlimit)]
  rfl

/-- The comma form, in the system whose dialect writes it. -/
theorem selects_comma {limit offset : Int32} (hlimit : limit > 0) (hoffset : 0 ≤ offset) :
    Selects .mySqlDialect (" " ++ ("LIMIT " ++ toString offset ++ ", " ++ toString limit))
      limit.toInt.toNat offset.toInt.toNat := by
  intro R rows
  rw [@answer_of_tokens _ _ _ ⟨some limit.toInt.toNat, offset.toInt.toNat⟩ _
    (lex_comma (Int32.le_of_lt hlimit) hoffset) rfl, pageOf, if_neg (pos_toNat hlimit)]
  rfl

theorem selects_nothing : Selects engine "" 0 0 := by
  intro R rows
  rw [@answer_of_tokens _ _ [] ⟨none, 0⟩ _ (by simp) (by cases engine <;> rfl)]
  rfl

theorem toNat_of_not_pos {n : Int32} (hn : ¬ n > 0) : n.toInt.toNat = 0 := by
  have hle : n.toInt ≤ (0 : Int32).toInt := Int32.le_iff_toInt_le.mp (Int32.not_lt.mp hn)
  exact Int.toNat_of_nonpos hle

/-- The clause of a dialect, with a limit and any offset: one that is not positive counts as none. -/
theorem selects_buildLimitOffset (dialect : SqlDialect) {limit : Int32} (offset : Int32)
    (hlimit : limit > 0) :
    Selects dialect.cls (" " ++ dialect.buildLimitOffset limit offset) limit.toInt.toNat
      offset.toInt.toNat := by
  unfold SqlDialect.buildLimitOffset SqlDialect.limitThenOffset
  by_cases hpos : offset > 0
  · have hboth : limit > 0 ∧ offset > 0 := ⟨hlimit, hpos⟩
    split
    · rw [if_pos hboth]
      exact selects_both hlimit (Int32.le_of_lt hpos)
    · rename_i hcls
      rw [if_pos hboth, hcls]
      exact selects_comma hlimit (Int32.le_of_lt hpos)
    · rw [if_pos hboth]
      exact selects_both hlimit (Int32.le_of_lt hpos)
  · have hnot : ¬ (limit > 0 ∧ offset > 0) := fun hboth => hpos hboth.2
    rw [toNat_of_not_pos hpos]
    split <;> rw [if_neg hnot, if_pos hlimit] <;> exact selects_limit hlimit

theorem parse_offset (hengine : engine ≠ .postgreSqlDialect) (n : Nat) :
    engine.parsePaging [keyword "OFFSET", .number n] = none := by
  cases engine with
  | postgreSqlDialect => exact absurd rfl hengine
  | _ => rfl

/-- A bare `OFFSET` is a clause of PostgreSQL alone. -/
theorem selects_offset_iff {offset : Int32} (hoffset : 0 ≤ offset) :
    Selects engine (" " ++ ("OFFSET " ++ toString offset)) 0 offset.toInt.toNat ↔
      engine = .postgreSqlDialect := by
  constructor
  · intro hselects
    by_contra hengine
    have hanswer := hselects Nat []
    rw [answer_of_refused (lex_offset_clause hoffset) (parse_offset hengine _)] at hanswer
    cases hanswer
  · rintro rfl R rows
    rw [@answer_of_tokens _ _ _ ⟨none, offset.toInt.toNat⟩ _ (lex_offset_clause hoffset) rfl]
    rfl

/-- No clause leaves all rows, which is not the page after some of them. -/
theorem not_selects_blank {offset : Int32} (hoffset : offset > 0) :
    ¬ Selects engine (" " ++ "") 0 offset.toInt.toNat := by
  intro hselects
  have hanswer := hselects Nat [0]
  obtain ⟨n, hn⟩ := Nat.exists_eq_succ_of_ne_zero (pos_toNat hoffset)
  rw [@answer_of_tokens _ _ _ ⟨none, 0⟩ _ lex_blank (by cases engine <;> rfl), hn] at hanswer
  simp [Paging.select, pageOf] at hanswer

/-- Different pages of a size hold different rows. -/
theorem exists_pageOf_ne {limit offset offset' : Nat} (hlimit : limit ≠ 0) (hne : offset ≠ offset') :
    ∃ rows : List Nat, pageOf limit offset rows ≠ pageOf limit offset' rows := by
  refine ⟨List.range (offset + offset' + 1), ?_⟩
  intro heq
  have hhead : ∀ n, n < offset + offset' + 1 →
      (pageOf limit n (List.range (offset + offset' + 1)))[0]? = some n := by
    intro n hn
    simp [pageOf, hlimit, Nat.pos_of_ne_zero hlimit, hn]
  have hfirst := hhead offset (by omega)
  rw [heq, hhead offset' (by omega)] at hfirst
  exact hne (Option.some.inj hfirst).symm

end Clauses

/-! ### The query builder -/

namespace QueryWrapper

variable {T : Type}

/-- The query without its limit and its offset. -/
def unpaged (q : QueryWrapper T) : QueryWrapper T := { q with mLimit := 0, mOffset := 0 }

/-- What `buildSelectSql` appends for the limit and the offset. -/
def pagingText (q : QueryWrapper T) : String :=
  if q.mLimit > 0 ∨ q.mOffset > 0 then " " ++ q.limitOffset else ""

theorem render_buildSelectSql_unpaged (q : QueryWrapper T) (tableName : String) :
    q.render (q.buildSelectSql tableName) =
      q.render (q.unpaged.buildSelectSql tableName) ++ q.pagingText := by
  have hzero : ¬ (0 : Int32) > 0 := by decide
  have hunpaged : ¬ (q.unpaged.mLimit > 0 ∨ q.unpaged.mOffset > 0) := not_or.mpr ⟨hzero, hzero⟩
  unfold buildSelectSql pagingText
  dsimp only
  rw [if_neg hunpaged]
  split
  · rw [render_append]
    rfl
  · rw [String.append_empty]
    rfl

/-- The query is meant for this system: its dialect, if it has one, is. -/
def MeantFor (q : QueryWrapper T) (engine : DialectClass) : Prop :=
  ∀ dialect ∈ q.mDialect, dialect.cls = engine

theorem eq_zero_of_not_pos {n : Int32} (hn : 0 ≤ n) (hpos : ¬ n > 0) : n = 0 :=
  Int32.le_antisymm (Int32.not_lt.mp hpos) hn

/-- The clause of a query with a limit. -/
theorem selects_of_limit {q : QueryWrapper T} {engine : DialectClass} (hmeant : q.MeantFor engine)
    (hlimit : q.mLimit > 0) :
    Selects engine q.pagingText q.mLimit.toInt.toNat q.mOffset.toInt.toNat := by
  rw [pagingText, if_pos (.inl hlimit), limitOffset]
  cases hdialect : q.mDialect with
  | some dialect =>
    obtain rfl := hmeant dialect hdialect
    exact selects_buildLimitOffset dialect q.mOffset hlimit
  | none =>
    dsimp only
    by_cases hpos : q.mOffset > 0
    · rw [if_pos ⟨hlimit, hpos⟩]
      exact selects_both hlimit (Int32.le_of_lt hpos)
    · rw [if_neg fun hboth => hpos hboth.2, if_pos hlimit, toNat_of_not_pos hpos]
      exact selects_limit hlimit

/-- The clause of a query with an offset alone. -/
theorem selects_of_offset_iff {q : QueryWrapper T} {engine : DialectClass} (hmeant : q.MeantFor engine)
    (hlimit : q.mLimit = 0) (hoffset : q.mOffset > 0) :
    Selects engine q.pagingText 0 q.mOffset.toInt.toNat ↔ engine = .postgreSqlDialect := by
  have hzero : ¬ q.mLimit > 0 := by
    rw [hlimit]
    decide
  have hnot : ¬ (q.mLimit > 0 ∧ q.mOffset > 0) := fun hboth => hzero hboth.1
  have hbare := @selects_offset_iff engine _ (Int32.le_of_lt hoffset)
  rw [pagingText, if_pos (.inr hoffset), limitOffset]
  cases hdialect : q.mDialect with
  | none =>
    dsimp only
    rwa [if_neg hnot, if_neg hzero]
  | some dialect =>
    obtain rfl := hmeant dialect hdialect
    dsimp only
    unfold SqlDialect.buildLimitOffset SqlDialect.limitThenOffset
    split
    · rwa [if_neg hnot, if_neg hzero, if_pos hoffset]
    · rename_i hcls
      rw [if_neg hnot, if_neg hzero, hcls]
      simpa using not_selects_blank hoffset
    · rwa [if_neg hnot, if_neg hzero, if_pos hoffset]

theorem selects_pagingText_iff {q : QueryWrapper T} {engine : DialectClass} (hmeant : q.MeantFor engine)
    (hlimit : 0 ≤ q.mLimit) (hoffset : 0 ≤ q.mOffset) :
    Selects engine q.pagingText q.mLimit.toInt.toNat q.mOffset.toInt.toNat ↔
      q.mLimit > 0 ∨ q.mOffset = 0 ∨ engine = .postgreSqlDialect := by
  by_cases hlimited : q.mLimit > 0
  · simp only [hlimited, true_or, iff_true]
    exact selects_of_limit hmeant hlimited
  · have hzero := eq_zero_of_not_pos hlimit hlimited
    by_cases hskips : q.mOffset > 0
    · have hne : q.mOffset ≠ 0 := fun heq => absurd (heq ▸ hskips) (by decide)
      simp only [hlimited, hne, false_or]
      rw [hzero]
      exact selects_of_offset_iff hmeant hzero hskips
    · have hstart := eq_zero_of_not_pos hoffset hskips
      simp only [hlimited, hstart, true_or, or_true, iff_true]
      rw [pagingText, if_neg (not_or.mpr ⟨hlimited, hskips⟩), hzero]
      exact selects_nothing

end QueryWrapper

/-! ### Numbered pages -/

/-- Whether a blank stands for no clause makes no difference. -/
theorem answer_pageClause {R : Type} (repo : AutoRepository) (page pageSize : Int32) (rows : List R) :
    repo.mDialect.cls.answer (repo.pageClause page pageSize) rows =
      repo.mDialect.cls.answer
        (" " ++ repo.mDialect.buildLimitOffset pageSize ((page - 1) * pageSize)) rows := by
  unfold AutoRepository.pageClause
  dsimp only
  split
  · rename_i hempty
    rw [String.isEmpty_iff.mp hempty, DialectClass.answer, DialectClass.answer, lex_blank]
    simp
  · rfl

/-- The product of two counts fits into an `int` exactly if it does not wrap. -/
theorem toNat_mul_eq_iff {page pageSize : Int32} (hpage : 1 ≤ page) (hsize : 1 ≤ pageSize) :
    ((page - 1) * pageSize).toInt.toNat = ((page.toInt - 1) * pageSize.toInt).toNat ↔
      (page.toInt - 1) * pageSize.toInt < 2 ^ 31 := by
  have hpage' : 1 ≤ page.toInt := Int32.le_iff_toInt_le.mp hpage
  have hsize' : 1 ≤ pageSize.toInt := Int32.le_iff_toInt_le.mp hsize
  have hbound := Int32.toInt_lt page
  have hpred : (page - 1).toInt = page.toInt - 1 := by
    rw [Int32.toInt_sub]
    change (page.toInt - 1).bmod (2 ^ 32) = _
    rw [Int.bmod_eq_of_le (by omega) (by omega)]
  have hproduct : 0 ≤ (page.toInt - 1) * pageSize.toInt := Int.mul_nonneg (by omega) (by omega)
  rw [Int32.toInt_mul, hpred]
  generalize (page.toInt - 1) * pageSize.toInt = product at hproduct ⊢
  constructor
  · intro heq
    have hlt := Int.bmod_lt (x := product) (m := 2 ^ 32) (by decide)
    omega
  · intro hlt
    rw [Int.bmod_eq_of_le (by omega) (by omega)]

/-- The clause of a page selects it exactly if its offset fits into an `int`. -/
theorem selects_pageClause_iff (repo : AutoRepository) {page pageSize : Int32} (hpage : 1 ≤ page)
    (hsize : 1 ≤ pageSize) :
    Selects repo.mDialect.cls (repo.pageClause page pageSize) pageSize.toInt.toNat
        ((page.toInt - 1) * pageSize.toInt).toNat ↔
      (page.toInt - 1) * pageSize.toInt < 2 ^ 31 := by
  have hlimit : pageSize > 0 := Int32.lt_of_lt_of_le (by decide) hsize
  have hselects := selects_buildLimitOffset repo.mDialect ((page - 1) * pageSize) hlimit
  rw [← toNat_mul_eq_iff hpage hsize]
  constructor
  · intro hpageSelects
    by_contra hne
    obtain ⟨rows, hrows⟩ := exists_pageOf_ne (pos_toNat hlimit) hne
    have hanswer := hpageSelects Nat rows
    rw [answer_pageClause, hselects Nat rows] at hanswer
    exact hrows (Option.some.inj hanswer)
  · intro heq R rows
    rw [answer_pageClause, hselects R rows, heq]

/-- The pages of a size, from the first on, as far as their offsets fit. -/
theorem flatMap_answers {R : Type} (repo : AutoRepository) {pageSize : Int32} (hsize : 1 ≤ pageSize)
    (rows : List R) (count : Nat) (hcount : count < 2 ^ 31)
    (hfits : ((count : Int) - 1) * pageSize.toInt < 2 ^ 31) :
    (List.range count).flatMap (fun i =>
        (repo.mDialect.cls.answer (repo.pageClause (Int32.ofNat (i + 1)) pageSize) rows).getD []) =
      rows.take (count * pageSize.toInt.toNat) := by
  have hsize' : 1 ≤ pageSize.toInt := Int32.le_iff_toInt_le.mp hsize
  rw [← flatMap_pages]
  refine List.flatMap_congr ?_
  intro i hi
  rw [List.mem_range] at hi
  have hpage : (Int32.ofNat (i + 1)).toInt = i + 1 := Int32.toInt_ofNat_of_lt (by omega)
  have hfirst : 1 ≤ Int32.ofNat (i + 1) := by
    rw [Int32.le_iff_toInt_le, hpage]
    change (1 : Int) ≤ i + 1
    omega
  have hlt : ((Int32.ofNat (i + 1)).toInt - 1) * pageSize.toInt < 2 ^ 31 := by
    calc ((Int32.ofNat (i + 1)).toInt - 1) * pageSize.toInt
        = (i : Int) * pageSize.toInt := by rw [hpage, Int.add_sub_cancel]
      _ ≤ ((count : Int) - 1) * pageSize.toInt :=
          Int.mul_le_mul_of_nonneg_right (by omega) (by omega)
      _ < 2 ^ 31 := hfits
  rw [(selects_pageClause_iff repo hfirst hsize).mpr hlt R rows, Option.getD_some, pageOf,
    if_neg (by omega), hpage, Int.add_sub_cancel, Int.toNat_mul (by omega) (by omega)]
  rfl

/-- What the query builder appends selects the page exactly if there is a limit, or no offset, or the
system is PostgreSQL; the clause of a numbered page selects it exactly if the page's offset fits into an
`int`, and as far as that goes the pages are the rows, each once and in order. -/
theorem paging_selects_iff {T : Type} (q : QueryWrapper T) (engine : DialectClass)
    (repo : AutoRepository) (page pageSize : Int32) :
    (q.MeantFor engine → 0 ≤ q.mLimit → 0 ≤ q.mOffset →
      (∀ tableName, q.render (q.buildSelectSql tableName) =
        q.render (q.unpaged.buildSelectSql tableName) ++ q.pagingText) ∧
      (Selects engine q.pagingText q.mLimit.toInt.toNat q.mOffset.toInt.toNat ↔
        q.mLimit > 0 ∨ q.mOffset = 0 ∨ engine = .postgreSqlDialect)) ∧
    (1 ≤ page → 1 ≤ pageSize →
      (Selects repo.mDialect.cls (repo.pageClause page pageSize) pageSize.toInt.toNat
          ((page.toInt - 1) * pageSize.toInt).toNat ↔
        (page.toInt - 1) * pageSize.toInt < 2 ^ 31)) ∧
    (1 ≤ pageSize → ∀ count : Nat, count < 2 ^ 31 → ((count : Int) - 1) * pageSize.toInt < 2 ^ 31 →
      ∀ (R : Type) (rows : List R), (List.range count).flatMap (fun i =>
          (repo.mDialect.cls.answer (repo.pageClause (Int32.ofNat (i + 1)) pageSize) rows).getD []) =
        rows.take (count * pageSize.toInt.toNat)) := by
  refine ⟨?_, selects_pageClause_iff repo, ?_⟩
  · intro hmeant hlimit hoffset
    exact ⟨q.render_buildSelectSql_unpaged, QueryWrapper.selects_pagingText_iff hmeant hlimit hoffset⟩
  · intro hsize count hcount hfits R rows
    exact flatMap_answers repo hsize rows count hcount hfits

/-- A query that skips five rows and takes all others. -/
def skipFive (dialect : Option SqlDialect) : QueryWrapper Unit :=
  { mLimit := 0, mOffset := 5, mDialect := dialect }

/-- SQLite refuses the clause, MySQL is sent none, and page 50001 of 50000 rows each is the first one. -/
theorem pages_missed :
    ((skipFive (some { cls := .sqliteDialect })).pagingText = " OFFSET 5" ∧
      DialectClass.sqliteDialect.answer " OFFSET 5" [1, 2, 3, 4, 5, 6] = none) ∧
    ((skipFive (some { cls := .mySqlDialect })).pagingText = " " ∧
      DialectClass.mySqlDialect.answer " " [1, 2, 3, 4, 5, 6] = some [1, 2, 3, 4, 5, 6]) ∧
    (AutoRepository.pageClause ⟨"users", { cls := .sqliteDialect }⟩ 50001 50000 = " LIMIT 50000" ∧
      ¬ Selects .sqliteDialect " LIMIT 50000" 50000 2500000000) := by
  have hlimit : AutoRepository.pageClause ⟨"users", { cls := .sqliteDialect }⟩ 50001 50000 =
      " LIMIT 50000" := by decide
  refine ⟨⟨by decide, by decide +kernel⟩, ⟨by decide, by decide +kernel⟩, hlimit, ?_⟩
  rw [← hlimit]
  intro hselects
  have hfits := (@selects_pageClause_iff ⟨"users", { cls := .sqliteDialect }⟩ 50001 50000
    (by decide) (by decide)).mp hselects
  exact absurd hfits (by decide)

end SoulCoreKit.Orm
