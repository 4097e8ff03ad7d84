import SoulCoreKit.Lib.Occurrence
import Mathlib.Data.List.DropRight
import Mathlib.Data.List.TakeWhile

/-!
# HTTP/1.1 messages

Lines end with a CRLF, and an empty line ends the head. A reader of responses accepts well-formed names and
values only, so what it reads back as it was meant was well formed. How long the body is depends on the
status and on the framing fields.
-/

namespace SoulCoreKit.HttpMessage

def lineBreak : List UInt8 := [13, 10]

/-- The lines up to an empty one, and the bytes after it. `line` is what stands before the bytes in the
present line. -/
def readLines (line : List UInt8) : List UInt8 → Option (List (List UInt8) × List UInt8)
  | 13 :: 10 :: rest =>
      if line = [] then some ([], rest) else (readLines [] rest).map fun read => (line :: read.1, read.2)
  | byte :: rest => readLines (line ++ [byte]) rest
  | [] => none

theorem readLines_cons {byte : UInt8} {rest : List UInt8} (hbreak : ¬ lineBreak <+: byte :: rest)
    (line : List UInt8) : readLines line (byte :: rest) = readLines (line ++ [byte]) rest := by
  refine readLines.eq_2 line byte rest ?_
  rintro tail rfl rfl
  exact hbreak ⟨tail, rfl⟩

theorem firstIndex_lineBreak {line : List UInt8} (hline : ¬ lineBreak <:+: line) (rest : List UInt8) :
    Occurrence.firstIndex lineBreak (line ++ (lineBreak ++ rest)) = some line.length := by
  apply Occurrence.firstIndex_append_word
  have hlast : lineBreak.dropLast = [13] := rfl
  rw [hlast, List.infix_concat_iff, not_or]
  refine ⟨fun hsuffix => ?_, hline⟩
  have hsame := hsuffix.getLast (by decide)
  rw [List.getLast_concat] at hsame
  exact absurd hsame (by decide)

/-- The present line goes on to the first line break. -/
theorem readLines_append {text : List UInt8} (htext : ¬ lineBreak <:+: text) (line rest : List UInt8) :
    readLines line (text ++ (lineBreak ++ rest)) =
      if line ++ text = [] then some ([], rest)
      else (readLines [] rest).map fun read => ((line ++ text) :: read.1, read.2) := by
  induction text generalizing line with
  | nil =>
      rw [List.append_nil]
      exact readLines.eq_1 line rest
  | cons byte text ih =>
      have hfirst := firstIndex_lineBreak htext rest
      have hbreak := (Occurrence.firstIndex_eq_some_iff.mp hfirst).2 0 (by simp)
      rw [List.drop_zero, List.cons_append] at hbreak
      rw [List.cons_append, readLines_cons hbreak, ih fun hinfix => htext (List.infix_cons hinfix)]
      simp only [List.append_assoc, List.singleton_append]

/-! ### The block in front of the blank line -/

def blankLine : List UInt8 := [13, 10, 13, 10]

/-- A first line and more lines behind it. -/
def block (line : List UInt8) (others : List (List UInt8)) : List UInt8 :=
  line ++ others.flatMap (lineBreak ++ ·)

/-- A line of a head: not empty, and no line break in it. -/
def IsLine (line : List UInt8) : Prop := line ≠ [] ∧ ¬ lineBreak <:+: line

theorem block_cons (line next : List UInt8) (others : List (List UInt8)) :
    block line (next :: others) = line ++ (lineBreak ++ block next others) := by
  rw [block, block, List.flatMap_cons, List.append_assoc]

theorem lineBreak_of_blankLine {bytes : List UInt8} (hblank : blankLine <+: bytes) :
    lineBreak <+: bytes :=
  List.IsPrefix.trans ⟨[13, 10], rfl⟩ hblank

theorem not_lineBreak_of_isLine {line : List UInt8} (hline : IsLine line) (rest : List UInt8) :
    ¬ lineBreak <+: line ++ (lineBreak ++ rest) := by
  have hfirst := firstIndex_lineBreak hline.2 rest
  exact (Occurrence.firstIndex_eq_some_iff.mp hfirst).2 0 (List.length_pos_iff.mpr hline.1)

theorem firstIndex_blankLine_cons {byte : UInt8} {rest : List UInt8}
    (hbreak : ¬ lineBreak <+: byte :: rest) :
    Occurrence.firstIndex blankLine (byte :: rest) =
      (Occurrence.firstIndex blankLine rest).map (· + 1) := by
  rw [Occurrence.firstIndex, if_neg]
  rw [List.isPrefixOf_iff_prefix]
  exact fun hblank => hbreak (lineBreak_of_blankLine hblank)

/-- A line that is followed by another one parts the search for the blank line. -/
theorem firstIndex_blankLine_append {line rest : List UInt8} (hline : ¬ lineBreak <:+: line)
    (hrest : ¬ lineBreak <+: rest) :
    Occurrence.firstIndex blankLine (line ++ (lineBreak ++ rest)) =
      (Occurrence.firstIndex blankLine rest).map (· + (line.length + 2)) := by
  induction line with
  | nil =>
      have hnot : ¬ blankLine <+: 13 :: 10 :: rest := by
        rintro ⟨tail, htail⟩
        exact hrest ⟨tail, by simpa [blankLine, lineBreak] using htail⟩
      have hinner : ¬ lineBreak <+: 10 :: rest := by simp [lineBreak]
      show Occurrence.firstIndex blankLine (13 :: 10 :: rest) = _
      rw [Occurrence.firstIndex, if_neg (by rwa [List.isPrefixOf_iff_prefix]),
        firstIndex_blankLine_cons hinner, Option.map_map]
      rfl
  | cons byte line ih =>
      have hfirst := firstIndex_lineBreak hline rest
      have hbreak := (Occurrence.firstIndex_eq_some_iff.mp hfirst).2 0 (by simp)
      rw [List.drop_zero, List.cons_append] at hbreak
      rw [List.cons_append, firstIndex_blankLine_cons hbreak,
        ih fun hinfix => hline (List.infix_cons hinfix), Option.map_map]
      rfl

theorem firstIndex_blankLine_end {line : List UInt8} (hline : ¬ lineBreak <:+: line)
    (rest : List UInt8) :
    Occurrence.firstIndex blankLine (line ++ (blankLine ++ rest)) = some line.length := by
  induction line with
  | nil => rfl
  | cons byte line ih =>
      have hfirst := firstIndex_lineBreak hline (lineBreak ++ rest)
      have hbreak := (Occurrence.firstIndex_eq_some_iff.mp hfirst).2 0 (by simp)
      have hbreak : ¬ lineBreak <+: byte :: (line ++ (blankLine ++ rest)) := hbreak
      rw [List.cons_append, firstIndex_blankLine_cons hbreak,
        ih fun hinfix => hline (List.infix_cons hinfix)]
      rfl

/-- The first blank line is the one behind the block. -/
theorem firstIndex_blankLine_block {line : List UInt8} {others : List (List UInt8)}
    (hline : ¬ lineBreak <:+: line) (hothers : ∀ other ∈ others, IsLine other) (rest : List UInt8) :
    Occurrence.firstIndex blankLine (block line others ++ (blankLine ++ rest)) =
      some (block line others).length := by
  induction others generalizing line with
  | nil =>
      rw [block, List.flatMap_nil, List.append_nil]
      exact firstIndex_blankLine_end hline rest
  | cons next others ih =>
      obtain ⟨hnext, hothers⟩ := List.forall_mem_cons.mp hothers
      have hbreak : ¬ lineBreak <+: block next others ++ (blankLine ++ rest) := by
        cases others with
        | nil => simpa [block, blankLine, lineBreak] using not_lineBreak_of_isLine hnext (lineBreak ++ rest)
        | cons other others =>
            rw [block_cons, List.append_assoc, List.append_assoc]
            exact not_lineBreak_of_isLine hnext _
      rw [block_cons, List.append_assoc, List.append_assoc, firstIndex_blankLine_append hline hbreak,
        ih hnext.2 hothers, Option.map_some, List.length_append, List.length_append]
      congr 1
      have htwo : lineBreak.length = 2 := rfl
      omega

/-- A text with a line break is its first line and what follows it. -/
theorem exists_firstLine {text : List UInt8} (htext : lineBreak <:+: text) :
    ∃ line tail, text = line ++ (lineBreak ++ tail) ∧ ¬ lineBreak <:+: line := by
  obtain ⟨i, hi⟩ := Option.ne_none_iff_exists'.mp fun hnone =>
    Occurrence.firstIndex_eq_none_iff.mp hnone htext
  obtain ⟨⟨tail, htail⟩, -⟩ := Occurrence.firstIndex_eq_some_iff.mp hi
  have hsplit : text = text.take i ++ (lineBreak ++ tail) := by
    rw [htail, List.take_append_drop]
  refine ⟨text.take i, tail, hsplit, fun hinfix => ?_⟩
  obtain ⟨j, hj⟩ := Option.ne_none_iff_exists'.mp fun hnone =>
    Occurrence.firstIndex_eq_none_iff.mp hnone hinfix
  have hsame := Occurrence.firstIndex_append hj (lineBreak ++ tail)
  rw [← hsplit, hi, Option.some_inj] at hsame
  have hle := Occurrence.firstIndex_add_length_le hj
  have htwo : lineBreak.length = 2 := rfl
  have hlength := List.length_take_le i text
  omega

/-- What stands in front of the first blank line is a block of lines. -/
theorem exists_block {text rest : List UInt8}
    (hfirst : Occurrence.firstIndex blankLine (text ++ (blankLine ++ rest)) = some text.length) :
    ∃ line others, text = block line others ∧ ¬ lineBreak <:+: line ∧ ∀ other ∈ others, IsLine other := by
  induction hlength : text.length using Nat.strong_induction_on generalizing text with
  | _ length ih =>
  by_cases hbreak : lineBreak <:+: text
  · obtain ⟨line, tail, rfl, hline⟩ := exists_firstLine hbreak
    have htwo : lineBreak.length = 2 := rfl
    rw [List.length_append, List.length_append] at hlength
    have hafter : ¬ lineBreak <+: tail ++ (blankLine ++ rest) := by
      rintro ⟨others, hothers⟩
      refine (Occurrence.firstIndex_eq_some_iff.mp hfirst).2 line.length (by simp [lineBreak]) ?_
      rw [List.append_assoc, List.drop_left, List.append_assoc, ← hothers]
      exact ⟨others, rfl⟩
    rw [List.append_assoc, List.append_assoc, firstIndex_blankLine_append hline hafter,
      Option.map_eq_some_iff] at hfirst
    obtain ⟨j, hj, hsum⟩ := hfirst
    rw [List.length_append, List.length_append] at hsum
    have hrest : Occurrence.firstIndex blankLine (tail ++ (blankLine ++ rest)) = some tail.length := by
      rw [hj, Option.some_inj]
      omega
    obtain ⟨next, others, rfl, hnext, hothers⟩ := ih tail.length (by omega) hrest rfl
    refine ⟨line, next :: others, (block_cons line next others).symm, hline, ?_⟩
    refine List.forall_mem_cons.mpr ⟨⟨?_, hnext⟩, hothers⟩
    rintro rfl
    apply hafter
    cases others with
    | nil => exact ⟨lineBreak ++ rest, rfl⟩
    | cons other others =>
        rw [block_cons, List.nil_append, List.append_assoc]
        exact List.prefix_append lineBreak _
  · refine ⟨text, [], ?_, hbreak, by simp⟩
    rw [block, List.flatMap_nil, List.append_nil]

/-- Bytes with a blank line start with a block of lines. -/
theorem exists_head {bytes : List UInt8} (hblank : blankLine <:+: bytes) :
    ∃ line others rest, bytes = block line others ++ (blankLine ++ rest) ∧ ¬ lineBreak <:+: line ∧
      ∀ other ∈ others, IsLine other := by
  obtain ⟨i, hi⟩ := Option.ne_none_iff_exists'.mp fun hnone =>
    Occurrence.firstIndex_eq_none_iff.mp hnone hblank
  obtain ⟨⟨rest, hrest⟩, -⟩ := Occurrence.firstIndex_eq_some_iff.mp hi
  have hle := Occurrence.firstIndex_add_length_le hi
  have hsplit : bytes.take i ++ (blankLine ++ rest) = bytes := by
    rw [hrest, List.take_append_drop]
  have hlength : (bytes.take i).length = i := List.length_take_of_le (by omega)
  have hfirst : Occurrence.firstIndex blankLine (bytes.take i ++ (blankLine ++ rest)) =
      some (bytes.take i).length := by
    rw [hsplit, hlength]
    exact hi
  obtain ⟨line, others, htext, hlines⟩ := exists_block hfirst
  exact ⟨line, others, rest, by rw [← htext, hsplit], hlines⟩

/-! ### Reading a block -/

theorem readLines_block {line : List UInt8} {others : List (List UInt8)} (hline : IsLine line)
    (hothers : ∀ other ∈ others, IsLine other) (rest : List UInt8) :
    readLines [] (block line others ++ (blankLine ++ rest)) = some (line :: others, rest) := by
  have hempty : readLines [] (lineBreak ++ rest) = some ([], rest) := by
    have hnone : ¬ lineBreak <:+: [] := by simp [lineBreak]
    have happend := readLines_append hnone [] rest
    simpa using happend
  induction others generalizing line with
  | nil =>
      have hblank : blankLine ++ rest = lineBreak ++ (lineBreak ++ rest) := rfl
      rw [block, List.flatMap_nil, List.append_nil, hblank, readLines_append hline.2,
        List.nil_append, if_neg hline.1, hempty]
      rfl
  | cons next others ih =>
      obtain ⟨hnext, hothers⟩ := List.forall_mem_cons.mp hothers
      rw [block_cons, List.append_assoc, List.append_assoc, readLines_append hline.2,
        List.nil_append, if_neg hline.1, ih hnext hothers]
      rfl

theorem lineBreak_of_readLines {line bytes rest : List UInt8}
    (hread : readLines line bytes = some ([], rest)) : line = [] ∧ lineBreak <+: bytes := by
  fun_induction readLines line bytes with
  | case1 tail => exact ⟨rfl, tail, rfl⟩
  | case2 line tail hline ih =>
      obtain ⟨read, -, hread⟩ := Option.map_eq_some_iff.mp hread
      exact absurd hread (by simp)
  | case3 line byte tail hbreak ih => exact absurd (ih hread).1 (by simp)
  | case4 line => contradiction

/-- Lines are only read in front of a blank line. -/
theorem blankLine_of_readLines {line bytes rest first : List UInt8} {others : List (List UInt8)}
    (hread : readLines line bytes = some (first :: others, rest)) : blankLine <:+: bytes := by
  fun_induction readLines line bytes generalizing first others with
  | case1 tail => exact absurd hread (by simp)
  | case2 line tail hline ih =>
      obtain ⟨⟨lines, after⟩, htail, heq⟩ := Option.map_eq_some_iff.mp hread
      obtain ⟨-, rfl⟩ := Prod.mk.inj heq
      have hsuffix : tail <:+: 13 :: 10 :: tail := (List.suffix_append [13, 10] tail).isInfix
      cases lines with
      | nil =>
          obtain ⟨-, more, rfl⟩ := lineBreak_of_readLines htail
          exact ⟨[], more, rfl⟩
      | cons next lines => exact (ih htail).trans hsuffix
  | case3 line byte tail hbreak ih => exact List.infix_cons (ih hread)
  | case4 line => contradiction

/-! ### Fields -/

/-- The bytes of a field name. -/
def isNameByte (byte : UInt8) : Bool :=
  (48 ≤ byte && byte ≤ 57) || (65 ≤ byte && byte ≤ 90) || (97 ≤ byte && byte ≤ 122) ||
    [33, 35, 36, 37, 38, 39, 42, 43, 45, 46, 94, 95, 96, 124, 126].contains byte

/-- The bytes of a field value: no control characters but tabs. -/
def isValueByte (byte : UInt8) : Bool := byte = 9 || (32 ≤ byte && byte ≠ 127)

def isBlank (byte : UInt8) : Bool := byte = 9 || byte = 32

def IsName (name : List UInt8) : Prop := name ≠ [] ∧ name.all isNameByte = true

/-- White space around a value is not part of it. -/
def IsValue (value : List UInt8) : Prop :=
  value.all isValueByte = true ∧ value.dropWhile isBlank = value ∧ value.rdropWhile isBlank = value

instance (name : List UInt8) : Decidable (IsName name) := inferInstanceAs (Decidable (_ ∧ _))

instance (value : List UInt8) : Decidable (IsValue value) := inferInstanceAs (Decidable (_ ∧ _))

def trim (text : List UInt8) : List UInt8 := (text.dropWhile isBlank).rdropWhile isBlank

/-- A name, a colon and a value. -/
def readField (line : List UInt8) : Option (List UInt8 × List UInt8) :=
  match line.dropWhile (· ≠ 58) with
  | [] => none
  | _ :: text =>
      if IsName (line.takeWhile (· ≠ 58)) ∧ IsValue (trim text) then
        some (line.takeWhile (· ≠ 58), trim text)
      else none

def fieldLine (field : List UInt8 × List UInt8) : List UInt8 := field.1 ++ 58 :: 32 :: field.2

theorem isName_of_readField {line : List UInt8} {field : List UInt8 × List UInt8}
    (hread : readField line = some field) : IsName field.1 ∧ IsValue field.2 := by
  unfold readField at hread
  split at hread
  · contradiction
  · split at hread
    · rename_i hvalid
      rw [← Option.some_inj.mp hread]
      exact hvalid
    · contradiction

theorem readField_fieldLine {field : List UInt8 × List UInt8} (hname : IsName field.1)
    (hvalue : IsValue field.2) : readField (fieldLine field) = some field := by
  obtain ⟨name, value⟩ := field
  have hcolon : ∀ byte ∈ name, decide (byte ≠ 58) = true := by
    intro byte hbyte
    have hbyte := List.all_eq_true.mp hname.2 byte hbyte
    rw [decide_eq_true_iff]
    rintro rfl
    exact absurd hbyte (by decide)
  have htake : (fieldLine (name, value)).takeWhile (· ≠ 58) = name := by
    rw [fieldLine, List.takeWhile_append_of_pos hcolon]
    simp
  have hdrop : (fieldLine (name, value)).dropWhile (· ≠ 58) = 58 :: 32 :: value := by
    rw [fieldLine, List.dropWhile_append_of_pos hcolon]
    simp
  have htrim : trim (32 :: value) = value := by
    rw [trim, List.dropWhile_cons_of_pos (by decide), hvalue.2.1, hvalue.2.2]
  rw [readField, hdrop]
  simp only [htake, htrim]
  rw [if_pos ⟨hname, hvalue⟩]

theorem isLine_of_isValueByte {line : List UInt8} (hne : line ≠ []) (hline : line.all isValueByte = true) :
    IsLine line := by
  refine ⟨hne, fun hinfix => ?_⟩
  have hbreak : (10 : UInt8) ∈ line := hinfix.subset (by decide)
  exact absurd (List.all_eq_true.mp hline 10 hbreak) (by decide)

theorem isValueByte_of_isNameByte {byte : UInt8} (hbyte : isNameByte byte = true) :
    isValueByte byte = true := by
  have hall : ∀ n < 256, isNameByte (UInt8.ofNat n) = true → isValueByte (UInt8.ofNat n) = true := by
    decide +kernel
  have hsame : UInt8.ofNat byte.toNat = byte := UInt8.ofNat_toNat
  rw [← hsame] at hbyte ⊢
  exact hall byte.toNat byte.toNat_lt hbyte

theorem isLine_fieldLine {field : List UInt8 × List UInt8} (hname : IsName field.1)
    (hvalue : IsValue field.2) : IsLine (fieldLine field) := by
  refine isLine_of_isValueByte (by simp [fieldLine]) ?_
  have hnameBytes : field.1.all isValueByte = true := by
    rw [List.all_eq_true]
    exact fun byte hbyte => isValueByte_of_isNameByte (List.all_eq_true.mp hname.2 byte hbyte)
  rw [fieldLine, List.all_append, hnameBytes, List.all_cons, List.all_cons, hvalue.1]
  rfl

/-! ### Responses -/

structure Response where
  status : Nat
  fields : List (List UInt8 × List UInt8)
  body : List UInt8

/-- The number that a decimal text stands for. -/
def readDecimal (text : List UInt8) : Option Nat :=
  let digits := text.map fun byte => Char.ofNat byte.toNat
  if digits ≠ [] ∧ digits.all Char.isDigit = true then some (Nat.ofDigitChars 10 digits 0) else none

def decimal (n : Nat) : List UInt8 := (Nat.toDigits 10 n).map fun c => UInt8.ofNat c.toNat

/-- `HTTP/1.1 `. -/
def version : List UInt8 := [72, 84, 84, 80, 47, 49, 46, 49, 32]

/-- The version, three digits and a reason. -/
def readStatus (line : List UInt8) : Option Nat :=
  let code := (line.drop 9).takeWhile (· ≠ 32)
  if version <+: line ∧ code.length = 3 ∧ ((line.drop 9).drop 3).head? = some 32 then readDecimal code
  else none

def lower (byte : UInt8) : UInt8 := if 65 ≤ byte ∧ byte ≤ 90 then byte + 32 else byte

theorem lower_of_not_ascii {byte : UInt8} (hbyte : 128 ≤ byte.toNat) : lower byte = byte := by
  rw [lower, if_neg]
  rw [UInt8.le_iff_toNat_le, UInt8.le_iff_toNat_le]
  rintro ⟨-, hle⟩
  have hle : byte.toNat ≤ 90 := hle
  omega

/-- The values of the fields with a name, in whatever case it is written. -/
def valuesOf (name : List UInt8) (fields : List (List UInt8 × List UInt8)) : List (List UInt8) :=
  (fields.filter fun field => field.1.map lower = name).map (·.2)

/-- `content-length`. -/
def contentLength : List UInt8 := [99, 111, 110, 116, 101, 110, 116, 45, 108, 101, 110, 103, 116, 104]

/-- `transfer-encoding`. -/
def transferEncoding : List UInt8 :=
  [116, 114, 97, 110, 115, 102, 101, 114, 45, 101, 110, 99, 111, 100, 105, 110, 103]

/-- Whether responses of a status have a body at all. -/
def hasContent (status : Nat) : Bool := 200 ≤ status && status ≠ 204 && status ≠ 304

theorem valuesOf_append (name : List UInt8) (fields others : List (List UInt8 × List UInt8)) :
    valuesOf name (fields ++ others) = valuesOf name fields ++ valuesOf name others := by
  rw [valuesOf, List.filter_append, List.map_append]
  rfl

theorem valuesOf_singleton (name : List UInt8) (field : List UInt8 × List UInt8) :
    valuesOf name [field] = if field.1.map lower = name then [field.2] else [] := by
  by_cases hname : field.1.map lower = name
  · simp [valuesOf, hname]
  · simp [valuesOf, hname]

/-- How many of the bytes that follow the head belong to the body. Transfer codings are not decoded: next to a
content length they are an error. -/
def bodyLength (status : Nat) (fields : List (List UInt8 × List UInt8)) (available : Nat) : Option Nat :=
  if hasContent status = false then some 0
  else if valuesOf transferEncoding fields ≠ [] then none
  else
    match valuesOf contentLength fields with
    | [] => some available
    | value :: others => if others.all (· = value) then readDecimal value else none

/-- The first response in the bytes, and the bytes behind it. -/
def readResponse (bytes : List UInt8) : Option (Response × List UInt8) :=
  match readLines [] bytes with
  | some (statusLine :: fieldLines, rest) =>
      (readStatus statusLine).bind fun status =>
        (fieldLines.mapM readField).bind fun fields =>
          (bodyLength status fields rest.length).bind fun length =>
            if length ≤ rest.length then some (⟨status, fields, rest.take length⟩, rest.drop length)
            else none
  | _ => none

theorem bodyLength_of_content {status : Nat} {fields : List (List UInt8 × List UInt8)} {available : Nat}
    (hcontent : hasContent status = true) (hcoding : valuesOf transferEncoding fields = [])
    {value : List UInt8} (hvalue : valuesOf contentLength fields = [value]) :
    bodyLength status fields available = readDecimal value := by
  rw [bodyLength, if_neg (by simp [hcontent]), if_neg (not_not.mpr hcoding), hvalue]
  rfl

theorem readDecimal_decimal (n : Nat) : readDecimal (decimal n) = some n := by
  have hdigit : ∀ c ∈ Nat.toDigits 10 n, c.isDigit = true := fun c hc =>
    Nat.isDigit_of_mem_toDigits (by decide) (by decide) hc
  have hsame : (decimal n).map (fun byte => Char.ofNat byte.toNat) = Nat.toDigits 10 n := by
    rw [decimal, List.map_map]
    conv_rhs => rw [← List.map_id (Nat.toDigits 10 n)]
    apply List.map_congr_left
    intro c hc
    have hhigh : c.toNat ≤ 57 := by
      have hc := hdigit c hc
      rw [Char.isDigit, Bool.and_eq_true, decide_eq_true_eq, decide_eq_true_eq] at hc
      exact hc.2
    have htoNat : (UInt8.ofNat c.toNat).toNat = c.toNat := by simp; omega
    rw [Function.comp_apply, htoNat, Char.ofNat_toNat, id]
  rw [readDecimal]
  simp only [hsame]
  rw [if_pos ⟨Nat.toDigits_ne_nil, List.all_eq_true.mpr hdigit⟩, Nat.ofDigitChars_ten_toDigits]

theorem length_decimal {n : Nat} (hlow : 100 ≤ n) (hhigh : n ≤ 999) : (decimal n).length = 3 := by
  rw [decimal, List.length_map, Nat.toDigits_of_base_le (by decide) (by omega),
    Nat.toDigits_of_base_le (by decide) (by omega), Nat.toDigits_of_lt_base (by omega)]
  rfl

theorem decimal_isDigit {n : Nat} {byte : UInt8} (hbyte : byte ∈ decimal n) :
    48 ≤ byte.toNat ∧ byte.toNat ≤ 57 := by
  obtain ⟨c, hc, rfl⟩ := List.mem_map.mp hbyte
  have hc := Nat.isDigit_of_mem_toDigits (by decide) (by decide) hc
  rw [Char.isDigit, Bool.and_eq_true, decide_eq_true_eq, decide_eq_true_eq] at hc
  have hlow : 48 ≤ c.toNat := hc.1
  have hhigh : c.toNat ≤ 57 := hc.2
  have htoNat : (UInt8.ofNat c.toNat).toNat = c.toNat := by simp; omega
  omega

theorem isValue_of_digits {text : List UInt8}
    (htext : ∀ byte ∈ text, 48 ≤ byte.toNat ∧ byte.toNat ≤ 57) : IsValue text := by
  have hblank : ∀ byte ∈ text, ¬ isBlank byte = true := by
    intro byte hbyte hblank
    have hlow := (htext byte hbyte).1
    rw [isBlank, Bool.or_eq_true, decide_eq_true_iff, decide_eq_true_iff] at hblank
    obtain rfl | rfl := hblank
    · exact absurd hlow (by decide)
    · exact absurd hlow (by decide)
  refine ⟨?_, ?_, ?_⟩
  · rw [List.all_eq_true]
    intro byte hbyte
    obtain ⟨hlow, hhigh⟩ := htext byte hbyte
    exact isValueByte_of_isNameByte (by simp [isNameByte, UInt8.le_iff_toNat_le, hlow, hhigh])
  · rw [List.dropWhile_eq_self_iff]
    exact fun hpos => hblank _ (List.getElem_mem hpos)
  · rw [List.rdropWhile_eq_self_iff]
    exact fun hne => hblank _ (List.getLast_mem hne)

theorem readStatus_line {status : Nat} (hlow : 100 ≤ status) (hhigh : status ≤ 999) (reason : List UInt8) :
    readStatus (version ++ (decimal status ++ 32 :: reason)) = some status := by
  have hdrop : (version ++ (decimal status ++ 32 :: reason)).drop 9 = decimal status ++ 32 :: reason :=
    List.drop_left' rfl
  have hlength := length_decimal hlow hhigh
  have hcode : ((decimal status ++ 32 :: reason)).takeWhile (· ≠ 32) = decimal status := by
    rw [List.takeWhile_append_of_pos]
    · simp
    · intro byte hbyte
      have hbounds := decimal_isDigit hbyte
      rw [decide_eq_true_iff]
      rintro rfl
      exact absurd hbounds.1 (by decide)
  have hspace : ((decimal status ++ 32 :: reason).drop 3).head? = some 32 := by
    rw [List.drop_left' hlength]
    rfl
  rw [readStatus]
  simp only [hdrop, hcode, hspace]
  rw [if_pos ⟨List.prefix_append version _, hlength, trivial⟩, readDecimal_decimal]

theorem mapM_readField {fields : List (List UInt8 × List UInt8)}
    (hfields : ∀ field ∈ fields, IsName field.1 ∧ IsValue field.2) :
    (fields.map fieldLine).mapM readField = some fields := by
  induction fields with
  | nil => rfl
  | cons field fields ih =>
      obtain ⟨hfield, hfields⟩ := List.forall_mem_cons.mp hfields
      rw [List.map_cons, List.mapM_cons, readField_fieldLine hfield.1 hfield.2, ih hfields]
      rfl

theorem isName_of_mapM {lines : List (List UInt8)} {fields : List (List UInt8 × List UInt8)}
    (hread : lines.mapM readField = some fields) :
    ∀ field ∈ fields, IsName field.1 ∧ IsValue field.2 := by
  induction lines generalizing fields with
  | nil =>
      rw [List.mapM_nil] at hread
      obtain rfl := Option.some_inj.mp hread
      simp
  | cons line lines ih =>
      rw [List.mapM_cons] at hread
      obtain ⟨field, hfield, hread⟩ := Option.bind_eq_some_iff.mp hread
      obtain ⟨rest, hrest, hread⟩ := Option.bind_eq_some_iff.mp hread
      obtain rfl := Option.some_inj.mp hread
      exact List.forall_mem_cons.mpr ⟨isName_of_readField hfield, ih hrest⟩

/-- A head of a status line and well-formed fields is read back; how the body is framed is left open. -/
theorem readResponse_head {status : Nat} (hlow : 100 ≤ status) (hhigh : status ≤ 999) {reason : List UInt8}
    (hreason : reason.all isValueByte = true) {fields : List (List UInt8 × List UInt8)}
    (hfields : ∀ field ∈ fields, IsName field.1 ∧ IsValue field.2) (body : List UInt8) :
    readResponse (block (version ++ (decimal status ++ 32 :: reason)) (fields.map fieldLine) ++
      (blankLine ++ body)) =
      (bodyLength status fields body.length).bind fun length =>
        if length ≤ body.length then some (⟨status, fields, body.take length⟩, body.drop length)
        else none := by
  have hline : IsLine (version ++ (decimal status ++ 32 :: reason)) := by
    refine isLine_of_isValueByte (by simp [version]) ?_
    have hcode : (decimal status).all isValueByte = true :=
      (isValue_of_digits fun byte hbyte => decimal_isDigit hbyte).1
    rw [List.all_append, List.all_append, List.all_cons, hcode, hreason]
    rfl
  have hlines : ∀ line ∈ fields.map fieldLine, IsLine line := by
    intro line hmem
    obtain ⟨field, hfield, rfl⟩ := List.mem_map.mp hmem
    exact isLine_fieldLine (hfields field hfield).1 (hfields field hfield).2
  rw [readResponse, readLines_block hline hlines]
  simp only [readStatus_line hlow hhigh, mapM_readField hfields, Option.bind_some]

/-- What is read back is well formed. -/
theorem isName_of_readResponse {bytes rest : List UInt8} {response : Response}
    (hread : readResponse bytes = some (response, rest)) :
    ∀ field ∈ response.fields, IsName field.1 ∧ IsValue field.2 := by
  unfold readResponse at hread
  split at hread
  · rename_i statusLine fieldLines after hlines
    obtain ⟨status, -, hread⟩ := Option.bind_eq_some_iff.mp hread
    obtain ⟨fields, hfields, hread⟩ := Option.bind_eq_some_iff.mp hread
    obtain ⟨length, -, hread⟩ := Option.bind_eq_some_iff.mp hread
    split at hread
    · obtain ⟨rfl, -⟩ := Prod.mk.inj (Option.some_inj.mp hread)
      exact isName_of_mapM hfields
    · contradiction
  · contradiction

end SoulCoreKit.HttpMessage
