import SoulCoreKit.Proof.Completable
import SoulCoreKit.Server.HttpServer

/-!
# Responses that are read back

Names and values are copied as they are. A reader gets back what a handler has set exactly where the names
and the values are well formed, no two names say how long the body is, and what they say is right.
-/

namespace SoulCoreKit.Server

open HttpMessage Unicode

/-! ### Names in bytes -/

def byteOf (c : Char) : UInt8 := UInt8.ofNat c.toNat

theorem lower_byteOf {c : Char} (hc : c.toNat < 128) : lower (byteOf c) = byteOf c.toLower := by
  have hall : ∀ n < 128, lower (byteOf (Char.ofNat n)) = byteOf (Char.ofNat n).toLower := by
    decide +kernel
  have hsame := hall c.toNat hc
  rwa [Char.ofNat_toNat] at hsame

theorem toLower_of_not_ascii {c : Char} (hc : 128 ≤ c.toNat) : c.toLower = c := by
  unfold Char.toLower
  rw [dif_neg]
  rintro ⟨-, hle⟩
  have hle : c.toNat ≤ 90 := hle
  omega

theorem toLower_of_ascii {c : Char} (hc : c.toNat < 128) : c.toLower.toNat < 128 := by
  have hall : ∀ n < 128, (Char.ofNat n).toLower.toNat < 128 := by decide +kernel
  have hsame := hall c.toNat hc
  rwa [Char.ofNat_toNat] at hsame

theorem byteOf_inj {c d : Char} (hc : c.toNat < 128) (hd : d.toNat < 128) :
    byteOf c = byteOf d ↔ c = d := by
  constructor
  · intro heq
    have htoNat := congrArg UInt8.toNat heq
    have hsame : c.toNat = d.toNat := by
      simp only [byteOf, UInt8.toNat_ofNat'] at htoNat
      omega
    rw [← Char.ofNat_toNat c, hsame, Char.ofNat_toNat]
  · rintro rfl
    rfl

/-- Names are the same in bytes exactly if they are in characters. -/
theorem map_lower_utf8_iff (key : List Char) {literal : List Char}
    (hliteral : literal.all (fun c => c.toNat < 128) = true) :
    (utf8 key).map lower = literal.map byteOf ↔ key.map Char.toLower = literal := by
  simp only [List.all_eq_true, decide_eq_true_eq] at hliteral
  induction key generalizing literal with
  | nil => simp [utf8, eq_comm]
  | cons c key ih =>
      rw [utf8, List.flatMap_cons, List.map_append, List.map_cons]
      by_cases hc : c.toNat < 128
      · have hbyte : String.utf8EncodeChar c = [byteOf c] := utf8EncodeChar_of_ascii hc
        rw [hbyte, List.map_singleton, List.singleton_append, lower_byteOf hc]
        cases literal with
        | nil => simp
        | cons d literal =>
            obtain ⟨hd, hliteral⟩ := List.forall_mem_cons.mp hliteral
            rw [List.map_cons, List.cons.injEq, List.cons.injEq, byteOf_inj (toLower_of_ascii hc) hd]
            exact and_congr_right fun _ => ih hliteral
      · obtain ⟨byte, rest, hbytes, hbyte⟩ := utf8EncodeChar_of_not_ascii (Nat.le_of_not_lt hc)
        rw [hbytes, toLower_of_not_ascii (Nat.le_of_not_lt hc)]
        refine iff_of_false ?_ ?_
        · cases literal with
          | nil => simp
          | cons d literal =>
              intro heq
              have hfirst := (List.cons_eq_cons.mp heq).1
              have hd := hliteral d List.mem_cons_self
              rw [lower_of_not_ascii hbyte] at hfirst
              simp only [hfirst, byteOf, UInt8.toNat_ofNat'] at hbyte
              omega
        · rintro rfl
          exact hc (hliteral c List.mem_cons_self)

theorem sameName_contentLength (key : String) :
    sameName key "Content-Length" = true ↔ (toUtf8 key).map lower = contentLength := by
  have hbytes : contentLength = "content-length".toList.map byteOf := by decide
  have hascii : "content-length".toList.all (fun c => c.toNat < 128) = true := by decide
  rw [toUtf8, hbytes, map_lower_utf8_iff _ hascii, sameName, decide_eq_true_iff]
  rfl

theorem sameName_transferEncoding (key : String) :
    sameName key "Transfer-Encoding" = true ↔ (toUtf8 key).map lower = transferEncoding := by
  have hbytes : transferEncoding = "transfer-encoding".toList.map byteOf := by decide
  have hascii : "transfer-encoding".toList.all (fun c => c.toNat < 128) = true := by decide
  rw [toUtf8, hbytes, map_lower_utf8_iff _ hascii, sameName, decide_eq_true_iff]
  rfl

/-! ### What is written -/

theorem mem_mapEntries {m : UnorderedMap String String} {entry : String × String} :
    entry ∈ mapEntries m ↔ m.lookup entry.1 = some entry.2 := by
  obtain ⟨key, value⟩ := entry
  rw [mapEntries, List.mem_filterMap]
  constructor
  · rintro ⟨other, -, hother⟩
    obtain ⟨found, hfound, heq⟩ := Option.map_eq_some_iff.mp hother
    obtain ⟨rfl, rfl⟩ := Prod.mk.inj heq
    exact hfound
  · intro hlookup
    refine ⟨key, ?_, by rw [hlookup]; rfl⟩
    rw [Finset.mem_sort, Finmap.mem_keys]
    exact Finmap.mem_of_lookup_eq_some hlookup

theorem nodup_mapEntries (m : UnorderedMap String String) : ((mapEntries m).map Prod.fst).Nodup := by
  have hsub (keys : List String) :
      ((keys.filterMap fun key => (m.lookup key).map fun value => (key, value)).map Prod.fst).Sublist
        keys := by
    induction keys with
    | nil => exact List.Sublist.slnil
    | cons key keys ih =>
        cases hlookup : m.lookup key with
        | none => simpa [hlookup] using ih.cons key
        | some value => simpa [hlookup] using ih
  exact (hsub _).nodup (Finset.sort_nodup m.keys KeyLe)

/-- A header in bytes. -/
def headerBytes (header : String × String) : Bytes × Bytes := (toUtf8 header.1, toUtf8 header.2)

namespace HttpResponse

variable (r : HttpResponse)

/-- The headers with a name, in whatever case it is written. -/
def named (literal : String) : List (String × String) :=
  (mapEntries r.mHeaders).filter fun header => sameName header.1 literal

/-- The fields a reader has to find: those that are set, and the two that are added where they are not. -/
def expectedFields : List (Bytes × Bytes) :=
  (mapEntries r.mHeaders).map headerBytes ++
    ((if r.named "Content-Length" = [] then [(ascii "Content-Length", number r.mBody.length)] else []) ++
      (if r.named "Connection" = [] then [(ascii "Connection", ascii "close")] else []))

theorem appendHeaders_eq (headers : List (String × String)) (buf : Bytes) :
    appendHeaders headers buf =
      (buf ++ headers.flatMap fun it => fieldLine (headerBytes it) ++ crlf,
        headers.any fun it => sameName it.1 "Content-Length") := by
  have hfold (found : Bool) : headers.foldl (fun acc it =>
      (acc.1 ++ toUtf8 it.1 ++ ascii ": " ++ toUtf8 it.2 ++ crlf,
        acc.2 || sameName it.1 "Content-Length")) (buf, found) =
      (buf ++ headers.flatMap fun it => fieldLine (headerBytes it) ++ crlf,
        found || headers.any fun it => sameName it.1 "Content-Length") := by
    induction headers generalizing buf found with
    | nil => simp
    | cons it headers ih =>
        have hcolon : ascii ": " = [58, 32] := by decide
        rw [List.foldl_cons, ih]
        simp only [hcolon, List.flatMap_cons, List.any_cons, Bool.or_assoc, fieldLine, headerBytes,
          List.append_assoc, List.cons_append, List.nil_append]
  rw [appendHeaders, hfold, Bool.false_or]

theorem any_eq_false_iff (literal : String) :
    ((mapEntries r.mHeaders).any fun it => sameName it.1 literal) = false ↔ r.named literal = [] := by
  rw [named, List.filter_eq_nil_iff, List.any_eq_false]

theorem block_lineBreak (line : Bytes) (others : List Bytes) :
    block line others ++ lineBreak = line ++ (lineBreak ++ others.flatMap (· ++ lineBreak)) := by
  induction others generalizing line with
  | nil => simp [block]
  | cons next others ih =>
      rw [block_cons, List.append_assoc, List.append_assoc, ih]
      simp only [List.flatMap_cons, List.append_assoc]

theorem number_natCast (n : Nat) : number n = decimal n := by
  have htext : toString (n : Int) = String.ofList (Nat.toDigits 10 n) := rfl
  rw [number, ascii, htext, String.toList_ofList, decimal]

/-- The status line, the fields line by line, the blank line and the body. -/
theorem serialize_eq {status : Nat} (hstatus : r.mStatus = status) :
    r.serialize = block (version ++ (decimal status ++ 32 :: ascii (statusText r.mStatus)))
      (r.expectedFields.map fieldLine) ++ (blankLine ++ r.mBody) := by
  have hhead : ascii "HTTP/1.1 " ++ number r.mStatus ++ ascii " " ++ ascii (statusText r.mStatus) =
      version ++ (decimal status ++ 32 :: ascii (statusText r.mStatus)) := by
    have hversion : ascii "HTTP/1.1 " = version := by decide
    have hspace : ascii " " = [32] := by decide
    rw [hversion, hspace, hstatus, number_natCast]
    simp only [List.append_assoc, List.singleton_append]
  have hlength (buf : Bytes) : buf ++ ascii "Content-Length: " ++ number r.mBody.length ++ crlf =
      buf ++ (fieldLine (ascii "Content-Length", number r.mBody.length) ++ crlf) := by
    have hname : ascii "Content-Length: " = ascii "Content-Length" ++ [58, 32] := by decide
    simp only [hname, fieldLine, List.append_assoc, List.cons_append, List.nil_append]
  have hclose : ascii "Connection: close\r\n" = fieldLine (ascii "Connection", ascii "close") ++ crlf := by
    decide
  have hblock : block (version ++ (decimal status ++ 32 :: ascii (statusText r.mStatus)))
      (r.expectedFields.map fieldLine) ++ (blankLine ++ r.mBody) =
      ascii "HTTP/1.1 " ++ number r.mStatus ++ ascii " " ++ ascii (statusText r.mStatus) ++
        (crlf ++ (r.expectedFields.flatMap (fun field => fieldLine field ++ crlf) ++ (crlf ++ r.mBody))) := by
    have hblank : blankLine = lineBreak ++ lineBreak := rfl
    rw [hhead, hblank, List.append_assoc lineBreak, ← List.append_assoc, block_lineBreak, crlf_eq,
      List.flatMap_map]
    simp only [List.append_assoc]
  have hadded (literal : String) (field : Bytes × Bytes) (buf : Bytes) :
      (if ((mapEntries r.mHeaders).any fun it => sameName it.1 literal) = true then buf
        else buf ++ (fieldLine field ++ crlf)) =
      buf ++ (if r.named literal = [] then [field] else []).flatMap fun field => fieldLine field ++ crlf := by
    by_cases hnone : r.named literal = []
    · rw [(any_eq_false_iff r literal).mpr hnone, if_neg (by simp), if_pos hnone, List.flatMap_singleton]
    · rw [if_pos (by rwa [← Bool.not_eq_false, any_eq_false_iff]), if_neg hnone, List.flatMap_nil,
        List.append_nil]
  rw [hblock, serialize]
  simp only [appendHeaders_eq, hclose, hlength, hadded]
  simp only [expectedFields, List.flatMap_append, List.flatMap_map, List.append_assoc]

/-! ### What is read back -/

/-- A reader finds exactly one response: the status, the headers that were set and the two that are added,
at most one field of each kind that frames the body, and the body. -/
def ReadsBack : Prop :=
  ∃ response, readResponse r.serialize = some (response, []) ∧ (response.status : Int) = r.mStatus ∧
    response.fields.Perm r.expectedFields ∧ response.body = r.mBody ∧
    (valuesOf contentLength response.fields).length ≤ 1 ∧
    (valuesOf transferEncoding response.fields).length ≤ 1

/-- At most one header has a name, in whatever case it is written. -/
def Once (literal : String) : Prop :=
  ∀ key ∈ r.mHeaders, ∀ key' ∈ r.mHeaders,
    sameName key literal = true → sameName key' literal = true → key = key'

/-- Names and values are well formed, and the body is as long as the headers say. -/
structure Sound : Prop where
  names : ∀ key value, r.mHeaders.lookup key = some value → IsName (toUtf8 key)
  values : ∀ key value, r.mHeaders.lookup key = some value → IsValue (toUtf8 value)
  lengthOnce : r.Once "Content-Length"
  codingOnce : r.Once "Transfer-Encoding"
  noCoding : hasContent r.mStatus.toNat = true →
    ∀ key ∈ r.mHeaders, ¬ sameName key "Transfer-Encoding" = true
  length : hasContent r.mStatus.toNat = true →
    ∀ key value, r.mHeaders.lookup key = some value → sameName key "Content-Length" = true →
      readDecimal (toUtf8 value) = some r.mBody.length
  noBody : hasContent r.mStatus.toNat = false → r.mBody = []

variable {r}

theorem mem_named {literal : String} {header : String × String} :
    header ∈ r.named literal ↔
      r.mHeaders.lookup header.1 = some header.2 ∧ sameName header.1 literal = true := by
  rw [named, List.mem_filter, mem_mapEntries]

theorem mem_headers_iff {key : String} : key ∈ r.mHeaders ↔ ∃ value, r.mHeaders.lookup key = some value :=
  Finmap.mem_iff

theorem once_iff {literal : String} : r.Once literal ↔ (r.named literal).length ≤ 1 := by
  have hnodup : ((r.named literal).map Prod.fst).Nodup :=
    ((List.filter_sublist (l := mapEntries r.mHeaders)).map Prod.fst).nodup
      (nodup_mapEntries r.mHeaders)
  constructor
  · intro honce
    match hnamed : r.named literal with
    | [] => simp
    | [_] => simp
    | first :: second :: rest =>
        have hmem (header : String × String) (hheader : header ∈ r.named literal) :
            header.1 ∈ r.mHeaders ∧ sameName header.1 literal = true :=
          ⟨mem_headers_iff.mpr ⟨_, (mem_named.mp hheader).1⟩, (mem_named.mp hheader).2⟩
        obtain ⟨hfirst, hfirstName⟩ := hmem first (by simp [hnamed])
        obtain ⟨hsecond, hsecondName⟩ := hmem second (by simp [hnamed])
        have hsame := honce _ hfirst _ hsecond hfirstName hsecondName
        rw [hnamed] at hnodup
        simp [hsame] at hnodup
  · intro hlength key hkey key' hkey' hname hname'
    obtain ⟨value, hvalue⟩ := mem_headers_iff.mp hkey
    obtain ⟨value', hvalue'⟩ := mem_headers_iff.mp hkey'
    have hmem : (key, value) ∈ r.named literal := mem_named.mpr ⟨hvalue, hname⟩
    have hmem' : (key', value') ∈ r.named literal := mem_named.mpr ⟨hvalue', hname'⟩
    obtain ⟨header, hheader⟩ := List.length_eq_one_iff.mp
      (Nat.le_antisymm hlength (List.length_pos_of_mem hmem))
    rw [hheader, List.mem_singleton] at hmem hmem'
    rw [← hmem'] at hmem
    exact (Prod.mk.inj hmem).1

theorem valuesOf_headers {name : Bytes} {literal : String}
    (hname : ∀ key, sameName key literal = true ↔ (toUtf8 key).map lower = name) :
    valuesOf name ((mapEntries r.mHeaders).map headerBytes) =
      (r.named literal).map fun header => toUtf8 header.2 := by
  have hfilter : (fun field : Bytes × Bytes => decide (field.1.map lower = name)) ∘ headerBytes =
      fun header => sameName header.1 literal := by
    funext header
    rw [Function.comp_apply, headerBytes, Bool.eq_iff_iff, decide_eq_true_iff, hname]
  rw [valuesOf, List.filter_map, hfilter, List.map_map]
  rfl

/-- A field that is added where a header is missing is none of another name. -/
theorem valuesOf_added {name : Bytes} {literal : String} (hname : (ascii literal).map lower ≠ name)
    (value : Bytes) :
    valuesOf name (if r.named literal = [] then [(ascii literal, value)] else []) = [] := by
  split
  · rw [valuesOf_singleton, if_neg hname]
  · rfl

theorem valuesOf_contentLength : valuesOf contentLength r.expectedFields =
    if r.named "Content-Length" = [] then [number r.mBody.length]
    else (r.named "Content-Length").map fun header => toUtf8 header.2 := by
  have hlength : (ascii "Content-Length").map lower = contentLength := by decide
  have hconnection : (ascii "Connection").map lower ≠ contentLength := by decide
  rw [expectedFields, valuesOf_append, valuesOf_append, valuesOf_headers sameName_contentLength,
    valuesOf_added hconnection]
  by_cases hnone : r.named "Content-Length" = []
  · rw [if_pos hnone, if_pos hnone, valuesOf_singleton, if_pos hlength, hnone]
    rfl
  · rw [if_neg hnone, if_neg hnone]
    exact List.append_nil _

theorem valuesOf_transferEncoding : valuesOf transferEncoding r.expectedFields =
    (r.named "Transfer-Encoding").map fun header => toUtf8 header.2 := by
  have hlength : (ascii "Content-Length").map lower ≠ transferEncoding := by decide
  have hconnection : (ascii "Connection").map lower ≠ transferEncoding := by decide
  rw [expectedFields, valuesOf_append, valuesOf_append, valuesOf_headers sameName_transferEncoding,
    valuesOf_added hlength, valuesOf_added hconnection]
  exact List.append_nil _

/-- The fields that are written frame the body exactly where no transfer coding is set, the content length
that is set is right, and a status without a body has none. -/
theorem bodyLength_expectedFields {status : Nat} (honce : (r.named "Content-Length").length ≤ 1) :
    bodyLength status r.expectedFields r.mBody.length = some r.mBody.length ↔
      (hasContent status = true → r.named "Transfer-Encoding" = []) ∧
      (hasContent status = true →
        ∀ header ∈ r.named "Content-Length", readDecimal (toUtf8 header.2) = some r.mBody.length) ∧
      (hasContent status = false → r.mBody = []) := by
  cases hcontent : hasContent status with
  | false =>
      rw [bodyLength, if_pos hcontent, Option.some_inj, eq_comm, List.length_eq_zero_iff]
      simp
  | true =>
      have hcoding : valuesOf transferEncoding r.expectedFields = [] ↔
          r.named "Transfer-Encoding" = [] := by
        rw [valuesOf_transferEncoding, List.map_eq_nil_iff]
      by_cases hnone : r.named "Transfer-Encoding" = []
      · have hlength : bodyLength status r.expectedFields r.mBody.length = some r.mBody.length ↔
            ∀ header ∈ r.named "Content-Length", readDecimal (toUtf8 header.2) = some r.mBody.length := by
          have hvalues := valuesOf_contentLength (r := r)
          cases hnamed : r.named "Content-Length" with
          | nil =>
              rw [hnamed, if_pos rfl] at hvalues
              rw [bodyLength_of_content hcontent (hcoding.mpr hnone) hvalues, number_natCast,
                readDecimal_decimal]
              simp
          | cons header others =>
              have hothers : others = [] := by
                rw [hnamed, List.length_cons] at honce
                exact List.length_eq_zero_iff.mp (by omega)
              rw [hnamed, hothers, if_neg (by simp)] at hvalues
              rw [bodyLength_of_content hcontent (hcoding.mpr hnone) hvalues, hothers]
              simp
        rw [hlength]
        simp [hnone]
      · rw [bodyLength, if_neg (by simp [hcontent]), if_pos (fun heq => hnone (hcoding.mp heq))]
        simp [hnone]

theorem statusText_isValueByte (code : Int) : (ascii (statusText code)).all isValueByte = true := by
  unfold statusText
  split <;> decide

theorem readResponse_serialize {status : Nat} (hstatus : r.mStatus = status) (hlow : 100 ≤ status)
    (hhigh : status ≤ 999) (hfields : ∀ field ∈ r.expectedFields, IsName field.1 ∧ IsValue field.2) :
    readResponse r.serialize =
      (bodyLength status r.expectedFields r.mBody.length).bind fun length =>
        if length ≤ r.mBody.length then
          some (⟨status, r.expectedFields, r.mBody.take length⟩, r.mBody.drop length)
        else none := by
  rw [serialize_eq r hstatus]
  exact readResponse_head hlow hhigh (statusText_isValueByte _) hfields r.mBody

theorem expectedFields_valid
    (hnames : ∀ key value, r.mHeaders.lookup key = some value → IsName (toUtf8 key))
    (hvalues : ∀ key value, r.mHeaders.lookup key = some value → IsValue (toUtf8 value)) :
    ∀ field ∈ r.expectedFields, IsName field.1 ∧ IsValue field.2 := by
  intro field hfield
  rw [expectedFields, List.mem_append, List.mem_append] at hfield
  obtain hset | hlength | hclose := hfield
  · obtain ⟨header, hheader, rfl⟩ := List.mem_map.mp hset
    have hlookup := mem_mapEntries.mp hheader
    exact ⟨hnames _ _ hlookup, hvalues _ _ hlookup⟩
  · split at hlength
    · obtain rfl := List.mem_singleton.mp hlength
      have hname : IsName (ascii "Content-Length") := by decide
      refine ⟨hname, ?_⟩
      rw [number_natCast]
      exact isValue_of_digits fun byte hbyte => decimal_isDigit hbyte
    · contradiction
  · split at hclose
    · obtain rfl := List.mem_singleton.mp hclose
      exact ⟨by decide, by decide⟩
    · contradiction

theorem once_contentLength_iff :
    r.Once "Content-Length" ↔ (valuesOf contentLength r.expectedFields).length ≤ 1 := by
  rw [once_iff, valuesOf_contentLength]
  by_cases hnone : r.named "Content-Length" = []
  · simp [hnone]
  · rw [if_neg hnone, List.length_map]

theorem once_transferEncoding_iff :
    r.Once "Transfer-Encoding" ↔ (valuesOf transferEncoding r.expectedFields).length ≤ 1 := by
  rw [once_iff, valuesOf_transferEncoding, List.length_map]

theorem length_valuesOf {name : Bytes} {fields fields' : List (Bytes × Bytes)}
    (hfields : fields.Perm fields') : (valuesOf name fields).length = (valuesOf name fields').length := by
  rw [valuesOf, valuesOf, List.length_map, List.length_map]
  exact (hfields.filter _).length_eq

theorem named_transferEncoding_eq_nil :
    r.named "Transfer-Encoding" = [] ↔ ∀ key ∈ r.mHeaders, ¬ sameName key "Transfer-Encoding" = true := by
  rw [List.eq_nil_iff_forall_not_mem]
  constructor
  · intro hnone key hkey hname
    obtain ⟨value, hvalue⟩ := mem_headers_iff.mp hkey
    exact hnone (key, value) (mem_named.mpr ⟨hvalue, hname⟩)
  · intro hnone header hheader
    obtain ⟨hlookup, hname⟩ := mem_named.mp hheader
    exact hnone header.1 (mem_headers_iff.mpr ⟨_, hlookup⟩) hname

/-- A sound response is read back. -/
theorem Sound.readsBack (hsound : r.Sound) (hlow : 100 ≤ r.mStatus) (hhigh : r.mStatus ≤ 999) :
    r.ReadsBack := by
  obtain ⟨status, hstatus⟩ := Int.eq_ofNat_of_zero_le (by omega : 0 ≤ r.mStatus)
  have hcontent : r.mStatus.toNat = status := by omega
  have hvalid := expectedFields_valid hsound.names hsound.values
  have hlength : bodyLength status r.expectedFields r.mBody.length = some r.mBody.length := by
    rw [bodyLength_expectedFields (once_iff.mp hsound.lengthOnce), ← hcontent,
      named_transferEncoding_eq_nil]
    refine ⟨hsound.noCoding, fun hcontent header hheader => ?_, hsound.noBody⟩
    obtain ⟨hlookup, hname⟩ := mem_named.mp hheader
    exact hsound.length hcontent _ _ hlookup hname
  refine ⟨⟨status, r.expectedFields, r.mBody⟩, ?_, hstatus.symm, List.Perm.refl _, rfl, ?_, ?_⟩
  · rw [readResponse_serialize hstatus (by omega) (by omega) hvalid, hlength]
    simp
  · exact once_contentLength_iff.mp hsound.lengthOnce
  · exact once_transferEncoding_iff.mp hsound.codingOnce

/-- What is read back was sound. -/
theorem ReadsBack.sound (hback : r.ReadsBack) (hlow : 100 ≤ r.mStatus) (hhigh : r.mStatus ≤ 999) :
    r.Sound := by
  obtain ⟨status, hstatus⟩ := Int.eq_ofNat_of_zero_le (by omega : 0 ≤ r.mStatus)
  have hcontent : r.mStatus.toNat = status := by omega
  obtain ⟨response, hread, -, hfields, -, hlengths, hcodings⟩ := hback
  have hvalid : ∀ field ∈ r.expectedFields, IsName field.1 ∧ IsValue field.2 := fun field hfield =>
    isName_of_readResponse hread field (hfields.mem_iff.mpr hfield)
  have hheader {key value : String} (hlookup : r.mHeaders.lookup key = some value) :
      headerBytes (key, value) ∈ r.expectedFields :=
    List.mem_append_left _ (List.mem_map_of_mem (mem_mapEntries.mpr hlookup))
  rw [length_valuesOf hfields] at hlengths hcodings
  have hlengthOnce := once_contentLength_iff.mpr hlengths
  rw [readResponse_serialize hstatus (by omega) (by omega) hvalid] at hread
  obtain ⟨length, hlength, hread⟩ := Option.bind_eq_some_iff.mp hread
  have hall : length = r.mBody.length := by
    split at hread
    · have hrest := (Prod.mk.inj (Option.some_inj.mp hread)).2
      rw [List.drop_eq_nil_iff] at hrest
      omega
    · contradiction
  rw [hall, bodyLength_expectedFields (once_iff.mp hlengthOnce), ← hcontent,
    named_transferEncoding_eq_nil] at hlength
  obtain ⟨hnoCoding, hlength, hnoBody⟩ := hlength
  exact {
    names := fun key value hlookup => (hvalid _ (hheader hlookup)).1
    values := fun key value hlookup => (hvalid _ (hheader hlookup)).2
    lengthOnce := hlengthOnce
    codingOnce := once_transferEncoding_iff.mpr hcodings
    noCoding := hnoCoding
    length := fun hcontent key value hlookup hname =>
      hlength hcontent (key, value) (mem_named.mpr ⟨hlookup, hname⟩)
    noBody := hnoBody }

/-- A response is read back as it was set exactly if it is sound. -/
theorem readsBack_iff (r : HttpResponse) (hlow : 100 ≤ r.mStatus) (hhigh : r.mStatus ≤ 999) :
    r.ReadsBack ↔ r.Sound :=
  ⟨fun hback => hback.sound hlow hhigh, fun hsound => hsound.readsBack hlow hhigh⟩

/-- A response with a text in its header and its body. -/
def helloResponse : HttpResponse :=
  (({} : HttpResponse).setHeader "Content-Type" "text/plain").setBody (ascii "hello")

theorem readsBack_helloResponse : helloResponse.ReadsBack := by
  have hlookup (key value : String) (hlookup : helloResponse.mHeaders.lookup key = some value) :
      key = "Content-Type" ∧ value = "text/plain" := by
    obtain ⟨rfl, rfl⟩ | ⟨-, hold⟩ := UnorderedMap.lookup_insert_cases hlookup
    · exact ⟨rfl, rfl⟩
    · contradiction
  have hkey (key : String) (hkey : key ∈ helloResponse.mHeaders) : key = "Content-Type" := by
    obtain ⟨value, hvalue⟩ := mem_headers_iff.mp hkey
    exact (hlookup key value hvalue).1
  refine (readsBack_iff helloResponse (by decide) (by decide)).mpr ?_
  refine ⟨fun key value hset => ?_, fun key value hset => ?_, fun key hset key' hset' _ _ => ?_,
    fun key hset key' hset' _ _ => ?_, fun _ key hset => ?_, fun _ key value hset hname => ?_, by decide⟩
  · rw [(hlookup key value hset).1]
    decide
  · rw [(hlookup key value hset).2]
    decide
  · rw [hkey key hset, hkey key' hset']
  · rw [hkey key hset, hkey key' hset']
  · rw [hkey key hset]
    decide
  · rw [(hlookup key value hset).1] at hname
    exact absurd hname (by decide)

/-- A text that was taken from a request, with a line break in it. -/
def echoResponse : HttpResponse := ({} : HttpResponse).setHeader "X-Echo" "a\r\nSet-Cookie: b"

/-- It sets a header of its own. -/
theorem echoResponse_not_readsBack :
    (readResponse echoResponse.serialize).map (fun read => read.1.fields.map (·.1)) =
      some [ascii "X-Echo", ascii "Set-Cookie", ascii "Content-Length", ascii "Connection"] ∧
    ¬ echoResponse.ReadsBack := by
  refine ⟨by decide +kernel, fun hback => ?_⟩
  have hvalue := (hback.sound (by decide) (by decide)).values "X-Echo" "a\r\nSet-Cookie: b" (by decide)
  exact absurd hvalue (by decide)

end HttpResponse

end SoulCoreKit.Server
