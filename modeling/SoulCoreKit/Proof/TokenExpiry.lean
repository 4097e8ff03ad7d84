import SoulCoreKit.Auth.TokenManager
import SoulCoreKit.Proof.TextConversion

/-!
# When a token expires

The payload is decoded with the standard alphabet and the time is read as an `int`. The answers are right at
all times where the reading of the payload comes to the time that was written, and besides where nothing is
read and the lifetime that was stored before happens to end at that time.
-/

namespace SoulCoreKit.Auth

open JsonHelper

/-- A token of three parts, each of the alphabet for URLs. -/
structure JwtParts where
  header : List Char
  payload : List Char
  signature : List Char
  headerUrl : ∀ c ∈ header, Base64.isUrlChar c = true
  payloadUrl : ∀ c ∈ payload, Base64.isUrlChar c = true
  signatureUrl : ∀ c ∈ signature, Base64.isUrlChar c = true

/-- With or without the prefix. -/
def JwtParts.token (jwt : JwtParts) (bearer : Bool) : List Char :=
  (if bearer then "Bearer ".toList else []) ++
    (jwt.header ++ '.' :: (jwt.payload ++ '.' :: jwt.signature))

theorem not_mem_of_isUrlChar {c : Char} {text : List Char} (htext : ∀ d ∈ text, Base64.isUrlChar d = true)
    (hc : Base64.isUrlChar c = false) : c ∉ text := by
  intro hmem
  have hurl := htext c hmem
  rw [hc] at hurl
  contradiction

theorem splitOn_token (jwt : JwtParts) :
    (jwt.header ++ '.' :: (jwt.payload ++ '.' :: jwt.signature)).splitOn '.' =
      [jwt.header, jwt.payload, jwt.signature] := by
  have hdot : Base64.isUrlChar '.' = false := by decide
  have hparts : ∀ part ∈ [jwt.header, jwt.payload, jwt.signature], '.' ∉ part := by
    intro part hpart
    simp only [List.mem_cons, List.not_mem_nil, or_false] at hpart
    obtain rfl | rfl | rfl := hpart
    · exact not_mem_of_isUrlChar jwt.headerUrl hdot
    · exact not_mem_of_isUrlChar jwt.payloadUrl hdot
    · exact not_mem_of_isUrlChar jwt.signatureUrl hdot
  have hsplit := List.splitOn_intercalate '.' hparts (by simp)
  simpa [List.intercalate] using hsplit

theorem not_bearer (jwt : JwtParts) :
    "Bearer ".toList.isPrefixOf (jwt.header ++ '.' :: (jwt.payload ++ '.' :: jwt.signature)) = false := by
  rw [Bool.eq_false_iff, Ne, List.isPrefixOf_iff_prefix]
  intro hfront
  have hspace : Base64.isUrlChar ' ' = false := by decide
  have hmem := hfront.subset (by decide : ' ' ∈ "Bearer ".toList)
  rw [List.mem_append, List.mem_cons, List.mem_append, List.mem_cons] at hmem
  obtain hheader | hdot | hpayload | hdot | hsignature := hmem
  · exact not_mem_of_isUrlChar jwt.headerUrl hspace hheader
  · exact absurd hdot (by decide)
  · exact not_mem_of_isUrlChar jwt.payloadUrl hspace hpayload
  · exact absurd hdot (by decide)
  · exact not_mem_of_isUrlChar jwt.signatureUrl hspace hsignature

namespace TokenManager

variable {Double : Type} (library : JsonLibrary Double) (ops : DoubleOps Double)

/-- The payload that is read out of the middle part. -/
def readPayload (payload : List Char) : Except JsonException (List (String × Json Double)) :=
  match library.parse (Base64.decode payload) with
  | .ok (.object members) => .ok members
  | .ok _ => .ok []
  | .error (.parse_error _) => .ok []
  | .error exception => .error exception

theorem parseJwtPayload_eq (m : TokenManager Double) (jwt : JwtParts) (bearer : Bool)
    (htoken : m.mToken = jwt.token bearer) :
    m.parseJwtPayload library = readPayload library jwt.payload := by
  have hrest : (if "Bearer ".toList.isPrefixOf m.mToken then m.mToken.drop 7 else m.mToken) =
      jwt.header ++ '.' :: (jwt.payload ++ '.' :: jwt.signature) := by
    cases bearer with
    | true =>
        have hbearer : m.mToken = "Bearer ".toList ++
            (jwt.header ++ '.' :: (jwt.payload ++ '.' :: jwt.signature)) := htoken
        have hfront : "Bearer ".toList.isPrefixOf m.mToken = true := by
          rw [hbearer, List.isPrefixOf_iff_prefix]
          exact List.prefix_append _ _
        rw [if_pos hfront, hbearer]
        exact List.drop_left' rfl
    | false =>
        have hplain : m.mToken = jwt.header ++ '.' :: (jwt.payload ++ '.' :: jwt.signature) := htoken
        have hfront : ¬ "Bearer ".toList.isPrefixOf m.mToken = true := by
          rw [hplain, not_bearer jwt]
          exact Bool.false_ne_true
        rw [if_neg hfront, hplain]
  unfold parseJwtPayload readPayload
  simp only [hrest, splitOn_token, pad, Base64.decode_padded, deserialize]
  cases library.parse (Base64.decode jwt.payload) with
  | ok document => cases document <;> rfl
  | error exception => cases exception <;> rfl

/-- `setToken` with the payload already read. -/
theorem setToken_eq (m : TokenManager Double) (jwt : JwtParts) (bearer : Bool) (start : Int)
    {members : List (String × Json Double)} (hread : readPayload library jwt.payload = .ok members) :
    m.setToken library ops (jwt.token bearer) start =
      { m with mToken := jwt.token bearer, mTokenIssueTime := start, mJwtPayload := members }.readTimes
        ops := by
  unfold setToken doParseJwtPayload
  rw [parseJwtPayload_eq library _ jwt bearer rfl, hread]

theorem payloadExp_eq (m : TokenManager Double) : m.payloadExp ops = valueInt ops m.mJwtPayload "exp" := by
  unfold payloadExp
  split
  case isTrue hempty =>
    rw [List.isEmpty_iff.mp hempty]
    rfl
  case isFalse => rfl

/-- Where there is no positive time nothing else is read. -/
theorem readTimes_of_nonpos {m : TokenManager Double} {read : Int}
    (hread : valueInt ops m.mJwtPayload "exp" = .ok read) (hnonpos : read ≤ 0) :
    m.readTimes ops = (.ok (), m) := by
  unfold readTimes
  split
  case isTrue => rfl
  case isFalse =>
    rw [hread]
    exact if_neg (by omega)

/-- Beside a positive time `iat` is read, and the payload stays. -/
theorem readTimes_of_pos {m : TokenManager Double} {read : Int}
    (hread : valueInt ops m.mJwtPayload "exp" = .ok read) (hpos : 0 < read) :
    (∃ iat after, valueInt ops m.mJwtPayload "iat" = .ok iat ∧ m.readTimes ops = (.ok (), after) ∧
        after.mJwtPayload = m.mJwtPayload) ∨
      ∃ exception, valueInt ops m.mJwtPayload "iat" = .error exception ∧
        m.readTimes ops = (.error exception, m) := by
  have hsome : ¬ m.mJwtPayload.isEmpty = true := by
    intro hempty
    rw [List.isEmpty_iff.mp hempty] at hread
    cases hread
    omega
  unfold readTimes
  rw [if_neg hsome, hread]
  simp only [gt_iff_lt, hpos, if_true]
  cases hiat : valueInt ops m.mJwtPayload "iat" with
  | error exception => exact Or.inr ⟨exception, rfl, rfl⟩
  | ok iat =>
      refine Or.inl ⟨iat, ?_⟩
      by_cases hlater : 0 < iat
      · exact ⟨_, rfl, if_pos hlater, rfl⟩
      · exact ⟨m, rfl, if_neg hlater, rfl⟩

/-! ### The answers -/

/-- Both answers are those for the time `exp`, at all times. -/
structure TellsTime (m : TokenManager Double) (exp : Int) : Prop where
  expired : ∀ now, 0 ≤ now → m.isTokenExpired ops now = .ok (decide (toSeconds now ≥ exp))
  about : ∀ thresholdSeconds now, 0 ≤ now →
    m.isTokenAboutToExpire ops thresholdSeconds now = .ok (decide (exp - toSeconds now ≤ thresholdSeconds))

theorem toSeconds_eq {now : Int} (hnow : 0 ≤ now) : toSeconds now = now / 1000 :=
  Int.tdiv_eq_ediv_of_nonneg hnow

theorem tellsTime_of_pos {m : TokenManager Double} {read : Int}
    (hread : valueInt ops m.mJwtPayload "exp" = .ok read) (hpos : 0 < read) : m.TellsTime ops read where
  expired now _ := by
    rw [isTokenExpired, payloadExp_eq, hread, Except.map, if_pos hpos]
  about thresholdSeconds now _ := by
    rw [isTokenAboutToExpire, payloadExp_eq, hread, Except.map, if_pos hpos]

/-- The stored lifetime, counted from the stored time, ends at `exp`. -/
def EndsAt (mExpiresIn mTokenIssueTime exp : Int) : Prop :=
  0 < mExpiresIn ∧ mTokenIssueTime ≠ 0 ∧ mTokenIssueTime + mExpiresIn * 1000 = exp * 1000

theorem tellsTime_of_endsAt {m : TokenManager Double} {read exp : Int}
    (hread : valueInt ops m.mJwtPayload "exp" = .ok read) (hnonpos : read ≤ 0)
    (hends : EndsAt m.mExpiresIn m.mTokenIssueTime exp) : m.TellsTime ops exp where
  expired now hnow := by
    obtain ⟨hlife, hstart, hend⟩ := hends
    have hsame : now ≥ m.mTokenIssueTime + m.mExpiresIn * 1000 ↔ toSeconds now ≥ exp := by
      rw [hend, toSeconds_eq hnow]
      omega
    rw [isTokenExpired, payloadExp_eq, hread, Except.map, if_neg (by omega), if_neg (by omega)]
    exact congrArg Except.ok (decide_eq_decide.mpr hsame)
  about thresholdSeconds now hnow := by
    obtain ⟨hlife, hstart, hend⟩ := hends
    have hsame : m.mTokenIssueTime + m.mExpiresIn * 1000 - now ≤ thresholdSeconds * 1000 ↔
        exp - toSeconds now ≤ thresholdSeconds := by
      rw [hend, toSeconds_eq hnow]
      omega
    rw [isTokenAboutToExpire, payloadExp_eq, hread, Except.map, if_neg (by omega), if_neg (by omega)]
    exact congrArg Except.ok (decide_eq_decide.mpr hsame)

/-- Two states that tell the time agree on it. -/
theorem TellsTime.unique {m : TokenManager Double} {exp other : Int} (hexp : m.TellsTime ops exp)
    (hother : m.TellsTime ops other) (hpos : 0 < exp) (hposOther : 0 < other) : exp = other := by
  have hagree : ∀ now, 0 ≤ now → (toSeconds now ≥ exp ↔ toSeconds now ≥ other) := by
    intro now hnow
    have hanswer := (hexp.expired now hnow).symm.trans (hother.expired now hnow)
    exact decide_eq_decide.mp (Except.ok.inj hanswer)
  have hsecond : ∀ second : Int, 0 ≤ second → toSeconds (second * 1000) = second := by
    intro second hsecond
    rw [toSeconds_eq (by omega)]
    omega
  have hthere := (hagree (exp * 1000) (by omega)).mp (by rw [hsecond exp (by omega)])
  have hback := (hagree (other * 1000) (by omega)).mpr (by rw [hsecond other (by omega)])
  rw [hsecond exp (by omega)] at hthere
  rw [hsecond other (by omega)] at hback
  omega

/-- Without a positive time only a lifetime that ends there gives the answers: they change at the last
millisecond before. -/
theorem endsAt_of_tellsTime {m : TokenManager Double} {read exp : Int}
    (hread : valueInt ops m.mJwtPayload "exp" = .ok read) (hnonpos : read ≤ 0) (hpos : 0 < exp)
    (htells : m.TellsTime ops exp) : EndsAt m.mExpiresIn m.mTokenIssueTime exp := by
  have hanswer : ∀ now, 0 ≤ now →
      (if m.mExpiresIn ≤ 0 ∨ m.mTokenIssueTime = 0 then false
        else decide (now ≥ m.mTokenIssueTime + m.mExpiresIn * 1000)) = decide (toSeconds now ≥ exp) := by
    intro now hnow
    have hexpired := htells.expired now hnow
    rw [isTokenExpired, payloadExp_eq, hread, Except.map, if_neg (by omega)] at hexpired
    exact Except.ok.inj hexpired
  have hon := hanswer (exp * 1000) (by omega)
  have hbefore := hanswer (exp * 1000 - 1) (by omega)
  have hreached : toSeconds (exp * 1000) ≥ exp := by
    rw [toSeconds_eq (by omega)]
    omega
  have hnotYet : ¬ toSeconds (exp * 1000 - 1) ≥ exp := by
    rw [toSeconds_eq (by omega)]
    omega
  rw [decide_eq_true hreached] at hon
  rw [decide_eq_false hnotYet] at hbefore
  have hstored : ¬ (m.mExpiresIn ≤ 0 ∨ m.mTokenIssueTime = 0) := by
    intro hnone
    rw [if_pos hnone] at hon
    exact Bool.false_ne_true hon
  rw [if_neg hstored] at hon hbefore
  have hfrom := of_decide_eq_true hon
  have hto := of_decide_eq_false hbefore
  refine ⟨by omega, by omega, by omega⟩

theorem tellsTime_iff {m : TokenManager Double} {read exp : Int}
    (hread : valueInt ops m.mJwtPayload "exp" = .ok read) (hpos : 0 < exp) :
    m.TellsTime ops exp ↔ read = exp ∨ (read ≤ 0 ∧ EndsAt m.mExpiresIn m.mTokenIssueTime exp) := by
  constructor
  · intro htells
    by_cases hnonpos : read ≤ 0
    · exact Or.inr ⟨hnonpos, endsAt_of_tellsTime ops hread hnonpos hpos htells⟩
    · exact Or.inl ((tellsTime_of_pos ops hread (by omega)).unique ops htells (by omega) hpos)
  · rintro (rfl | ⟨hnonpos, hends⟩)
    · exact tellsTime_of_pos ops hread hpos
    · exact tellsTime_of_endsAt ops hread hnonpos hends

/-! ### After setToken -/

/-- `setToken` returns, and from then on the answers are those for the time `exp`. -/
def TellsTimeAfter (m : TokenManager Double) (token : List Char) (start exp : Int) : Prop :=
  ∃ after, m.setToken library ops token start = (.ok (), after) ∧ after.TellsTime ops exp

/-- The members come to the time `exp`: `exp` is read as it, and then `iat` is readable. -/
def ReadsTime (members : List (String × Json Double)) (exp : Int) : Prop :=
  valueInt ops members "exp" = .ok exp ∧ ∃ iat, valueInt ops members "iat" = .ok iat

/-- No time is read from the members. -/
def ReadsNoTime (members : List (String × Json Double)) : Prop :=
  ∃ read, valueInt ops members "exp" = .ok read ∧ read ≤ 0

theorem readTimes_of_error {m : TokenManager Double} {exception : JsonException}
    (hread : valueInt ops m.mJwtPayload "exp" = .error exception) :
    m.readTimes ops = (.error exception, m) := by
  have hsome : ¬ m.mJwtPayload.isEmpty = true := by
    intro hempty
    rw [List.isEmpty_iff.mp hempty] at hread
    contradiction
  rw [readTimes, if_neg hsome, hread]

theorem readTimes_tells_iff {m : TokenManager Double} {exp : Int} (hpos : 0 < exp) :
    (∃ after, m.readTimes ops = (.ok (), after) ∧ after.TellsTime ops exp) ↔
      ReadsTime ops m.mJwtPayload exp ∨
        (ReadsNoTime ops m.mJwtPayload ∧ EndsAt m.mExpiresIn m.mTokenIssueTime exp) := by
  unfold ReadsTime ReadsNoTime
  cases hread : valueInt ops m.mJwtPayload "exp" with
  | error exception =>
      rw [readTimes_of_error ops hread]
      simp
  | ok read =>
      by_cases hnonpos : read ≤ 0
      · have htells := tellsTime_iff ops hread hpos
        rw [readTimes_of_nonpos ops hread hnonpos]
        constructor
        · rintro ⟨_, ⟨rfl, rfl⟩, hanswers⟩
          obtain heq | ⟨-, hends⟩ := htells.mp hanswers
          · omega
          · exact Or.inr ⟨⟨read, rfl, hnonpos⟩, hends⟩
        · rintro (⟨heq, -⟩ | ⟨-, hends⟩)
          · cases heq
            omega
          · exact ⟨m, rfl, htells.mpr (Or.inr ⟨hnonpos, hends⟩)⟩
      · obtain ⟨iat, after, hiat, htimes, hpayload⟩ | ⟨exception, hiat, htimes⟩ :=
          readTimes_of_pos ops hread (by omega)
        · have hafter : valueInt ops after.mJwtPayload "exp" = .ok read := by rw [hpayload, hread]
          have htells := tellsTime_iff ops hafter hpos
          rw [htimes, hiat]
          constructor
          · rintro ⟨_, ⟨rfl, rfl⟩, hanswers⟩
            obtain heq | ⟨hle, -⟩ := htells.mp hanswers
            · rw [heq]
              exact Or.inl ⟨rfl, iat, rfl⟩
            · contradiction
          · rintro (⟨heq, -⟩ | ⟨⟨other, heq, hother⟩, -⟩)
            · cases heq
              exact ⟨after, rfl, htells.mpr (Or.inl rfl)⟩
            · cases heq
              contradiction
        · rw [htimes, hiat]
          constructor
          · rintro ⟨_, hreturns, -⟩
            cases hreturns
          · rintro (⟨-, iat, hnone⟩ | ⟨⟨other, heq, hother⟩, -⟩)
            · cases hnone
            · cases heq
              contradiction

theorem tellsTimeAfter_of_ok {m : TokenManager Double} {jwt : JwtParts} {bearer : Bool} {start exp : Int}
    {members : List (String × Json Double)} (hread : readPayload library jwt.payload = .ok members)
    (hpos : 0 < exp) :
    m.TellsTimeAfter library ops (jwt.token bearer) start exp ↔
      ReadsTime ops members exp ∨ (ReadsNoTime ops members ∧ EndsAt m.mExpiresIn start exp) := by
  rw [TellsTimeAfter, setToken_eq library ops m jwt bearer start hread]
  exact readTimes_tells_iff ops hpos

theorem setToken_tells_iff (m : TokenManager Double) (jwt : JwtParts) (bearer : Bool) (start : Int)
    {exp : Int} (hpos : 0 < exp) :
    m.TellsTimeAfter library ops (jwt.token bearer) start exp ↔
      ∃ members, readPayload library jwt.payload = .ok members ∧
        (ReadsTime ops members exp ∨ (ReadsNoTime ops members ∧ EndsAt m.mExpiresIn start exp)) := by
  cases hread : readPayload library jwt.payload with
  | error exception =>
      have hthrows : (m.setToken library ops (jwt.token bearer) start).1 = .error exception := by
        unfold setToken doParseJwtPayload
        rw [parseJwtPayload_eq library _ jwt bearer rfl, hread]
      constructor
      · rintro ⟨after, hreturns, -⟩
        rw [hreturns] at hthrows
        cases hthrows
      · rintro ⟨members, hmembers, -⟩
        cases hmembers
  | ok members =>
      rw [tellsTimeAfter_of_ok library ops hread hpos]
      constructor
      · intro htells
        exact ⟨members, rfl, htells⟩
      · rintro ⟨_, ⟨rfl⟩, htells⟩
        exact htells

/-! ### Payloads of the alphabet for URLs -/

/-- An integer member of an object, as the library reads it. -/
def IntegerMember (members : List (String × Json Double)) (key : String) (number : Int) : Prop :=
  (∃ n : UInt64, members.lookup key = some (.unsigned n) ∧ (n.toNat : Int) = number) ∨
    ∃ n : Int64, members.lookup key = some (.integer n) ∧ n.toInt = number

theorem valueInt_of_integerMember {members : List (String × Json Double)} {key : String} {number : Int}
    (hmember : IntegerMember members key number) : valueInt ops members key = .ok (castInt number) := by
  unfold valueInt
  obtain ⟨n, hlookup, rfl⟩ | ⟨n, hlookup, rfl⟩ := hmember
  · rw [hlookup]
  · rw [hlookup]

theorem castInt_eq_self_iff {number : Int} (hpos : 0 < number) :
    castInt number = number ↔ number < 2 ^ 31 := by
  unfold castInt
  constructor
  · intro hself
    have hupper := @Int.bmod_lt number (2 ^ 32) (by decide)
    omega
  · intro hlt
    exact Int.bmod_eq_of_le (by omega) (by omega)

theorem tells_of_agreeing (m : TokenManager Double) {jwt : JwtParts} (bearer : Bool) (start : Int)
    {text : QByteArray} {members : List (String × Json Double)} {exp : Int}
    (hparse : library.parse text = .ok (.object members)) (hexp : IntegerMember members "exp" exp)
    (hpos : 0 < exp) (hpayload : jwt.payload = Base64.encodeUrl text) (hminus : '-' ∉ jwt.payload)
    (hunder : '_' ∉ jwt.payload) :
    m.TellsTimeAfter library ops (jwt.token bearer) start exp ↔
      (exp < 2 ^ 31 ∧ ∃ iat, valueInt ops members "iat" = .ok iat) ∨
        (castInt exp ≤ 0 ∧ EndsAt m.mExpiresIn start exp) := by
  rw [hpayload] at hminus hunder
  have hread : readPayload library jwt.payload = .ok members := by
    rw [readPayload, hpayload, Base64.decode_encodeUrl hminus hunder, hparse]
  have hvalue := valueInt_of_integerMember ops hexp
  have hreads : ReadsTime ops members exp ↔ exp < 2 ^ 31 ∧ ∃ iat, valueInt ops members "iat" = .ok iat := by
    rw [ReadsTime, hvalue, Except.ok.injEq, castInt_eq_self_iff hpos]
  have hnone : ReadsNoTime ops members ↔ castInt exp ≤ 0 := by
    rw [ReadsNoTime, hvalue]
    constructor
    · rintro ⟨_, ⟨rfl⟩, hnonpos⟩
      exact hnonpos
    · intro hnonpos
      exact ⟨_, rfl, hnonpos⟩
  rw [tellsTimeAfter_of_ok library ops hread hpos, hreads, hnone]

/-- The answers are those of the payload that is written exactly where the payload that is read comes to the
same time, or to none while the stored lifetime ends there. Where the two alphabets agree the first is a
bound on the time. -/
theorem written_exp_told_iff (m : TokenManager Double) {jwt : JwtParts} (bearer : Bool) (start : Int)
    {text : QByteArray} {members : List (String × Json Double)} {exp : Int}
    (hparse : library.parse text = .ok (.object members)) (hexp : IntegerMember members "exp" exp)
    (hpos : 0 < exp) (hpayload : jwt.payload = Base64.encodeUrl text) :
    (m.TellsTimeAfter library ops (jwt.token bearer) start exp ↔
      ∃ read, readPayload library jwt.payload = .ok read ∧
        (ReadsTime ops read exp ∨ (ReadsNoTime ops read ∧ EndsAt m.mExpiresIn start exp))) ∧
    ('-' ∉ jwt.payload → '_' ∉ jwt.payload →
      (m.TellsTimeAfter library ops (jwt.token bearer) start exp ↔
        (exp < 2 ^ 31 ∧ ∃ iat, valueInt ops members "iat" = .ok iat) ∨
          (castInt exp ≤ 0 ∧ EndsAt m.mExpiresIn start exp))) := by
  refine ⟨setToken_tells_iff library ops m jwt bearer start hpos, ?_⟩
  intro hminus hunder
  exact tells_of_agreeing library ops m bearer start hparse hexp hpos hpayload hminus hunder

end TokenManager

def JwtParts.ofText (text : QByteArray) : JwtParts where
  header := "eyJhbGciOiJIUzI1NiJ9".toList
  payload := Base64.encodeUrl text
  signature := "c2ln".toList
  headerUrl := List.all_eq_true.mp (by decide)
  payloadUrl _ := Base64.encodeUrl_isUrlChar
  signatureUrl := List.all_eq_true.mp (by decide)

namespace TokenManager

/-- The first second of 2025. -/
def newYear : QByteArray := "\x7b\"exp\":1735689600\x7d".toUTF8.toList

def newYearMembers : List (String × Json (Option Rat)) := [("exp", .unsigned 1735689600)]

theorem written_exp_told_newYear :
    TellsTimeAfter (singleDocument exactDoubles (.object newYearMembers) newYear) exactDoubles {}
      ((JwtParts.ofText newYear).token true) 1704067200000 1735689600 := by
  have hparse : (singleDocument exactDoubles (.object newYearMembers) newYear).parse newYear =
      .ok (.object newYearMembers) := if_pos rfl
  have hpayload : (JwtParts.ofText newYear).payload = Base64.encodeUrl newYear := rfl
  have htold := written_exp_told_iff _ exactDoubles {} true 1704067200000 hparse
    (Or.inl ⟨1735689600, rfl, rfl⟩) (by decide) hpayload
  have hletters : (JwtParts.ofText newYear).payload = "eyJleHAiOjE3MzU2ODk2MDB9".toList := by decide +kernel
  rw [hletters] at htold
  exact (htold.2 (by decide) (by decide)).mpr (Or.inl ⟨by decide, 0, rfl⟩)

/-- A question mark makes an underscore. -/
def questionText : QByteArray := "\x7b\"exp\":1735689600,\"n\":\"?\"\x7d".toUTF8.toList

def questionMembers : List (String × Json (Option Rat)) :=
  [("exp", .unsigned 1735689600), ("n", .string "?")]

/-- The first second of 2100, which no `int` holds. -/
def centuryText : QByteArray := "\x7b\"exp\":4102444800\x7d".toUTF8.toList

def centuryMembers : List (String × Json (Option Rat)) := [("exp", .unsigned 4102444800)]

theorem written_exp_not_told :
    ¬ TellsTimeAfter (singleDocument exactDoubles (.object questionMembers) questionText) exactDoubles {}
        ((JwtParts.ofText questionText).token false) 1704067200000 1735689600 ∧
      ¬ TellsTimeAfter (singleDocument exactDoubles (.object centuryMembers) centuryText) exactDoubles {}
        ((JwtParts.ofText centuryText).token false) 1704067200000 4102444800 := by
  have hnotStored : ∀ exp, ¬ EndsAt ({} : TokenManager (Option Rat)).mExpiresIn 1704067200000 exp := by
    intro exp hends
    exact absurd hends.1 (by decide)
  constructor
  · -- the decoded bytes are no document, so the payload is empty
    have hread : readPayload (singleDocument exactDoubles (.object questionMembers) questionText)
        (JwtParts.ofText questionText).payload = .ok [] := by
      have hother : ¬ Base64.decode (JwtParts.ofText questionText).payload = questionText := by decide +kernel
      rw [readPayload, singleDocument]
      simp only [if_neg hother]
    rw [tellsTimeAfter_of_ok _ exactDoubles hread (by decide)]
    rintro (⟨hexp, -⟩ | ⟨-, hends⟩)
    · cases hexp
    · exact hnotStored _ hends
  · -- the time wraps to a negative one
    have hread : readPayload (singleDocument exactDoubles (.object centuryMembers) centuryText)
        (JwtParts.ofText centuryText).payload = .ok centuryMembers := by
      have hsame : Base64.decode (JwtParts.ofText centuryText).payload = centuryText := by decide +kernel
      rw [readPayload, hsame, singleDocument]
      simp only [if_true]
      rfl
    rw [tellsTimeAfter_of_ok _ exactDoubles hread (by decide)]
    rintro (⟨hexp, -⟩ | ⟨-, hends⟩)
    · exact absurd (Except.ok.inj hexp) (by decide)
    · exact hnotStored _ hends

end TokenManager

end SoulCoreKit.Auth
