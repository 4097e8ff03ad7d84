import SoulCoreKit.Lib.Base64
import SoulCoreKit.Utils.JsonHelper

/-!
# The token manager

`sc::TokenManager`: what it reads out of a token when it is set, and how it tells that the token is expired.
Texts are lists of characters. The JSON library is a parameter, its exceptions leave the functions, and what
was assigned before that stays. Times are milliseconds.
-/

namespace SoulCoreKit.Auth

open JsonHelper Unicode

/-- `Time::toSeconds`. -/
def toSeconds (time : Int) : Int := time.tdiv 1000

/-- `static_cast<int>`. -/
def castInt (n : Int) : Int := n.bmod (2 ^ 32)

/-- `json.value(key, 0)` on an object. The literal is an `int`, so an `int` is read. The cast of a double that
no `int` is near to is undefined. -/
def valueInt {Double : Type} (ops : DoubleOps Double) (members : List (String × Json Double)) (key : String) :
    Except JsonException Int :=
  match members.lookup key with
  | none => .ok 0
  | some (.unsigned number) => .ok (castInt number.toNat)
  | some (.integer number) => .ok (castInt number.toInt)
  | some (.float number) => .ok (castInt (ops.toInt64 number).toInt)
  | some (.boolean value) => .ok (if value then 1 else 0)
  | some _ => .error .type_error

/-- The payload is always an object. -/
structure TokenManager (Double : Type) where
  mToken : List Char := []
  mExpiresIn : Int := 0
  mTokenIssueTime : Int := 0
  mJwtPayload : List (String × Json Double) := []

namespace TokenManager

variable {Double : Type} (library : JsonLibrary Double) (ops : DoubleOps Double)

def setExpiresIn (m : TokenManager Double) (expiresIn : Int) : TokenManager Double :=
  { m with mExpiresIn := expiresIn }

/-- `while (payloadB64.size() % 4 != 0)`; three passes are enough. -/
def pad (payloadB64 : List Char) : List Char :=
  payloadB64 ++ List.replicate ((4 - (utf16 payloadB64).length % 4) % 4) '='

/-- No byte of a character outside ASCII is in the alphabet, so these characters are skipped as the others. -/
def parseJwtPayload (m : TokenManager Double) : Except JsonException (List (String × Json Double)) :=
  let token := if "Bearer ".toList.isPrefixOf m.mToken then m.mToken.drop 7 else m.mToken
  match token.splitOn '.' with
  | [_, payloadB64, _] =>
      match deserialize library (Base64.decode (pad payloadB64)) with
      | .ok (.ok (.object members)) => .ok members
      | .ok _ => .ok []
      | .error exception => .error exception
  | _ => .ok []

/-- The second half of `doParseJwtPayload`. -/
def readTimes (m : TokenManager Double) : Except JsonException Unit × TokenManager Double :=
  if m.mJwtPayload.isEmpty then (.ok (), m)
  else
    match valueInt ops m.mJwtPayload "exp" with
    | .error exception => (.error exception, m)
    | .ok exp =>
        if exp > 0 then
          match valueInt ops m.mJwtPayload "iat" with
          | .error exception => (.error exception, m)
          | .ok iat =>
              if iat > 0 then
                (.ok (), { m with mExpiresIn := castInt (exp - iat), mTokenIssueTime := iat * 1000 })
              else (.ok (), m)
        else (.ok (), m)

def doParseJwtPayload (m : TokenManager Double) : Except JsonException Unit × TokenManager Double :=
  match m.parseJwtPayload library with
  | .error exception => (.error exception, m)
  | .ok payload => { m with mJwtPayload := payload }.readTimes ops

def setToken (m : TokenManager Double) (token : List Char) (now : Int) :
    Except JsonException Unit × TokenManager Double :=
  { m with mToken := token, mTokenIssueTime := now }.doParseJwtPayload library ops

/-- The member `exp` of the payload, and 0 where there is none. -/
def payloadExp (m : TokenManager Double) : Except JsonException Int :=
  if m.mJwtPayload.isEmpty then .ok 0 else valueInt ops m.mJwtPayload "exp"

def isTokenExpired (m : TokenManager Double) (now : Int) : Except JsonException Bool :=
  (m.payloadExp ops).map fun exp =>
    if exp > 0 then decide (toSeconds now ≥ exp)
    else if m.mExpiresIn ≤ 0 ∨ m.mTokenIssueTime = 0 then false
    else decide (now ≥ m.mTokenIssueTime + m.mExpiresIn * 1000)

def isTokenAboutToExpire (m : TokenManager Double) (thresholdSeconds now : Int) :
    Except JsonException Bool :=
  (m.payloadExp ops).map fun exp =>
    if exp > 0 then decide (exp - toSeconds now ≤ thresholdSeconds)
    else if m.mExpiresIn ≤ 0 ∨ m.mTokenIssueTime = 0 then false
    else decide (m.mTokenIssueTime + m.mExpiresIn * 1000 - now ≤ thresholdSeconds * 1000)

end TokenManager

end SoulCoreKit.Auth
