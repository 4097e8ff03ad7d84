import SoulCoreKit.Lib.Base64
import SoulCoreKit.Utils.JsonHelper

/-!
# Serialized RPC values

`sc::rpc::JsonSerializer`. The outer `Except` of `deserializeValue` has the exceptions that leave the
function, the inner one its result.
-/

namespace SoulCoreKit.Rpc

open JsonHelper

inductive RpcValue (Double : Type) where
  | monostate
  | int64 (number : Int64)
  | double (number : Double)
  | bool (value : Bool)
  | string (text : QString)
  | bytes (data : QByteArray)
  deriving DecidableEq

namespace JsonSerializer

variable {Double : Type}

/-- The tag and the value of the object that is written. -/
def typeAndValue : RpcValue Double → String × Json Double
  | .monostate => ("null", .null)
  | .int64 number => ("int64", .integer number)
  | .double number => ("double", .float number)
  | .bool value => ("bool", .boolean value)
  | .string text => ("string", .string (toStdString text))
  | .bytes data => ("bytes", .string (String.ofList (Base64.encode data)))

def toObject (value : RpcValue Double) : Json Double :=
  let (type, content) := typeAndValue value
  .object (assign (assign [] "type" (.string type)) "value" content)

def serializeValue (library : JsonLibrary Double) (value : RpcValue Double) : QByteArray :=
  library.dump (toObject value)

/-- `json::value("type", "")`. -/
def typeOf (members : List (String × Json Double)) : Except JsonException String :=
  match members.lookup "type" with
  | none => .ok ""
  | some (.string text) => .ok text
  | some _ => .error .type_error

/-- `json::get<int64_t>`, which takes any number. -/
def getInt64 (ops : DoubleOps Double) : Json Double → Except JsonException Int64
  | .integer number => .ok number
  | .unsigned number => .ok number.toInt64
  | .float number => .ok (ops.toInt64 number)
  | _ => .error .type_error

/-- `json::get<double>`. -/
def getDouble (ops : DoubleOps Double) : Json Double → Except JsonException Double
  | .integer number => .ok (ops.ofInt number.toInt)
  | .unsigned number => .ok (ops.ofInt number.toNat)
  | .float number => .ok number
  | _ => .error .type_error

/-- `json::get<bool>`. -/
def getBool : Json Double → Except JsonException Bool
  | .boolean value => .ok value
  | _ => .error .type_error

/-- `json::get<std::string>`. -/
def getString : Json Double → Except JsonException String
  | .string text => .ok text
  | _ => .error .type_error

/-- The value that a tag and a value stand for. -/
def ofTypeAndValue (ops : DoubleOps Double) (type : String) (content : Json Double) :
    Except JsonException (Result (RpcValue Double)) :=
  if type = "null" then .ok (.ok .monostate)
  else if type = "int64" then do
    let number ← getInt64 ops content
    return .ok (.int64 number)
  else if type = "double" then do
    let number ← getDouble ops content
    return .ok (.double number)
  else if type = "bool" then do
    let value ← getBool content
    return .ok (.bool value)
  else if type = "string" then do
    let text ← getString content
    return .ok (.string (fromStdString text))
  else if type = "bytes" then do
    let text ← getString content
    return .ok (.bytes (Base64.decode text.toList))
  else
    .ok (.error { code := .deserializationError,
                  message := "Unknown RpcValue type: " ++ toStdString (fromStdString type) })

def deserializeValue (library : JsonLibrary Double) (ops : DoubleOps Double) (data : QByteArray) :
    Except JsonException (Result (RpcValue Double)) := do
  match ← deserialize library data with
  | .error error => return .error error
  | .ok (.object members) =>
      let type ← typeOf members
      ofTypeAndValue ops type ((members.lookup "value").getD .null)
  | .ok _ =>
      return .error { code := .deserializationError,
                      message := "Expected JSON object for RpcValue" }

end JsonSerializer

end SoulCoreKit.Rpc
