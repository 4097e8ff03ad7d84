import SoulCoreKit.Core.Result
import SoulCoreKit.Lib.Unicode

/-!
# JSON and Qt texts

`sc::json` over the JSON library, which is not part of the repository: how it writes and reads documents is
a parameter. Its strings are UTF-8, which it checks where it reads and writes them, so here they are texts. A
`QString` is its code units and a double of any type with the operations that the code uses.
-/

namespace SoulCoreKit.JsonHelper

open Unicode

abbrev QByteArray := List UInt8

abbrev QString := List UInt16

/-- `QString::fromUtf8`, which takes a byte order mark for no part of the text. -/
def fromUtf8 (bytes : QByteArray) : QString :=
  utf16 (ofUtf8 '\uFFFD' (if [0xEF, 0xBB, 0xBF].isPrefixOf bytes then bytes.drop 3 else bytes))

/-- `QString::toStdString`: a surrogate without its other half becomes a question mark. -/
def toStdString (text : QString) : String := String.ofList (ofUtf16 '?' text)

def toUtf8 (text : QString) : QByteArray := utf8 (ofUtf16 '?' text)

def fromStdString (text : String) : QString := fromUtf8 (utf8 text.toList)

/-- The operations on doubles: `value` is the number that a finite double stands for. -/
structure DoubleOps (Double : Type) where
  value : Double → Option Rat
  ofInt : Int → Double
  toInt64 : Double → Int64
  /-- The integer that a `QJsonValue` holds in place of a double. -/
  asInteger : Double → Option Int64

def DoubleOps.isFinite {Double : Type} (ops : DoubleOps Double) (x : Double) : Bool :=
  (ops.value x).isSome

/-- `nlohmann::json`; the members of an object are in the order of their keys. -/
inductive Json (Double : Type) where
  | null
  | boolean (value : Bool)
  | integer (number : Int64)
  | unsigned (number : UInt64)
  | float (number : Double)
  | string (text : String)
  | array (elements : List (Json Double))
  | object (members : List (String × Json Double))

/-- The exceptions of the JSON library. -/
inductive JsonException where
  | parse_error (what : String)
  | out_of_range
  | type_error
  deriving DecidableEq, Repr

/-- `dump()`, `dump(2)` and `parse` of the JSON library. -/
structure JsonLibrary (Double : Type) where
  dump : Json Double → QByteArray
  dumpPretty : Json Double → QByteArray
  parse : QByteArray → Except JsonException (Json Double)

variable {Double : Type}

/-- The keys of a map, which compares them by their units. -/
class MapKey (K : Type) where
  units : K → List Nat

instance : MapKey String where
  units key := (utf8 key.toList).map UInt8.toNat

instance : MapKey QString where
  units key := key.map UInt16.toNat

def MapKey.less {K : Type} [MapKey K] (key other : K) : Bool :=
  (MapKey.units key).lex (MapKey.units other) Nat.blt

/-- `map[key] = value`, for a map whose entries are in the order of their keys. -/
def assign {K V : Type} [DecidableEq K] [MapKey K] (entries : List (K × V)) (key : K) (value : V) :
    List (K × V) :=
  match entries with
  | [] => [(key, value)]
  | entry :: rest =>
      if key = entry.1 then (key, value) :: rest
      else if MapKey.less key entry.1 then (key, value) :: entry :: rest
      else entry :: assign rest key value

/-- `sc::json::deserialize`: only a parse error becomes an error result. -/
def deserialize (library : JsonLibrary Double) (data : QByteArray) :
    Except JsonException (Result (Json Double)) :=
  match library.parse data with
  | .ok document => .ok (.ok document)
  | .error (.parse_error what) => .ok (.error { code := .deserializationError, message := what })
  | .error exception => .error exception

/-- `sc::json::getString`, without a default. -/
def getString (members : List (String × Json Double)) (key : String) : QString :=
  match members.lookup key with
  | some (.string text) => fromStdString text
  | _ => []

/-! ### Values of Qt -/

/-- `QJsonValue`: a number is an integer or a double. -/
inductive QJsonValue (Double : Type) where
  | null
  | bool (value : Bool)
  | integer (number : Int64)
  | double (number : Double)
  | string (text : QString)
  | array (elements : List (QJsonValue Double))
  | object (members : List (QString × QJsonValue Double))

/-- The values of a `QVariant` that have a form in JSON; `null` is the null pointer. -/
inductive QVariant (Double : Type) where
  | null
  | bool (value : Bool)
  | longLong (number : Int64)
  | double (number : Double)
  | string (text : QString)
  | list (elements : List (QVariant Double))
  | map (members : List (QString × QVariant Double))

/-- The constructor of a `QJsonValue` from a double. -/
def QJsonValue.ofDouble (ops : DoubleOps Double) (number : Double) : QJsonValue Double :=
  match ops.asInteger number with
  | some n => .integer n
  | none => .double number

mutual

/-- `QJsonValue::fromVariant`. -/
def fromVariant (ops : DoubleOps Double) : QVariant Double → QJsonValue Double
  | .null => .null
  | .bool value => .bool value
  | .longLong number => .integer number
  | .double number => if ops.isFinite number then .ofDouble ops number else .null
  | .string text => .string text
  | .list elements => .array (fromVariantList ops elements)
  | .map members => .object (fromVariantMap ops members)

def fromVariantList (ops : DoubleOps Double) : List (QVariant Double) → List (QJsonValue Double)
  | [] => []
  | element :: rest => fromVariant ops element :: fromVariantList ops rest

def fromVariantMap (ops : DoubleOps Double) :
    List (QString × QVariant Double) → List (QString × QJsonValue Double)
  | [] => []
  | (key, value) :: rest => (key, fromVariant ops value) :: fromVariantMap ops rest

end

mutual

/-- `QJsonValue::toVariant`. -/
def toVariant : QJsonValue Double → QVariant Double
  | .null => .null
  | .bool value => .bool value
  | .integer number => .longLong number
  | .double number => .double number
  | .string text => .string text
  | .array elements => .list (toVariantList elements)
  | .object members => .map (toVariantMap members)

def toVariantList : List (QJsonValue Double) → List (QVariant Double)
  | [] => []
  | element :: rest => toVariant element :: toVariantList rest

def toVariantMap : List (QString × QJsonValue Double) → List (QString × QVariant Double)
  | [] => []
  | (key, value) :: rest => (key, toVariant value) :: toVariantMap rest

end

mutual

/-- `sc::json::fromQJsonValue`: every number becomes a double. -/
def fromQJsonValue (ops : DoubleOps Double) : QJsonValue Double → Json Double
  | .null => .null
  | .bool value => .boolean value
  | .integer number => .float (ops.ofInt number.toInt)
  | .double number => .float number
  | .string text => .string (toStdString text)
  | .array elements => .array (fromQJsonArray ops elements)
  | .object members => .object (fromQJsonObject ops [] members)

def fromQJsonArray (ops : DoubleOps Double) : List (QJsonValue Double) → List (Json Double)
  | [] => []
  | element :: rest => fromQJsonValue ops element :: fromQJsonArray ops rest

def fromQJsonObject (ops : DoubleOps Double) (object : List (String × Json Double)) :
    List (QString × QJsonValue Double) → List (String × Json Double)
  | [] => object
  | (key, value) :: rest =>
      fromQJsonObject ops (assign object (toStdString key) (fromQJsonValue ops value)) rest

end

mutual

/-- `sc::json::toQJsonValue`. -/
def toQJsonValue (ops : DoubleOps Double) : Json Double → QJsonValue Double
  | .null => .null
  | .boolean value => .bool value
  | .integer number => .integer number
  | .unsigned number => .integer number.toInt64
  | .float number => .ofDouble ops number
  | .string text => .string (fromStdString text)
  | .array elements => .array (toQJsonArray ops elements)
  | .object members => .object (toQJsonObject ops [] members)

def toQJsonArray (ops : DoubleOps Double) : List (Json Double) → List (QJsonValue Double)
  | [] => []
  | element :: rest => toQJsonValue ops element :: toQJsonArray ops rest

def toQJsonObject (ops : DoubleOps Double) (object : List (QString × QJsonValue Double)) :
    List (String × Json Double) → List (QString × QJsonValue Double)
  | [] => object
  | (key, value) :: rest =>
      toQJsonObject ops (assign object (fromStdString key) (toQJsonValue ops value)) rest

end

/-! ### What the JSON library does -/

mutual

/-- What is read where a document was written: an integer that is not negative is unsigned, and a double
that is not finite has been written as null. -/
def Json.read (ops : DoubleOps Double) : Json Double → Json Double
  | .null => .null
  | .boolean value => .boolean value
  | .integer number => if 0 ≤ number then .unsigned number.toUInt64 else .integer number
  | .unsigned number => .unsigned number
  | .float number => if ops.isFinite number then .float number else .null
  | .string text => .string text
  | .array elements => .array (readElements ops elements)
  | .object members => .object (readMembers ops members)

def readElements (ops : DoubleOps Double) : List (Json Double) → List (Json Double)
  | [] => []
  | element :: rest => element.read ops :: readElements ops rest

def readMembers (ops : DoubleOps Double) :
    List (String × Json Double) → List (String × Json Double)
  | [] => []
  | (key, value) :: rest => (key, value.read ops) :: readMembers ops rest

end

/-- Reading undoes writing, for one document. -/
def JsonLibrary.Undoes (library : JsonLibrary Double) (ops : DoubleOps Double)
    (document : Json Double) : Prop :=
  library.parse (library.dump document) = .ok (document.read ops) ∧
    library.parse (library.dumpPretty document) = .ok (document.read ops)

end SoulCoreKit.JsonHelper

/-! ### The JSON codec

`sc::network::JsonCodec`. The payload of a message is written as a text. What leaves `decode` as an
exception is one of the JSON library. -/

namespace SoulCoreKit.Network

open JsonHelper

/-- What the codec reads and writes of a message. -/
structure NetworkMessage (Double : Type) where
  api : QString := []
  payload : QByteArray := []
  metadata : List (QString × QVariant Double) := []

structure JsonCodec where
  mCompact : Bool := true

namespace JsonCodec

variable {Double : Type}

/-- The loop over the metadata in `encode`. -/
def writeMetadata (ops : DoubleOps Double) (metadata : List (QString × QVariant Double)) :
    List (String × Json Double) :=
  metadata.foldl (fun object entry =>
    assign object (toStdString entry.1) (fromQJsonValue ops (fromVariant ops entry.2))) []

def toObject (ops : DoubleOps Double) (message : NetworkMessage Double) : Json Double :=
  .object (assign (assign (assign [] "api" (.string (toStdString message.api))) "body"
    (.string (toStdString (fromUtf8 message.payload)))) "metadata"
    (.object (writeMetadata ops message.metadata)))

def encode (codec : JsonCodec) (library : JsonLibrary Double) (ops : DoubleOps Double)
    (message : NetworkMessage Double) : QByteArray :=
  if codec.mCompact then library.dump (toObject ops message)
  else library.dumpPretty (toObject ops message)

/-- The loop over the metadata in `decode`. -/
def readMetadata (ops : DoubleOps Double) (members : List (String × Json Double)) :
    List (QString × QVariant Double) :=
  members.foldl (fun metadata entry =>
    assign metadata (fromStdString entry.1) (toVariant (toQJsonValue ops entry.2))) []

def ofMembers (ops : DoubleOps Double) (members : List (String × Json Double)) :
    NetworkMessage Double where
  api := getString members "api"
  payload := toUtf8 (getString members "body")
  metadata :=
    match members.lookup "metadata" with
    | some (.object metaObj) => readMetadata ops metaObj
    | _ => []

def decode (library : JsonLibrary Double) (ops : DoubleOps Double) (data : QByteArray) :
    Except JsonException (NetworkMessage Double) := do
  match ← deserialize library data with
  | .ok (.object members) => return ofMembers ops members
  | _ => return {}

end JsonCodec

end SoulCoreKit.Network
