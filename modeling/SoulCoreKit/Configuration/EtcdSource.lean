import SoulCoreKit.Configuration.Config
import SoulCoreKit.Lib.Base64

/-!
# The etcd source

`EtcdConfigSource::publishConfig` and `fetchConfig` over an etcd server. The server keeps values by key
and answers a range request with the keys from `key` up to `range_end`, in the order of their bytes. The
bodies of requests and responses are JSON values: what the one side serializes the other side parses.
The answer to a request may be lost, before or after the server has acted on it, and a request that
times out is taken for its answer as far as that has arrived.
-/

namespace SoulCoreKit.Configuration

variable {Double : Type}

/-- `toUtf8`. -/
def toUtf8 (text : QString) : List UInt8 := text.flatMap String.utf8EncodeChar

/-- `length` of a `QString`: the number of UTF-16 code units. -/
def utf16Length (text : QString) : Nat :=
  (text.map fun c => if c.toNat < 0x10000 then 1 else 2).sum

namespace Json

/-- `find` in an object. -/
def find (key : String) (members : List (QString × Json Double)) : Option (Json Double) :=
  members.lookup key.toList

/-- `json::getString`. -/
def getString (key : String) (members : List (QString × Json Double)) : QString :=
  match find key members with
  | some (.string text) => text
  | _ => []

/-- `json::getArray`. -/
def getArray (key : String) (members : List (QString × Json Double)) : List (Json Double) :=
  match find key members with
  | some (.array elements) => elements
  | _ => []

end Json

/-! ### The server -/

/-- The keys are distinct; `header` is what it puts in front of its answers. -/
structure Etcd (Double : Type) where
  entries : List (List UInt8 × List UInt8) := []
  header : Json Double := .object []

namespace Etcd

/-- The keys a range request asks for. -/
def inRange (key rangeEnd stored : List UInt8) : Bool :=
  if rangeEnd = [] then stored = key
  else if rangeEnd = [0] then ¬ stored < key
  else ¬ stored < key ∧ stored < rangeEnd

def store (etcd : Etcd Double) (key value : List UInt8) : Etcd Double :=
  { etcd with entries := (key, value) :: etcd.entries.filter fun entry => entry.1 ≠ key }

def kvOf (entry : List UInt8 × List UInt8) : Json Double :=
  .object [("key".toList, .string (Base64.encode entry.1)),
    ("value".toList, .string (Base64.encode entry.2))]

/-- `POST /v3/kv/put`; a request without a key is answered with an error. -/
def put (etcd : Etcd Double) : Json Double → Option (Json Double) × Etcd Double
  | .object members =>
      match Base64.decode (Json.getString "key" members) with
      | [] => (none, etcd)
      | key =>
          (some (.object [("header".toList, etcd.header)]),
            etcd.store key (Base64.decode (Json.getString "value" members)))
  | _ => (none, etcd)

/-- `POST /v3/kv/range`; there is no `kvs` in the answer when no key is in the range. -/
def range (etcd : Etcd Double) : Json Double → Option (Json Double) × Etcd Double
  | .object members =>
      match Base64.decode (Json.getString "key" members) with
      | [] => (none, etcd)
      | key =>
          let found := (etcd.entries.filter fun entry =>
            inRange key (Base64.decode (Json.getString "range_end" members)) entry.1).mergeSort
              fun a b => ¬ b.1 < a.1
          (some (.object (("header".toList, etcd.header) ::
            if found = [] then [] else [("kvs".toList, .array (found.map kvOf))])), etcd)
  | _ => (none, etcd)

end Etcd

/-! ### The source -/

/-- What becomes of a request on the network. -/
inductive Delivery where
  | lost
  | unanswered
  | truncated
  | answered
  deriving DecidableEq, Repr

/-- What `syncPost` returns, told apart as its callers do. -/
inductive Response (Double : Type) where
  | empty
  | malformed
  | json (body : Json Double)

namespace EtcdConfigSource

def syncPost (delivery : Delivery) (etcd : Etcd Double)
    (serve : Etcd Double → Json Double → Option (Json Double) × Etcd Double) (body : Json Double) :
    Response Double × Etcd Double :=
  match delivery, serve etcd body with
  | .lost, _ => (.empty, etcd)
  | .unanswered, (_, etcd) => (.empty, etcd)
  | _, (none, etcd) => (.empty, etcd)
  | .truncated, (some _, etcd) => (.malformed, etcd)
  | .answered, (some response, etcd) => (.json response, etcd)

def encodeBase64 (data : List UInt8) : QString := Base64.encode data

def decodeBase64 (data : QString) : List UInt8 := Base64.decode data

section Requests

variable (lib : JsonLibrary Double (List UInt8)) (delivery : Delivery) (etcd : Etcd Double)
  (namespaceName : QString)

/-- The key that `fetchConfig` asks for. -/
def fetchKey : QString := "/config/".toList ++ namespaceName ++ "/".toList

/-- The end of the range it asks for. -/
def fetchRangeEnd : List UInt8 :=
  ((toUtf8 (fetchKey namespaceName)).take (utf16Length (fetchKey namespaceName) - 1) ++ [0]).take
    (utf16Length (fetchKey namespaceName))

def fetchRequest : Json Double :=
  .object [("key".toList, .string (encodeBase64 (toUtf8 (fetchKey namespaceName)))),
    ("range_end".toList, .string (encodeBase64 (fetchRangeEnd namespaceName)))]

def fetchConfig : Result (Json Double) :=
  match (syncPost delivery etcd Etcd.range (fetchRequest namespaceName)).1 with
  | .empty => .error ⟨.notFound, "Etcd config not found: " ++ String.ofList namespaceName⟩
  | .malformed =>
      .error ⟨.parseError, "Etcd response parse error for: " ++ String.ofList namespaceName⟩
  | .json (.object members) =>
      match Json.getArray "kvs" members with
      | [] => .error ⟨.notFound, "Etcd config not found: " ++ String.ofList namespaceName⟩
      | .object firstKv :: _ =>
          match lib.parse (decodeBase64 (Json.getString "value" firstKv)) with
          | .ok (.object valueJson) => .ok (.object valueJson)
          | _ => .error ⟨.parseError, "Etcd config value is not valid JSON"⟩
      | _ :: _ => .error ⟨.parseError, "Etcd config kv entry is not a JSON object"⟩
  | .json _ =>
      .error ⟨.parseError, "Etcd response is not a JSON object for: " ++ String.ofList namespaceName⟩

/-- The key that `publishConfig` writes. -/
def publishKey : QString := "/config/".toList ++ namespaceName

def publishRequest (config : Json Double) : Json Double :=
  .object [("key".toList, .string (encodeBase64 (toUtf8 (publishKey namespaceName)))),
    ("value".toList, .string (encodeBase64 (toUtf8 (lib.dump config))))]

def publishConfig (endpoints : QString) (config : Json Double) : Result Unit × Etcd Double :=
  match syncPost delivery etcd Etcd.put (publishRequest lib namespaceName config) with
  | (.empty, etcd) => (.error ⟨.networkError, "Etcd publish failed: " ++ String.ofList endpoints⟩, etcd)
  | (_, etcd) => (.ok (), etcd)

end Requests

end EtcdConfigSource

end SoulCoreKit.Configuration
