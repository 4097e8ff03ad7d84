import SoulCoreKit.Proof.TextConversion
import SoulCoreKit.Rpc.JsonSerializer

/-!
# What comes back of an RPC value

A value comes back exactly if its double is finite and its text survives, and never as an error result: a
double that is not finite ends in an exception, a text in another text. Of any bytes the outcome is a result
unless a number is out of range or the tag does not go with the value.
-/

namespace SoulCoreKit.Rpc.JsonSerializer

open JsonHelper

variable {Double : Type} {library : JsonLibrary Double} {ops : DoubleOps Double}

/-! ### Values that are written -/

/-- The double is finite, or the text survives. -/
def Representable (ops : DoubleOps Double) : RpcValue Double → Prop
  | .double number => ops.isFinite number = true
  | .string text => Faithful text
  | _ => True

theorem deserializeValue_serializeValue {value : RpcValue Double}
    (hundoes : library.Undoes ops (toObject value)) :
    deserializeValue library ops (serializeValue library value) =
      ofTypeAndValue ops (typeAndValue value).1 ((typeAndValue value).2.read ops) := by
  have hmembers : (toObject value).read ops =
      .object [("type", .string (typeAndValue value).1), ("value", (typeAndValue value).2.read ops)] := by
    have hless : MapKey.less "value" "type" = false := by decide
    simp [toObject, assign, hless, Json.read, readMembers]
  unfold deserializeValue deserialize serializeValue
  rw [hundoes.1, hmembers]
  rfl

theorem ofTypeAndValue_double (number : Double) :
    ofTypeAndValue ops "double" (Json.read ops (.float number)) =
      if ops.isFinite number then .ok (.ok (.double number)) else .error .type_error := by
  cases hfinite : ops.isFinite number with
  | true => simp [ofTypeAndValue, Json.read, hfinite, getDouble, pure, Except.pure, bind, Except.bind]
  | false => simp [ofTypeAndValue, Json.read, hfinite, getDouble, bind, Except.bind]

theorem ofTypeAndValue_int64 (number : Int64) :
    ofTypeAndValue ops "int64" (Json.read ops (.integer number)) = .ok (.ok (.int64 number)) := by
  unfold Json.read
  split_ifs
  · simp [ofTypeAndValue, getInt64, pure, Except.pure, bind, Except.bind]
  · simp [ofTypeAndValue, getInt64, pure, Except.pure, bind, Except.bind]

/-- A written value comes back exactly if it is representable, and no error result does. -/
theorem deserializeValue_written {value : RpcValue Double}
    (hundoes : library.Undoes ops (toObject value)) :
    (deserializeValue library ops (serializeValue library value) = .ok (.ok value) ↔
        Representable ops value) ∧
      ∀ error, deserializeValue library ops (serializeValue library value) ≠ .ok (.error error) := by
  rw [deserializeValue_serializeValue hundoes]
  cases value with
  | monostate => exact ⟨iff_of_true rfl trivial, fun _ heq => by cases heq⟩
  | int64 number =>
      rw [typeAndValue, ofTypeAndValue_int64]
      exact ⟨iff_of_true rfl trivial, fun _ heq => by cases heq⟩
  | double number =>
      rw [typeAndValue, ofTypeAndValue_double]
      simp only [Representable]
      cases ops.isFinite number with
      | true => simp
      | false => simp
  | bool flag => exact ⟨iff_of_true rfl trivial, fun _ heq => by cases heq⟩
  | string text =>
      have hread : ofTypeAndValue ops "string" (Json.read ops (.string (toStdString text))) =
          .ok (.ok (.string (fromStdString (toStdString text)))) := rfl
      rw [typeAndValue, hread]
      simp [Representable, fromStdString_toStdString_iff]
  | bytes data =>
      have hread : ofTypeAndValue ops "bytes"
          (Json.read ops (.string (String.ofList (Base64.encode data)))) = .ok (.ok (.bytes data)) := by
        simp [ofTypeAndValue, Json.read, getString, Base64.decode_encode, pure, Except.pure, bind,
          Except.bind]
      rw [typeAndValue, hread]
      exact ⟨iff_of_true rfl trivial, fun _ heq => by cases heq⟩

/-! ### Bytes from anywhere -/

def isNumber : Json Double → Bool
  | .integer _ => true
  | .unsigned _ => true
  | .float _ => true
  | _ => false

def isBoolean : Json Double → Bool
  | .boolean _ => true
  | _ => false

def isString : Json Double → Bool
  | .string _ => true
  | _ => false

/-- The value has the type that a tag asks for. -/
def HasType (type : String) (content : Json Double) : Prop :=
  (type = "int64" ∨ type = "double" → isNumber content = true) ∧
    (type = "bool" → isBoolean content = true) ∧
    (type = "string" ∨ type = "bytes" → isString content = true)

/-- What the library has read is no number out of range, and where it is an object, the tag is missing or a
text whose type the value has. -/
def WellTyped : Except JsonException (Json Double) → Prop
  | .error exception => ∃ what, exception = .parse_error what
  | .ok (.object members) =>
      ∀ tag, members.lookup "type" = some tag →
        ∃ type, tag = .string type ∧ HasType type ((members.lookup "value").getD .null)
  | .ok _ => True

theorem getInt64_ok_iff (content : Json Double) :
    (∃ number, getInt64 ops content = .ok number) ↔ isNumber content = true := by
  cases content <;> simp [getInt64, isNumber]

theorem getDouble_ok_iff (content : Json Double) :
    (∃ number, getDouble ops content = .ok number) ↔ isNumber content = true := by
  cases content <;> simp [getDouble, isNumber]

theorem getBool_ok_iff (content : Json Double) :
    (∃ flag, getBool content = .ok flag) ↔ isBoolean content = true := by
  cases content <;> simp [getBool, isBoolean]

theorem getString_ok_iff (content : Json Double) :
    (∃ text, getString content = .ok text) ↔ isString content = true := by
  cases content <;> simp [getString, isString]

theorem bind_pure_ok_iff {A B : Type} (x : Except JsonException A) (f : A → B) :
    (∃ result, (x >>= fun a => pure (f a)) = .ok result) ↔ ∃ a, x = .ok a := by
  cases x <;> simp [bind, Except.bind, pure, Except.pure]

theorem ofTypeAndValue_ok_iff (type : String) (content : Json Double) :
    (∃ result, ofTypeAndValue ops type content = .ok result) ↔ HasType type content := by
  unfold ofTypeAndValue HasType
  by_cases hnull : type = "null"
  · simp [hnull]
  rw [if_neg hnull]
  by_cases hint64 : type = "int64"
  · rw [if_pos hint64, bind_pure_ok_iff, getInt64_ok_iff]
    simp [hint64]
  rw [if_neg hint64]
  by_cases hdouble : type = "double"
  · rw [if_pos hdouble, bind_pure_ok_iff, getDouble_ok_iff]
    simp [hdouble]
  rw [if_neg hdouble]
  by_cases hbool : type = "bool"
  · rw [if_pos hbool, bind_pure_ok_iff, getBool_ok_iff]
    simp [hbool]
  rw [if_neg hbool]
  by_cases hstring : type = "string"
  · rw [if_pos hstring, bind_pure_ok_iff, getString_ok_iff]
    simp [hstring]
  rw [if_neg hstring]
  by_cases hbytes : type = "bytes"
  · rw [if_pos hbytes, bind_pure_ok_iff, getString_ok_iff]
    simp [hbytes]
  rw [if_neg hbytes]
  simp [hint64, hdouble, hbool, hstring, hbytes]

theorem ofMembers_ok_iff (members : List (String × Json Double)) (content : Json Double) :
    (∃ result, (typeOf members >>= fun type => ofTypeAndValue ops type content) = .ok result) ↔
      ∀ tag, members.lookup "type" = some tag → ∃ type, tag = .string type ∧ HasType type content := by
  unfold typeOf
  cases htag : members.lookup "type" with
  | none => simp [bind, Except.bind, ofTypeAndValue]
  | some tag =>
      cases tag with
      | string text => simpa [bind, Except.bind] using ofTypeAndValue_ok_iff text content
      | _ => simp [bind, Except.bind]

theorem deserializeValue_ok_iff (data : QByteArray) :
    (∃ result, deserializeValue library ops data = .ok result) ↔ WellTyped (library.parse data) := by
  unfold deserializeValue deserialize
  cases library.parse data with
  | error exception =>
      cases exception <;> simp [WellTyped, bind, Except.bind, pure, Except.pure]
  | ok document =>
      cases document with
      | object members => exact ofMembers_ok_iff members _
      | _ => simp [WellTyped, bind, Except.bind, pure, Except.pure]

/-- A value comes back, or an error result in its place, exactly if it is representable, and then it is the
value that comes back; and no exception leaves the reader exactly if what the library has read is well
typed. -/
theorem deserializeValue_contract :
    (∀ value, library.Undoes ops (toObject value) →
      ((deserializeValue library ops (serializeValue library value) = .ok (.ok value) ∨
          ∃ error, deserializeValue library ops (serializeValue library value) = .ok (.error error)) ↔
        Representable ops value)) ∧
      ∀ data, (∃ result, deserializeValue library ops data = .ok result) ↔
        WellTyped (library.parse data) := by
  refine ⟨?_, deserializeValue_ok_iff⟩
  intro value hundoes
  obtain ⟨hback, hnoError⟩ := deserializeValue_written hundoes
  rw [← hback, or_iff_left]
  rintro ⟨error, herror⟩
  exact hnoError error herror

/-- The number 42, as the library writes it. -/
def answer : JsonLibrary (Option Rat) :=
  singleDocument exactDoubles (toObject (.int64 42))
    "\x7b\"type\":\"int64\",\"value\":42\x7d".toUTF8.toList

theorem deserializeValue_contract_answer :
    deserializeValue answer exactDoubles (serializeValue answer (.int64 42)) =
        .ok (.ok (.int64 42)) ∨
      ∃ error, deserializeValue answer exactDoubles (serializeValue answer (.int64 42)) =
        .ok (.error error) :=
  (deserializeValue_contract.1 (.int64 42) (singleDocument_undoes _ _ _)).mpr trivial

/-- A double that is not a number, which the library writes as null. -/
def notANumber : JsonLibrary (Option Rat) :=
  singleDocument exactDoubles (toObject (.double none))
    "\x7b\"type\":\"double\",\"value\":null\x7d".toUTF8.toList

theorem not_returned_notANumber :
    notANumber.Undoes exactDoubles (toObject (.double none)) ∧
      ¬∃ result, deserializeValue notANumber exactDoubles
        (serializeValue notANumber (.double none)) = .ok result := by
  have hundoes : notANumber.Undoes exactDoubles (toObject (.double none)) :=
    singleDocument_undoes _ _ _
  refine ⟨hundoes, ?_⟩
  rw [deserializeValue_serializeValue hundoes, ofTypeAndValue_ok_iff]
  rintro ⟨hnumber, -⟩
  exact absurd (hnumber (.inr rfl)) (by simp [typeAndValue, Json.read, exactDoubles,
    DoubleOps.isFinite, isNumber])

end SoulCoreKit.Rpc.JsonSerializer
