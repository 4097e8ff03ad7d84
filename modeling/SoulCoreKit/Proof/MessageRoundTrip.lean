import SoulCoreKit.Utils.JsonHelper
import SoulCoreKit.Proof.VariantRoundTrip

/-!
# Messages that survive

What `decode` makes of an encoded message does not depend on the mode. The payload goes through two texts,
first as UTF-8 and then as a `std::string`, and each loses a byte order mark at its front.
-/

namespace SoulCoreKit.Network.JsonCodec

open JsonHelper Unicode

variable {Double : Type} {ops : DoubleOps Double}

/-! ### What is read -/

/-- The message that comes back. -/
def throughCodec (ops : DoubleOps Double) (message : NetworkMessage Double) : NetworkMessage Double where
  api := throughStdString message.api
  payload := toUtf8 (throughStdString (fromUtf8 message.payload))
  metadata := mapThroughDocument ops message.metadata

theorem readMetadata_writeMetadata (metadata : List (QString × QVariant Double)) :
    readMetadata ops (readMembers ops (writeMetadata ops metadata)) = mapThroughDocument ops metadata := by
  rw [readMembers_eq, readMetadata]
  exact List.foldl_map

theorem read_toObject (message : NetworkMessage Double) :
    (toObject ops message).read ops = .object
      [("api", .string (toStdString message.api)),
        ("body", .string (toStdString (fromUtf8 message.payload))),
        ("metadata", .object (readMembers ops (writeMetadata ops message.metadata)))] := by
  have hbody : MapKey.less "body" "api" = false := by decide
  have hmetadata : MapKey.less "metadata" "api" = false ∧ MapKey.less "metadata" "body" = false := by
    decide
  simp [toObject, assign, hbody, hmetadata, Json.read, readMembers]

theorem ofMembers_written (message : NetworkMessage Double) :
    ofMembers ops
      [("api", .string (toStdString message.api)),
        ("body", .string (toStdString (fromUtf8 message.payload))),
        ("metadata", .object (readMembers ops (writeMetadata ops message.metadata)))] =
      throughCodec ops message := by
  simp [ofMembers, throughCodec, getString, lookup_entry_cons, throughStdString, readMetadata_writeMetadata]

theorem decode_encode (codec : JsonCodec) {library : JsonLibrary Double}
    {message : NetworkMessage Double} (hlibrary : library.Undoes ops (toObject ops message)) :
    decode library ops (codec.encode library ops message) = .ok (throughCodec ops message) := by
  have hparse : library.parse (codec.encode library ops message) =
      .ok ((toObject ops message).read ops) := by
    unfold encode
    cases codec.mCompact
    · exact hlibrary.2
    · exact hlibrary.1
  rw [decode, deserialize, hparse, read_toObject, ← ofMembers_written]
  rfl

/-! ### The payload -/

/-- UTF-8 that does not begin with a byte order mark. -/
def FaithfulBytes (payload : QByteArray) : Prop :=
  ∃ characters, payload = utf8 characters ∧ characters.head? ≠ some byteOrderMark

theorem length_dropMark_le (text : List Char) : (dropMark text).length ≤ text.length := by
  by_cases hmark : text.head? = some byteOrderMark
  · exact (length_dropMark_lt hmark).le
  · rw [dropMark_eq_self hmark]

theorem toUtf8_through (payload : QByteArray) :
    toUtf8 (throughStdString (fromUtf8 payload)) =
      utf8 (dropMark (dropMark (ofUtf8 '\uFFFD' payload))) := by
  rw [throughStdString, fromStdString_eq, toStdString, String.toList_ofList, fromUtf8_eq,
    ofUtf16_utf16, toUtf8, ofUtf16_utf16]

theorem payload_iff (payload : QByteArray) :
    toUtf8 (throughStdString (fromUtf8 payload)) = payload ↔ FaithfulBytes payload := by
  rw [toUtf8_through]
  constructor
  · intro hback
    have htext := congrArg (ofUtf8 '\uFFFD') hback
    rw [ofUtf8_utf8] at htext
    have hmark : (ofUtf8 '\uFFFD' payload).head? ≠ some byteOrderMark := by
      intro hmark
      have hlt := length_dropMark_lt hmark
      have hle := length_dropMark_le (dropMark (ofUtf8 '\uFFFD' payload))
      rw [htext] at hle
      exact absurd hle (Nat.not_le.mpr hlt)
    refine ⟨_, ?_, hmark⟩
    rw [dropMark_eq_self hmark, dropMark_eq_self hmark] at hback
    exact hback.symm
  · rintro ⟨characters, rfl, hmark⟩
    rw [ofUtf8_utf8, dropMark_eq_self hmark, dropMark_eq_self hmark]

/-! ### Round trips -/

/-- The received message says what the sent one does. -/
structure Restores (ops : DoubleOps Double) (sent received : NetworkMessage Double) : Prop where
  api : received.api = sent.api
  payload : received.payload = sent.payload
  metadata : meaningMap ops received.metadata = meaningMap ops sent.metadata

def RoundTrips (codec : JsonCodec) (library : JsonLibrary Double) (ops : DoubleOps Double)
    (message : NetworkMessage Double) : Prop :=
  ∃ received, decode library ops (codec.encode library ops message) = .ok received ∧
    Restores ops message received

theorem restores_throughCodec_iff {message : NetworkMessage Double} (hops : ops.Lawful)
    (hmessage : QVariant.Representable ops (.map message.metadata)) :
    Restores ops message (throughCodec ops message) ↔
      Faithful message.api ∧ FaithfulBytes message.payload ∧ PortableMap ops message.metadata := by
  rw [← throughStdString_iff, ← payload_iff, ← meaningMap_iff hops hmessage]
  constructor
  · rintro ⟨hapi, hpayload, hmetadata⟩
    dsimp only [throughCodec] at hapi hpayload hmetadata
    exact ⟨hapi, hpayload, hmetadata⟩
  · rintro ⟨hapi, hpayload, hmetadata⟩
    constructor <;> dsimp only [throughCodec]
    exacts [hapi, hpayload, hmetadata]

/-- A message comes back exactly if nothing of it is lost: its name, its keys and its texts are kept by a
`std::string`, its payload is such a text in UTF-8, and its integers are doubles. -/
theorem roundTrips_iff_portable (codec : JsonCodec) {library : JsonLibrary Double}
    {message : NetworkMessage Double} (hops : ops.Lawful)
    (hlibrary : library.Undoes ops (toObject ops message))
    (hmessage : QVariant.Representable ops (.map message.metadata)) :
    RoundTrips codec library ops message ↔
      Faithful message.api ∧ FaithfulBytes message.payload ∧ PortableMap ops message.metadata := by
  rw [← restores_throughCodec_iff hops hmessage]
  constructor
  · rintro ⟨received, hreceived, hrestores⟩
    rw [decode_encode codec hlibrary] at hreceived
    obtain rfl := Except.ok.inj hreceived
    exact hrestores
  · intro hrestores
    exact ⟨_, decode_encode codec hlibrary, hrestores⟩

/-- A request with some metadata. -/
def request : NetworkMessage (Option Rat) where
  api := utf16 "user.get".toList
  payload := utf8 "id=42".toList
  metadata :=
    [(utf16 "retries".toList, .longLong 3),
      (utf16 "tags".toList, .list [.string (utf16 "a".toList), .bool true])]

def requestText : QByteArray :=
  ("\x7b\"api\":\"user.get\",\"body\":\"id=42\",\"metadata\":" ++
    "\x7b\"retries\":3.0,\"tags\":[\"a\",true]\x7d\x7d").toUTF8.toList

theorem roundTrips_request :
    RoundTrips {} (singleDocument exactDoubles (toObject exactDoubles request) requestText)
      exactDoubles request := by
  refine (roundTrips_iff_portable {} exactDoubles_lawful (singleDocument_undoes _ _ _) ?_).mpr ⟨?_, ?_, ?_⟩
  · exact ⟨by decide, trivial, ⟨trivial, trivial, trivial⟩, trivial⟩
  · exact ⟨"user.get".toList, rfl, by decide⟩
  · exact ⟨"id=42".toList, rfl, by decide⟩
  · exact ⟨⟨⟨"retries".toList, rfl, by decide⟩, rfl⟩,
      ⟨⟨"tags".toList, rfl, by decide⟩, ⟨"a".toList, rfl, by decide⟩, trivial, trivial⟩, trivial⟩

/-- One byte that is no UTF-8. -/
def oneByte : NetworkMessage (Option Rat) := { payload := [0xFF] }

def oneByteText : QByteArray :=
  "\x7b\"api\":\"\",\"body\":\"\uFFFD\",\"metadata\":\x7b\x7d\x7d".toUTF8.toList

theorem not_roundTrips_oneByte :
    ¬RoundTrips {} (singleDocument exactDoubles (toObject exactDoubles oneByte) oneByteText)
      exactDoubles oneByte := by
  rintro ⟨received, hreceived, hrestores⟩
  rw [decode_encode {} (singleDocument_undoes _ _ _)] at hreceived
  obtain rfl := Except.ok.inj hreceived
  have hpayload := hrestores.payload
  dsimp only [throughCodec] at hpayload
  obtain ⟨characters, hbytes, -⟩ := (payload_iff _).mp hpayload
  have hcharacters : characters = ['\uFFFD'] := by
    rw [← ofUtf8_utf8 '\uFFFD' characters, ← hbytes]
    decide
  rw [hcharacters] at hbytes
  exact absurd hbytes (by decide)

end SoulCoreKit.Network.JsonCodec
