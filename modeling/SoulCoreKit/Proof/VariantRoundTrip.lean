import Mathlib.Data.Finset.Max
import Mathlib.Data.Finset.Image
import Mathlib.Data.Rat.Defs
import SoulCoreKit.Proof.TextConversion

/-!
# Qt values that survive

A value is turned into a document, written, read and turned back. Three conversions lose something: an integer
becomes a double, a text goes through a `std::string`, and so does every key. A key that is not kept may be
taken for another one, so what happens to a map is not decided key by key. But the lossy conversion of keys
does not permute the keys of a map: it makes texts shorter. If all keys are there again, each is kept.
-/

namespace SoulCoreKit.JsonHelper

open Unicode

/-! ### Assigning entries one after the other -/

section Assign

theorem lookup_entry_cons {L W : Type} [DecidableEq L] [BEq L] [LawfulBEq L] (entry : L × W)
    (rest : List (L × W)) (other : L) :
    (entry :: rest).lookup other = if other = entry.1 then some entry.2 else rest.lookup other := by
  rw [List.lookup_eq_findSome?, List.findSome?_cons, ← List.lookup_eq_findSome?]
  by_cases hother : other = entry.1 <;> simp [hother]

theorem mem_of_lookup {L W : Type} [BEq L] [LawfulBEq L] {entries : List (L × W)}
    {key : L} {value : W} (hlookup : entries.lookup key = some value) : (key, value) ∈ entries := by
  obtain ⟨before, after, rfl, -⟩ := List.lookup_eq_some_iff.mp hlookup
  exact List.mem_append_right before List.mem_cons_self

theorem lookup_of_mem {L W : Type} [BEq L] [LawfulBEq L] {entries : List (L × W)}
    (hnodup : (entries.map Prod.fst).Nodup) {entry : L × W} (hmem : entry ∈ entries) :
    entries.lookup entry.1 = some entry.2 := by
  have hsome : (entries.lookup entry.1).isSome :=
    List.lookup_isSome_iff.mpr ⟨entry, hmem, beq_self_eq_true _⟩
  obtain ⟨value, hvalue⟩ := Option.isSome_iff_exists.mp hsome
  rw [hvalue, ← List.inj_on_of_nodup_map hnodup (mem_of_lookup hvalue) hmem rfl]

variable {K L V W : Type} [DecidableEq L] [MapKey L]

theorem mem_assign {entries : List (L × W)} {key : L} {value : W} {entry : L × W}
    (hmem : entry ∈ assign entries key value) : entry = (key, value) ∨ entry ∈ entries := by
  induction entries with
  | nil => exact Or.inl (by simpa [assign] using hmem)
  | cons first rest ih =>
      unfold assign at hmem
      by_cases hkey : key = first.1
      · rw [if_pos hkey] at hmem
        exact (List.mem_cons.mp hmem).imp_right (List.mem_cons_of_mem first)
      · rw [if_neg hkey] at hmem
        by_cases hlt : MapKey.less key first.1
        · rw [if_pos hlt] at hmem
          exact List.mem_cons.mp hmem
        · rw [if_neg hlt] at hmem
          rcases List.mem_cons.mp hmem with rfl | hrest
          · exact Or.inr List.mem_cons_self
          · exact (ih hrest).imp_right (List.mem_cons_of_mem first)

theorem map_assign {X : Type} (h : W → X) (entries : List (L × W)) (key : L) (value : W) :
    (assign entries key value).map (fun entry => (entry.1, h entry.2)) =
      assign (entries.map fun entry => (entry.1, h entry.2)) key (h value) := by
  induction entries with
  | nil => rfl
  | cons entry rest ih =>
      unfold assign
      by_cases hkey : key = entry.1
      · simp [hkey]
      · by_cases hlt : MapKey.less key entry.1
        · simp [hkey, hlt]
        · simp [hkey, hlt, ih]

/-- The loops over the members of an object and over the entries of a map. -/
def collect (f : K → L) (g : V → W) (object : List (L × W)) (entries : List (K × V)) : List (L × W) :=
  entries.foldl (fun object entry => assign object (f entry.1) (g entry.2)) object

variable {f : K → L} {g : V → W} {object : List (L × W)} {entries : List (K × V)}

theorem mem_collect {entry : L × W} (hmem : entry ∈ collect f g object entries) :
    entry ∈ object ∨ ∃ source ∈ entries, entry = (f source.1, g source.2) := by
  induction entries generalizing object with
  | nil => exact Or.inl hmem
  | cons first rest ih =>
      rcases ih hmem with hobject | ⟨source, hsource, heq⟩
      · rcases mem_assign hobject with heq | hobject
        · exact Or.inr ⟨first, List.mem_cons_self, heq⟩
        · exact Or.inl hobject
      · exact Or.inr ⟨source, List.mem_cons_of_mem first hsource, heq⟩

theorem map_collect {X : Type} (h : W → X) :
    (collect f g object entries).map (fun entry => (entry.1, h entry.2)) =
      collect f (h ∘ g) (object.map fun entry => (entry.1, h entry.2)) entries := by
  induction entries generalizing object with
  | nil => rfl
  | cons first rest ih =>
      rw [collect, List.foldl_cons]
      exact ih.trans (by rw [map_assign]; rfl)

theorem collect_map {X : Type} (h : X → V) (entries : List (K × X)) :
    collect f g object (entries.map fun entry => (entry.1, h entry.2)) =
      collect f (g ∘ h) object entries :=
  List.foldl_map

variable [BEq L] [LawfulBEq L]

theorem lookup_assign (entries : List (L × W)) (key : L) (value : W) (other : L) :
    (assign entries key value).lookup other =
      if other = key then some value else entries.lookup other := by
  induction entries with
  | nil => exact lookup_entry_cons (key, value) [] other
  | cons entry rest ih =>
      unfold assign
      by_cases hkey : key = entry.1
      · rw [if_pos hkey, lookup_entry_cons, lookup_entry_cons, hkey]
        by_cases hother : other = entry.1
        · rw [if_pos hother, if_pos hother]
        · rw [if_neg hother, if_neg hother, if_neg hother]
      · rw [if_neg hkey]
        by_cases hlt : MapKey.less key entry.1
        · rw [if_pos hlt, lookup_entry_cons]
        · rw [if_neg hlt, lookup_entry_cons, lookup_entry_cons, ih]
          by_cases hother : other = entry.1
          · rw [if_pos hother, if_pos hother, if_neg fun heq => hkey (heq.symm.trans hother)]
          · rw [if_neg hother, if_neg hother]

theorem isSome_lookup_collect_of_object {key : L} (hkey : (object.lookup key).isSome) :
    ((collect f g object entries).lookup key).isSome := by
  induction entries generalizing object with
  | nil => exact hkey
  | cons first rest ih =>
      apply ih
      rw [lookup_assign]
      by_cases heq : key = f first.1
      · rw [if_pos heq]
        rfl
      · rwa [if_neg heq]

theorem isSome_lookup_collect {source : K × V} (hmem : source ∈ entries) :
    ((collect f g object entries).lookup (f source.1)).isSome := by
  induction entries generalizing object with
  | nil => exact absurd hmem List.not_mem_nil
  | cons first rest ih =>
      rcases List.mem_cons.mp hmem with rfl | hrest
      · change ((collect f g (assign object (f source.1) (g source.2)) rest).lookup _).isSome
        apply isSome_lookup_collect_of_object
        rw [lookup_assign, if_pos rfl]
        rfl
      · exact ih hrest

end Assign

/-! ### The keys -/

/-- What a text is after it was a `std::string`. -/
def throughStdString (text : QString) : QString := fromStdString (toStdString text)

theorem throughStdString_iff (text : QString) : throughStdString text = text ↔ Faithful text :=
  fromStdString_toStdString_iff text

/-- A text that went through a `std::string` has no lone surrogates: it becomes shorter when it loses
something once more. -/
theorem length_throughStdString_lt {text source : QString} (hsource : throughStdString source = text)
    (hlost : ¬Faithful text) :
    (ofUtf16 '?' (throughStdString text)).length < (ofUtf16 '?' text).length := by
  rw [throughStdString, fromStdString_eq] at hsource
  have hmark : (ofUtf16 '?' text).head? = some byteOrderMark := by
    by_contra hne
    refine hlost ⟨ofUtf16 '?' text, ?_, hne⟩
    rw [← hsource, ofUtf16_utf16]
  rw [throughStdString, fromStdString_eq, ofUtf16_utf16, toStdString, String.toList_ofList]
  exact length_dropMark_lt hmark

/-- Where every key is some key after the conversion, every key is kept. -/
theorem faithful_of_subset_image {keys : Finset QString} (hkeys : keys ⊆ keys.image throughStdString) :
    ∀ key ∈ keys, Faithful key := by
  classical
  by_contra hnot
  push Not at hnot
  have hsome : (keys.filter fun key => ¬Faithful key).Nonempty := by
    obtain ⟨key, hmem, hlost⟩ := hnot
    exact ⟨key, Finset.mem_filter.mpr ⟨hmem, hlost⟩⟩
  -- A longest key among those that are not kept can only come from itself or from a longer one.
  obtain ⟨key, hkey, hmax⟩ := Finset.exists_max_image _ (fun key => (ofUtf16 '?' key).length) hsome
  obtain ⟨hmem, hlost⟩ := Finset.mem_filter.mp hkey
  obtain ⟨source, hsource, hback⟩ := Finset.mem_image.mp (hkeys hmem)
  obtain ⟨earlier, -, hearlier⟩ := Finset.mem_image.mp (hkeys hsource)
  by_cases hfaithful : Faithful source
  · rw [← hback, (throughStdString_iff source).mpr hfaithful] at hlost
    exact hlost hfaithful
  · have hlt := length_throughStdString_lt hearlier hfaithful
    rw [hback] at hlt
    exact absurd (hmax source (Finset.mem_filter.mpr ⟨hsource, hfaithful⟩)) (Nat.not_le.mpr hlt)

/-! ### What a value says -/

/-- Numbers are compared as numbers, and a map is a map. -/
inductive Meaning where
  | null
  | bool (value : Bool)
  | number (value : Option Rat)
  | text (text : QString)
  | list (elements : List Meaning)
  | map (members : QString → Option Meaning)

variable {Double : Type} {ops : DoubleOps Double}

mutual

def meaning (ops : DoubleOps Double) : QVariant Double → Meaning
  | .null => .null
  | .bool value => .bool value
  | .longLong number => .number (some number.toInt)
  | .double number => .number (ops.value number)
  | .string text => .text text
  | .list elements => .list (meaningList ops elements)
  | .map members => .map (meaningMap ops members)

def meaningList (ops : DoubleOps Double) : List (QVariant Double) → List Meaning
  | [] => []
  | element :: rest => meaning ops element :: meaningList ops rest

def meaningMap (ops : DoubleOps Double) :
    List (QString × QVariant Double) → QString → Option Meaning
  | [], _ => none
  | (key, value) :: rest, other =>
      if other = key then some (meaning ops value) else meaningMap ops rest other

end

mutual

/-- A value that JSON can represent: doubles are finite, and no key of a map occurs twice, as in every
`QMap`. -/
def QVariant.Representable (ops : DoubleOps Double) : QVariant Double → Prop
  | .double number => (ops.value number).isSome
  | .list elements => RepresentableList ops elements
  | .map members => (members.map Prod.fst).Nodup ∧ RepresentableMap ops members
  | _ => True

def RepresentableList (ops : DoubleOps Double) : List (QVariant Double) → Prop
  | [] => True
  | element :: rest => QVariant.Representable ops element ∧ RepresentableList ops rest

def RepresentableMap (ops : DoubleOps Double) : List (QString × QVariant Double) → Prop
  | [] => True
  | (_, value) :: rest => QVariant.Representable ops value ∧ RepresentableMap ops rest

end

mutual

/-- A value of which nothing is lost: an integer that is a double, and texts and keys that a `std::string`
keeps. -/
def Portable (ops : DoubleOps Double) : QVariant Double → Prop
  | .longLong number => ops.value (ops.ofInt number.toInt) = some (number.toInt : Rat)
  | .string text => Faithful text
  | .list elements => PortableList ops elements
  | .map members => PortableMap ops members
  | _ => True

def PortableList (ops : DoubleOps Double) : List (QVariant Double) → Prop
  | [] => True
  | element :: rest => Portable ops element ∧ PortableList ops rest

def PortableMap (ops : DoubleOps Double) : List (QString × QVariant Double) → Prop
  | [] => True
  | (key, value) :: rest => (Faithful key ∧ Portable ops value) ∧ PortableMap ops rest

end

theorem meaningMap_apply (members : List (QString × QVariant Double)) (key : QString) :
    meaningMap ops members key = (members.lookup key).map (meaning ops) := by
  induction members with
  | nil => rfl
  | cons member rest ih =>
      obtain ⟨first, value⟩ := member
      rw [meaningMap, lookup_entry_cons, ih]
      by_cases hkey : key = first
      · rw [if_pos hkey, if_pos hkey]
        rfl
      · rw [if_neg hkey, if_neg hkey]

/-! ### The conversions -/

/-- The document of a value. -/
def toDocument (ops : DoubleOps Double) (value : QVariant Double) : Json Double :=
  fromQJsonValue ops (fromVariant ops value)

/-- The value that is made of a document that was written and read. -/
def ofDocument (ops : DoubleOps Double) (document : Json Double) : QVariant Double :=
  toVariant (toQJsonValue ops (document.read ops))

def throughDocument (ops : DoubleOps Double) (value : QVariant Double) : QVariant Double :=
  ofDocument ops (toDocument ops value)

def mapThroughDocument (ops : DoubleOps Double) (members : List (QString × QVariant Double)) :
    List (QString × QVariant Double) :=
  collect fromStdString (ofDocument ops) [] (collect toStdString (toDocument ops) [] members)

theorem readMembers_eq (members : List (String × Json Double)) :
    readMembers ops members = members.map fun member => (member.1, member.2.read ops) := by
  induction members with
  | nil => rfl
  | cons member rest ih => rw [readMembers, ih, List.map_cons]

theorem toVariantMap_eq (members : List (QString × QJsonValue Double)) :
    toVariantMap members = members.map fun member => (member.1, toVariant member.2) := by
  induction members with
  | nil => rfl
  | cons member rest ih => rw [toVariantMap, ih, List.map_cons]

theorem fromQJsonObject_eq (object : List (String × Json Double))
    (members : List (QString × QVariant Double)) :
    fromQJsonObject ops object (fromVariantMap ops members) =
      collect toStdString (toDocument ops) object members := by
  induction members generalizing object with
  | nil => rfl
  | cons member rest ih =>
      rw [fromVariantMap, fromQJsonObject, ih]
      rfl

theorem toQJsonObject_eq (object : List (QString × QJsonValue Double))
    (members : List (String × Json Double)) :
    toQJsonObject ops object members = collect fromStdString (toQJsonValue ops) object members := by
  induction members generalizing object with
  | nil => rfl
  | cons member rest ih =>
      rw [toQJsonObject, ih]
      rfl

theorem throughDocument_map (members : List (QString × QVariant Double)) :
    throughDocument ops (.map members) = .map (mapThroughDocument ops members) := by
  rw [throughDocument, toDocument, fromVariant, fromQJsonValue, ofDocument, Json.read, toQJsonValue,
    toVariant, fromQJsonObject_eq, readMembers_eq, toQJsonObject_eq, toVariantMap_eq, collect_map,
    map_collect]
  rfl

theorem throughDocument_list (elements : List (QVariant Double)) :
    throughDocument ops (.list elements) = .list (elements.map (throughDocument ops)) := by
  rw [throughDocument, toDocument, fromVariant, fromQJsonValue, ofDocument, Json.read, toQJsonValue,
    toVariant]
  congr 1
  induction elements with
  | nil => rfl
  | cons element rest ih =>
      rw [fromVariantList, fromQJsonArray, readElements, toQJsonArray, toVariantList, ih, List.map_cons]
      rfl

/-! ### Maps -/

theorem mem_mapThroughDocument {members : List (QString × QVariant Double)} {key : QString}
    {value : QVariant Double} (hmem : (key, value) ∈ mapThroughDocument ops members) :
    ∃ member ∈ members, key = throughStdString member.1 ∧ value = throughDocument ops member.2 := by
  rcases mem_collect hmem with hnil | ⟨written, hwritten, heq⟩
  · exact absurd hnil List.not_mem_nil
  · rcases mem_collect hwritten with hnil | ⟨member, hmember, rfl⟩
    · exact absurd hnil List.not_mem_nil
    · exact ⟨member, hmember, Prod.mk.inj heq⟩

theorem isSome_lookup_mapThroughDocument {members : List (QString × QVariant Double)}
    {member : QString × QVariant Double} (hmem : member ∈ members) :
    ((mapThroughDocument ops members).lookup (throughStdString member.1)).isSome := by
  have hwritten : ((collect toStdString (toDocument ops) [] members).lookup
      (toStdString member.1)).isSome := isSome_lookup_collect hmem
  obtain ⟨document, hdocument⟩ := Option.isSome_iff_exists.mp hwritten
  exact isSome_lookup_collect (mem_of_lookup hdocument)

theorem lookup_mapThroughDocument {members : List (QString × QVariant Double)}
    (hkeys : ∀ member ∈ members, Faithful member.1) (hnodup : (members.map Prod.fst).Nodup)
    {member : QString × QVariant Double} (hmem : member ∈ members) :
    (mapThroughDocument ops members).lookup member.1 = some (throughDocument ops member.2) := by
  have hkept : ∀ other ∈ members, throughStdString other.1 = other.1 :=
    fun other hother => (throughStdString_iff other.1).mpr (hkeys other hother)
  have hsome : ((mapThroughDocument ops members).lookup member.1).isSome := by
    rw [← hkept member hmem]
    exact isSome_lookup_mapThroughDocument hmem
  obtain ⟨value, hvalue⟩ := Option.isSome_iff_exists.mp hsome
  obtain ⟨other, hother, hkey, hdocument⟩ := mem_mapThroughDocument (mem_of_lookup hvalue)
  rw [hkept other hother] at hkey
  have hsame : member = other := List.inj_on_of_nodup_map hnodup hmem hother hkey
  rw [hvalue, hdocument, hsame]

theorem faithful_of_meaningMap_eq {members : List (QString × QVariant Double)}
    (hback : meaningMap ops (mapThroughDocument ops members) = meaningMap ops members) :
    ∀ member ∈ members, Faithful member.1 := by
  have hkeys : (members.map Prod.fst).toFinset ⊆
      (members.map Prod.fst).toFinset.image throughStdString := by
    intro key hkey
    obtain ⟨member, hmember, rfl⟩ := List.mem_map.mp (List.mem_toFinset.mp hkey)
    have hsource : (members.lookup member.1).isSome :=
      List.lookup_isSome_iff.mpr ⟨member, hmember, beq_self_eq_true _⟩
    have hmeaning := congrFun hback member.1
    rw [meaningMap_apply, meaningMap_apply] at hmeaning
    have hthere := congrArg Option.isSome hmeaning
    rw [Option.isSome_map, Option.isSome_map, hsource] at hthere
    obtain ⟨value, hvalue⟩ := Option.isSome_iff_exists.mp hthere
    obtain ⟨source, hmem, hkey, -⟩ := mem_mapThroughDocument (mem_of_lookup hvalue)
    exact Finset.mem_image.mpr ⟨source.1, List.mem_toFinset.mpr (List.mem_map_of_mem hmem), hkey.symm⟩
  intro member hmember
  exact faithful_of_subset_image hkeys member.1 (List.mem_toFinset.mpr (List.mem_map_of_mem hmember))

theorem meaningMap_mapThroughDocument_iff {members : List (QString × QVariant Double)}
    (hnodup : (members.map Prod.fst).Nodup) :
    meaningMap ops (mapThroughDocument ops members) = meaningMap ops members ↔
      ∀ member ∈ members, Faithful member.1 ∧
        meaning ops (throughDocument ops member.2) = meaning ops member.2 := by
  constructor
  · intro hback member hmember
    have hkeys := faithful_of_meaningMap_eq hback
    refine ⟨hkeys member hmember, ?_⟩
    have hmeaning := congrFun hback member.1
    rw [meaningMap_apply, meaningMap_apply, lookup_mapThroughDocument hkeys hnodup hmember,
      lookup_of_mem hnodup hmember] at hmeaning
    exact Option.some.inj hmeaning
  · intro hmembers
    have hkeys : ∀ member ∈ members, Faithful member.1 :=
      fun member hmember => (hmembers member hmember).1
    funext key
    rw [meaningMap_apply, meaningMap_apply]
    cases hlookup : members.lookup key with
    | some value =>
        have hmember := mem_of_lookup hlookup
        rw [lookup_mapThroughDocument hkeys hnodup hmember, Option.map_some, Option.map_some,
          (hmembers _ hmember).2]
    | none =>
        cases hback : (mapThroughDocument ops members).lookup key with
        | none => rfl
        | some value =>
            obtain ⟨source, hsource, hkey, -⟩ := mem_mapThroughDocument (mem_of_lookup hback)
            rw [(throughStdString_iff source.1).mpr (hkeys source hsource)] at hkey
            rw [hkey, lookup_of_mem hnodup hsource] at hlookup
            exact absurd hlookup (Option.some_ne_none _)

/-! ### Values -/

/-- Converting an integer gives a double, and one with its number if there is any; what a `QJsonValue` holds
in place of a double has its number. -/
structure DoubleOps.Lawful (ops : DoubleOps Double) : Prop where
  isSome_value_ofInt : ∀ number : Int64, (ops.value (ops.ofInt number.toInt)).isSome
  value_ofInt : ∀ (number : Int64) (x : Double), ops.value x = some (number.toInt : Rat) →
    ops.value (ops.ofInt number.toInt) = some (number.toInt : Rat)
  value_of_asInteger : ∀ (x : Double) (number : Int64), ops.asInteger x = some number →
    ops.value x = some (number.toInt : Rat)

theorem exactDoubles_lawful : exactDoubles.Lawful where
  isSome_value_ofInt _ := rfl
  value_ofInt _ _ _ := rfl
  value_of_asInteger x number hinteger := by
    obtain ⟨q, rfl, hq⟩ := Option.bind_eq_some_iff.mp hinteger
    by_cases hsmall : q.den = 1 ∧ q.num.natAbs ≤ 2 ^ 53
    · rw [if_pos hsmall] at hq
      obtain rfl := Option.some.inj hq
      have hnumber : (Int64.ofInt q.num).toInt = q.num := Int64.toInt_ofInt_of_le (by omega) (by omega)
      rw [hnumber]
      exact congrArg some (Rat.coe_int_num_of_den_eq_one hsmall.1).symm
    · rw [if_neg hsmall] at hq
      exact absurd hq (Option.some_ne_none _).symm

theorem meaning_ofDouble (hops : ops.Lawful) (x : Double) :
    meaning ops (toVariant (.ofDouble ops x)) = .number (ops.value x) := by
  unfold QJsonValue.ofDouble
  cases hinteger : ops.asInteger x with
  | none => rfl
  | some number => exact congrArg Meaning.number (hops.value_of_asInteger x number hinteger).symm

theorem meaning_ofDocument_float (hops : ops.Lawful) {x : Double} (hfinite : (ops.value x).isSome) :
    meaning ops (ofDocument ops (.float x)) = .number (ops.value x) := by
  rw [ofDocument, Json.read, DoubleOps.isFinite, if_pos hfinite, toQJsonValue, meaning_ofDouble hops]

theorem meaning_longLong (hops : ops.Lawful) (number : Int64) :
    meaning ops (throughDocument ops (.longLong number)) =
      .number (ops.value (ops.ofInt number.toInt)) := by
  rw [throughDocument, toDocument, fromVariant, fromQJsonValue]
  exact meaning_ofDocument_float hops (hops.isSome_value_ofInt number)

/-- No finite double loses its number, also where it has become an integer in between. -/
theorem meaning_double (hops : ops.Lawful) {x : Double} (hfinite : (ops.value x).isSome) :
    meaning ops (throughDocument ops (.double x)) = .number (ops.value x) := by
  rw [throughDocument, toDocument, fromVariant, DoubleOps.isFinite, if_pos hfinite,
    QJsonValue.ofDouble]
  cases hinteger : ops.asInteger x with
  | none => exact meaning_ofDocument_float hops hfinite
  | some number =>
      have hvalue := hops.value_of_asInteger x number hinteger
      rw [hvalue, ← hops.value_ofInt number x hvalue]
      exact meaning_ofDocument_float hops (hops.isSome_value_ofInt number)

mutual

theorem meaning_throughDocument_iff (hops : ops.Lawful) :
    ∀ value : QVariant Double, QVariant.Representable ops value →
      (meaning ops (throughDocument ops value) = meaning ops value ↔ Portable ops value)
  | .null, _ => iff_of_true rfl trivial
  | .bool _, _ => iff_of_true rfl trivial
  | .longLong number, _ => by
      rw [meaning_longLong hops, meaning, Meaning.number.injEq]
      exact Iff.rfl
  | .double x, hfinite => iff_of_true (meaning_double hops hfinite) trivial
  | .string text, _ => by
      rw [Portable, ← throughStdString_iff]
      exact Iff.of_eq (Meaning.text.injEq _ _)
  | .list elements, helements => by
      rw [throughDocument_list, meaning, meaning, Meaning.list.injEq]
      exact meaningList_map_iff hops elements helements
  | .map members, hmembers => by
      rw [throughDocument_map, meaning, meaning, Meaning.map.injEq,
        meaningMap_mapThroughDocument_iff hmembers.1]
      exact members_iff hops members hmembers.2

theorem meaningList_map_iff (hops : ops.Lawful) :
    ∀ elements : List (QVariant Double), RepresentableList ops elements →
      (meaningList ops (elements.map (throughDocument ops)) = meaningList ops elements ↔
        PortableList ops elements)
  | [], _ => iff_of_true rfl trivial
  | element :: rest, helements => by
      rw [List.map_cons, meaningList, meaningList, List.cons.injEq]
      exact and_congr (meaning_throughDocument_iff hops element helements.1)
        (meaningList_map_iff hops rest helements.2)

theorem members_iff (hops : ops.Lawful) :
    ∀ members : List (QString × QVariant Double), RepresentableMap ops members →
      ((∀ member ∈ members, Faithful member.1 ∧
        meaning ops (throughDocument ops member.2) = meaning ops member.2) ↔
        PortableMap ops members)
  | [], _ => iff_of_true (fun _ hmem => absurd hmem List.not_mem_nil) trivial
  | (key, value) :: rest, hmembers => by
      rw [List.forall_mem_cons]
      exact and_congr
        (and_congr Iff.rfl (meaning_throughDocument_iff hops value hmembers.1))
        (members_iff hops rest hmembers.2)

end

/-- A map comes back if and only if its keys and its values are kept. -/
theorem meaningMap_iff (hops : ops.Lawful) {members : List (QString × QVariant Double)}
    (hmembers : QVariant.Representable ops (.map members)) :
    meaningMap ops (mapThroughDocument ops members) = meaningMap ops members ↔
      PortableMap ops members :=
  (meaningMap_mapThroughDocument_iff hmembers.1).trans (members_iff hops members hmembers.2)

end SoulCoreKit.JsonHelper
