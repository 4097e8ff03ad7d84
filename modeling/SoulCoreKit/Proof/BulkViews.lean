import SoulCoreKit.Configuration.Config

/-!
# The bulk views and single lookups

Both go through the same values of a key: the loops of the bulk views let the last value that is not
null win, and the search of a lookup ends at it. What differs is the conversion of arrays, what becomes
of a key that is null everywhere, and the environment: a lookup folds the name of the key into the name
of a variable, while `getGroup` unfolds the names of all variables of the group.
-/

namespace SoulCoreKit.Configuration

variable {Double Text : Type}

/-- Not an array with an element that is null, an array or an object. -/
def Json.Flat : Json Double → Prop
  | .array elements => ∀ element ∈ elements, element.scalar.isSome = true
  | _ => True

theorem Json.filterMap_scalar_eq_iff (dump : Json Double → QString) (elements : List (Json Double)) :
    elements.map (fun element => element.scalar.getD (.string (dump element))) =
        elements.filterMap scalar ↔
      ∀ element ∈ elements, element.scalar.isSome = true := by
  induction elements with
  | nil => simp
  | cons element elements ih =>
      cases hscalar : element.scalar with
      | some variant => simp [hscalar, ih]
      | none =>
          simp only [List.map_cons, List.filterMap_cons, hscalar]
          constructor
          · intro heq
            have hlength := congrArg List.length heq
            have hle := List.length_filterMap_le scalar elements
            simp only [List.length_cons, List.length_map] at hlength
            omega
          · intro hall
            have hsome := hall element (by simp)
            simp [hscalar] at hsome

theorem Json.toVariant_eq_toBulkVariant_iff (dump : Json Double → QString) (value : Json Double) :
    value.toVariant dump = value.toBulkVariant ↔ value.Flat := by
  cases value with
  | array elements =>
      rw [Flat, ← filterMap_scalar_eq_iff dump]
      simp [toVariant, toBulkVariant]
  | _ => exact iff_of_true rfl trivial

theorem Json.toVariant_eq_string_iff (dump : Json Double → QString) (value : Json Double) (text : QString) :
    value.toVariant dump = some (.string text) ↔ value = .string text := by
  cases value <;> simp [toVariant, scalar]

theorem Json.toBulkVariant_eq_string_iff (value : Json Double) (text : QString) :
    value.toBulkVariant = some (.string text) ↔ value = .string text := by
  cases value <;> simp [toBulkVariant, scalar]

namespace Config

variable (lib : JsonLibrary Double Text) (mapping : CaseMapping) (environment : Environment)

def Has (c : Config Double) (key : QString) : Prop := ∃ source ∈ c.configSources, key ∈ source.data

/-- A key of a bulk view has the value of its lookup, and a key that is present is in the view. -/
structure AgreesAt (bulk single : Option (QVariant Double)) (present : Prop) : Prop where
  sound : ∀ value, bulk = some value → single = some value
  complete : present → ∃ value, bulk = some value ∧ single = some value

def GroupAgrees (c : Config Double) (group : QString) : Prop :=
  ∀ subKey, AgreesAt ((c.getGroup mapping environment group).lookup subKey)
    (c.getValueLocked lib mapping environment (group ++ ['.'] ++ subKey)) (c.Has (group ++ ['.'] ++ subKey))

def AllAgrees (c : Config Double) : Prop :=
  ∀ key, AgreesAt (c.getAll.lookup key) (c.getValueLocked lib mapping environment key) (c.Has key)

/-! ### What the views hold -/

theorem rest_eq_some_iff {beginning text remainder : QString} :
    rest beginning text = some remainder ↔ text = beginning ++ remainder := by
  unfold rest
  rw [Option.ite_none_right_eq_some, List.isPrefixOf_iff_prefix]
  constructor
  · rintro ⟨⟨tail, rfl⟩, hdrop⟩
    rw [List.drop_left] at hdrop
    rw [Option.some.inj hdrop]
  · rintro rfl
    exact ⟨List.prefix_append _ _, by rw [List.drop_left]⟩

theorem boundTo_groupBinding (beginning subKey : QString) (entry : Sigma fun _ : QString => Json Double) :
    Layering.boundTo (groupBinding beginning) subKey entry =
      if entry.1 = beginning ++ subKey then entry.2.toBulkVariant else none := by
  unfold Layering.boundTo groupBinding
  by_cases heq : entry.1 = beginning ++ subKey
  · rw [rest_eq_some_iff.mpr heq, if_pos heq]
    cases entry.2.toBulkVariant with
    | none => rfl
    | some value => simp
  · rw [if_neg heq]
    cases hrest : rest beginning entry.1 with
    | none => rfl
    | some name =>
        have hne : name ≠ subKey := by
          rintro rfl
          exact heq (rest_eq_some_iff.mp hrest)
        cases entry.2.toBulkVariant with
        | none => rfl
        | some value => simp [hne]

/-- The value a variable has, under the name `getGroup` gives it. -/
def nameBinding (beginning : QString) (entry : Sigma fun _ : QString => QString) :
    Option (QString × QString) :=
  (rest beginning entry.1).map fun name => (replace '_' '.' (mapping.toLower name), entry.2)

/-- The last variable of the group that `getGroup` names by the key. -/
def groupVariable (c : Config Double) (group subKey : QString) : Option QString :=
  Layering.latest
    (nameBinding mapping (c.envPrefix ++ replace '.' '_' (mapping.toUpper group) ++ ['_'])) subKey
    environment.entries

theorem lookup_getGroup (c : Config Double) (group subKey : QString) :
    (c.getGroup mapping environment group).lookup subKey =
      ((c.groupVariable mapping environment group subKey).map .string).or
        ((c.decisive (group ++ ['.'] ++ subKey)).bind Json.toBulkVariant) := by
  unfold getGroup
  dsimp only
  rw [Layering.lookup_overwrite, Layering.overwrite_layers, Layering.lookup_overwrite,
    Layering.latest_flatMap, Finmap.lookup_empty, Option.or_none]
  congr 1
  · unfold groupVariable
    apply Layering.latest_map
    intro entry
    unfold variableBinding nameBinding
    cases rest (c.envPrefix ++ replace '.' '_' (mapping.toUpper group) ++ ['_']) entry.1 with
    | none => rfl
    | some name => rfl
  · rw [← c.findSome?_convert _ passesNull_toBulkVariant]
    congr 1
    funext source
    exact Layering.latest_entries source.data (boundTo_groupBinding (group ++ ['.']) subKey)

theorem lookup_getAll (c : Config Double) (key : QString) :
    c.getAll.lookup key = (c.decisive key).bind Json.toBulkVariant := by
  unfold getAll
  rw [Layering.overwrite_layers, Layering.lookup_overwrite, Layering.latest_flatMap,
    Finmap.lookup_empty, Option.or_none, ← c.findSome?_convert key passesNull_toBulkVariant]
  congr 1
  funext source
  apply Layering.latest_entries
  intro entry
  unfold Layering.boundTo
  cases hvalue : entry.2.toBulkVariant with
  | none => simp [hvalue]
  | some value => simp [hvalue]

/-! ### When they agree -/

theorem has_of_decisive {c : Config Double} {key : QString} {value : Json Double}
    (hdecisive : c.decisive key = some value) : c.Has key := by
  obtain ⟨occurrence, hmem, hvalue⟩ := List.exists_of_findSome?_eq_some hdecisive
  rw [List.mem_reverse] at hmem
  obtain ⟨source, hsource, rfl⟩ := List.mem_map.mp hmem
  refine ⟨source, hsource, ?_⟩
  rw [← AList.lookup_isSome]
  cases hlookup : source.data.lookup key with
  | none => simp [hlookup, nonNull] at hvalue
  | some found => rfl

theorem toBulkVariant_of_decisive {c : Config Double} {key : QString} {value : Json Double}
    (hdecisive : c.decisive key = some value) : ∃ variant, value.toBulkVariant = some variant := by
  rw [← Option.isSome_iff_exists, Option.isSome_iff_ne_none]
  intro hnone
  have hnull := (passesNull_toBulkVariant value).mp hnone
  obtain ⟨occurrence, -, hvalue⟩ := List.exists_of_findSome?_eq_some hdecisive
  rw [hnull] at hvalue
  cases occurrence with
  | none => exact absurd hvalue (by simp [nonNull])
  | some found => cases found <;> simp [nonNull] at hvalue

/-- A view that has a value of the key agrees exactly if the lookup gives it. -/
theorem agreesAt_some_iff {single : Option (QVariant Double)} {value : QVariant Double} {present : Prop} :
    AgreesAt (some value) single present ↔ single = some value := by
  constructor
  · intro hagrees
    exact hagrees.sound value rfl
  · rintro rfl
    exact ⟨fun _ => id, fun _ => ⟨value, rfl, rfl⟩⟩

theorem agreesAt_none_iff {single : Option (QVariant Double)} {present : Prop} :
    AgreesAt (none : Option (QVariant Double)) single present ↔ ¬ present := by
  constructor
  · intro hagrees hpresent
    obtain ⟨value, hvalue, -⟩ := hagrees.complete hpresent
    exact absurd hvalue (by simp)
  · intro habsent
    exact ⟨fun _ hvalue => absurd hvalue (by simp), fun hpresent => absurd hpresent habsent⟩

/-- The agreement on a key of a group, in terms of the variables and of the decisive value: where
`getGroup` finds a variable, the lookup finds its text in its own variable or, having none, in the
sources; where it finds none, the decisive value is the text of the lookup's variable or, there being
no such variable either, flat; and a key that is present does not have null for all its values. -/
def KeyAgrees (c : Config Double) (group subKey : QString) : Prop :=
  match c.groupVariable mapping environment group subKey,
    c.decisive (group ++ ['.'] ++ subKey),
    c.getEnvValue mapping environment (group ++ ['.'] ++ subKey) with
  | some text, _, some own => own = text
  | some text, value, none => value = some (.string text)
  | none, some value, some own => value = .string own
  | none, some value, none => value.Flat
  | none, none, _ => ¬ c.Has (group ++ ['.'] ++ subKey)

theorem agreesAt_group_iff (c : Config Double) (group subKey : QString) :
    AgreesAt ((c.getGroup mapping environment group).lookup subKey)
        (c.getValueLocked lib mapping environment (group ++ ['.'] ++ subKey))
        (c.Has (group ++ ['.'] ++ subKey)) ↔
      c.KeyAgrees mapping environment group subKey := by
  rw [lookup_getGroup]
  unfold KeyAgrees getValueLocked
  rw [findValue_eq]
  cases hvariable : c.groupVariable mapping environment group subKey with
  | some text =>
      rw [Option.map_some, Option.some_or, agreesAt_some_iff]
      cases hown : c.getEnvValue mapping environment (group ++ ['.'] ++ subKey) with
      | some own => simp
      | none =>
          cases hdecisive : c.decisive (group ++ ['.'] ++ subKey) with
          | none => simp
          | some value => simp [Json.toVariant_eq_string_iff]
  | none =>
      rw [Option.map_none, Option.none_or]
      cases hdecisive : c.decisive (group ++ ['.'] ++ subKey) with
      | none => rw [Option.bind_none, agreesAt_none_iff]
      | some value =>
          obtain ⟨variant, hvariant⟩ := toBulkVariant_of_decisive hdecisive
          rw [Option.bind_some, hvariant, agreesAt_some_iff]
          cases hown : c.getEnvValue mapping environment (group ++ ['.'] ++ subKey) with
          | some own =>
              dsimp only
              rw [← hvariant, eq_comm, Json.toBulkVariant_eq_string_iff]
          | none =>
              dsimp only
              rw [← hvariant, Option.bind_some, Json.toVariant_eq_toBulkVariant_iff]

def FlatAt (c : Config Double) (key : QString) : Prop :=
  ∃ value, c.decisive key = some value ∧ value.Flat

theorem agreesAt_all_iff (c : Config Double) {key : QString}
    (henv : c.Has key → c.getEnvValue mapping environment key = none) :
    AgreesAt (c.getAll.lookup key) (c.getValueLocked lib mapping environment key) (c.Has key) ↔
      (c.Has key → c.FlatAt key) := by
  rw [lookup_getAll]
  unfold FlatAt getValueLocked
  rw [findValue_eq]
  cases hdecisive : c.decisive key with
  | none => simp [agreesAt_none_iff]
  | some value =>
      have hhas := has_of_decisive hdecisive
      obtain ⟨variant, hvariant⟩ := toBulkVariant_of_decisive hdecisive
      rw [henv hhas, Option.bind_some, hvariant, agreesAt_some_iff, ← hvariant]
      simp [hhas, Json.toVariant_eq_toBulkVariant_iff]

/-- The library on the one value that is dumped below. -/
def dumpNull : JsonLibrary Unit String where
  dump
    | .null => "null".toList
    | _ => []
  serializePretty _ := ""
  parse _ := .error ⟨.deserializationError, "syntax error"⟩

/-- One source with an array of one null under the key `g.k`. -/
def nullInArray : Config Unit where
  configSources := [⟨Json.toData [("g.k".toList, .array [.null])], none⟩]

end Config

end SoulCoreKit.Configuration
