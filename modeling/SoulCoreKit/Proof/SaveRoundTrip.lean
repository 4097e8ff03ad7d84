import SoulCoreKit.Configuration.Config

/-!
# Saving and loading

Saving lets the last value of a key win, whatever it is; a lookup passes over null and goes on to
earlier sources. The two agree on a key unless its last value is null and an earlier one is not.
-/

namespace SoulCoreKit.Configuration.Config

variable {Double Text : Type} {lib : JsonLibrary Double Text} {c : Config Double} {key : QString}

/-- The last value of the key, null or not. -/
def lastValue (c : Config Double) (key : QString) : Option (Json Double) :=
  (c.occurrences key).reverse.findSome? id

/-! ### The merged object -/

theorem toFinmap_foldl_insert (start : Data Double) (entries : List (Sigma fun _ : QString => Json Double)) :
    (entries.foldl (fun merged entry => merged.insert entry.1 entry.2) start).toFinmap =
      Layering.overwrite (fun entry => some (entry.1, entry.2)) start.toFinmap entries := by
  induction entries generalizing start with
  | nil => rfl
  | cons entry entries ih =>
      rw [List.foldl_cons, ih, ← Finmap.insert_toFinmap]
      rfl

theorem latest_data (data : Data Double) (key : QString) :
    Layering.latest (fun entry => some (entry.1, entry.2)) key data.entries = data.lookup key := by
  have hlatest := @Layering.latest_entries QString (Json Double) _ _ data key QString
    (fun entry => some (entry.1, entry.2)) _ key some (fun entry => by
      unfold Layering.boundTo
      rfl)
  rw [hlatest, Option.bind_fun_some]

theorem lookup_merged (c : Config Double) (key : QString) : c.merged.lookup key = c.lastValue key := by
  have hmerged : c.merged.toFinmap = Layering.overwrite (fun entry => some (entry.1, entry.2)) ∅
      (c.configSources.flatMap fun source => source.data.entries) := by
    unfold merged
    rw [← List.foldl_flatMap, toFinmap_foldl_insert]
    rfl
  rw [← Finmap.lookup_toFinmap, hmerged, Layering.lookup_overwrite, Layering.latest_flatMap,
    Finmap.lookup_empty, Option.or_none]
  unfold lastValue occurrences
  rw [← List.map_reverse, List.findSome?_map]
  congr 1
  funext source
  exact latest_data source.data key

theorem lookup_toData_ofData (data : Data Double) (key : QString) :
    (Json.toData (data.entries.map fun entry => (entry.1, entry.2))).lookup key = data.lookup key := by
  unfold Json.toData
  rw [AList.lookup_to_alist, List.map_map]
  have hid : data.entries.map ((fun entry : QString × Json Double =>
      (⟨entry.1, entry.2⟩ : Sigma fun _ : QString => Json Double)) ∘ fun entry => (entry.1, entry.2)) =
      data.entries := by
    conv_rhs => rw [← List.map_id data.entries]
    rfl
  rw [hid]
  rfl

/-! ### Lookups before and after -/

theorem findSome?_nonNull_of_id {values : List (Option (Json Double))} {value : Json Double}
    (hlast : values.findSome? id = some value) (hvalue : value ≠ .null) :
    values.findSome? nonNull = some value := by
  induction values with
  | nil => exact absurd hlast (by simp)
  | cons first values ih =>
      cases first with
      | none => exact ih hlast
      | some found =>
          have heq : found = value := by simpa using hlast
          subst heq
          rw [List.findSome?_cons]
          cases found <;> first | rfl | exact absurd rfl hvalue

theorem decisive_ne_null : c.decisive key ≠ some .null := by
  intro hnull
  obtain ⟨value, -, hvalue⟩ := List.exists_of_findSome?_eq_some hnull
  cases value with
  | none => exact absurd hvalue (by simp [nonNull])
  | some found => cases found <;> simp [nonNull] at hvalue

theorem decisive_of_lastValue_none (hlast : c.lastValue key = none) : c.decisive key = none := by
  unfold lastValue at hlast
  unfold decisive
  rw [List.findSome?_eq_none_iff] at hlast ⊢
  intro value hvalue
  rw [show value = none from hlast value hvalue]
  rfl

theorem nonNull_lastValue_iff (lib : JsonLibrary Double Text) (c : Config Double) (key : QString) :
    (nonNull (c.lastValue key)).bind (Json.toVariant lib.dump) =
        (c.decisive key).bind (Json.toVariant lib.dump) ↔
      (c.lastValue key = some .null → c.decisive key = none) := by
  cases hlast : c.lastValue key with
  | none => simp [nonNull, decisive_of_lastValue_none hlast]
  | some value =>
      by_cases hnull : value = .null
      · subst hnull
        cases hdecisive : c.decisive key with
        | none => simp [nonNull]
        | some found =>
            have hne : found ≠ .null := by
              rintro rfl
              exact decisive_ne_null hdecisive
            have hsome : Json.toVariant lib.dump found ≠ none := fun hnone =>
              hne ((passesNull_toVariant lib.dump found).mp hnone)
            simp [nonNull, Ne.symm hsome]
      · have hdecisive : c.decisive key = some value := findSome?_nonNull_of_id hlast hnull
        rw [hdecisive]
        cases value <;> simp [nonNull] at hnull ⊢

/-- Loading the saved file into a fresh `Config` gives the same lookups exactly if no key without an
environment variable has null for its last value and another value before. -/
theorem lookup_saved_iff (lib : JsonLibrary Double Text)
    (hparse : ∀ value, lib.parse (lib.serializePretty value) = .ok value) (c : Config Double)
    (hsources : c.configSources ≠ []) (filePath : QString) :
    ∃ text fresh, c.saveToFile lib true filePath = .ok text ∧
      (∀ files : QString → Option Text, files filePath = some text →
        ({} : Config Double).loadFile lib files filePath = (.ok (), fresh)) ∧
      ∀ mapping environment,
        ((∀ key, c.getEnvValue mapping environment key = none →
            fresh.getEnvValue mapping environment key = none →
            fresh.getValueLocked lib mapping environment key =
              c.getValueLocked lib mapping environment key) ↔
          ∀ key, c.getEnvValue mapping environment key = none →
            fresh.getEnvValue mapping environment key = none →
            c.lastValue key = some .null → c.decisive key = none) := by
  let saved : Data Double := Json.toData (c.merged.entries.map fun entry => (entry.1, entry.2))
  refine ⟨lib.serializePretty (Json.ofData c.merged), { configSources := [⟨saved, some filePath⟩] },
    ?_, ?_, ?_⟩
  · unfold saveToFile
    rw [if_neg hsources]
    rfl
  · intro files hfiles
    unfold loadFile loadJsonFileLocked load
    rw [hfiles]
    simp only [hparse, Json.ofData]
    rfl
  · intro mapping environment
    apply forall_congr'
    intro key
    apply imp_congr_right
    intro henv
    apply imp_congr_right
    intro hfresh
    unfold getValueLocked
    rw [henv, hfresh, ← nonNull_lastValue_iff lib, ← lookup_merged, ← lookup_toData_ofData]
    simp only [findValue_eq]
    unfold decisive occurrences
    simp only [List.map_cons, List.map_nil, List.reverse_singleton, List.findSome?_singleton]
    exact Iff.rfl

/-! ### A null that hides a value -/

/-- A library whose texts are the values they stand for. -/
def verbatim : JsonLibrary Unit (Json Unit) where
  dump _ := []
  serializePretty value := value
  parse text := .ok text

/-- The value 1, and null for the same key in a later file. -/
def hiddenByNull : Config Unit where
  configSources := [⟨Json.toData [(['k'], .integer 1)], none⟩, ⟨Json.toData [(['k'], .null)], none⟩]

theorem lookup_saved_iff_hiddenByNull :
    ∃ text fresh, hiddenByNull.saveToFile verbatim true ['f'] = .ok text ∧
      (∀ files : QString → Option (Json Unit), files ['f'] = some text →
        ({} : Config Unit).loadFile verbatim files ['f'] = (.ok (), fresh)) ∧
      ∀ mapping environment,
        ((∀ key, hiddenByNull.getEnvValue mapping environment key = none →
            fresh.getEnvValue mapping environment key = none →
            fresh.getValueLocked verbatim mapping environment key =
              hiddenByNull.getValueLocked verbatim mapping environment key) ↔
          ∀ key, hiddenByNull.getEnvValue mapping environment key = none →
            fresh.getEnvValue mapping environment key = none →
            hiddenByNull.lastValue key = some .null → hiddenByNull.decisive key = none) :=
  lookup_saved_iff verbatim (fun _ => rfl) hiddenByNull (by simp [hiddenByNull]) ['f']

/-- Before saving the lookup passes over the null, afterwards there is nothing else. -/
theorem value_lost_by_saving :
    (∀ value, verbatim.parse (verbatim.serializePretty value) = .ok value) ∧
      ∃ text fresh, hiddenByNull.saveToFile verbatim true ['f'] = .ok text ∧
        ({} : Config Unit).loadFile verbatim (fun _ => some text) ['f'] = (.ok (), fresh) ∧
        hiddenByNull.getValueLocked verbatim .ascii ∅ ['k'] = some (.longLong 1) ∧
        fresh.getValueLocked verbatim .ascii ∅ ['k'] = none :=
  ⟨fun _ => rfl, _, _, rfl, rfl, rfl, rfl⟩

end SoulCoreKit.Configuration.Config
