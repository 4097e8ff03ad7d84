import SoulCoreKit.Core.Result
import SoulCoreKit.Lib.Layering

/-!
# The configuration centre

`sc::Config` over sources that are all `JsonConfiguration`s: no other class is ever pushed to
`m_configSources`. The JSON library, the case mappings of `QString`, the process environment and the
files are arguments. The data of a source is an association list with distinct keys; its order is not
the one of the keys, on which no result depends. The type of floating-point numbers is arbitrary: they
are only passed on.

A source records no file in the program. Here it carries the path it was loaded from, which no
function reads.
-/

namespace SoulCoreKit.Configuration

abbrev QString := List Char

/-- `nlohmann::json`; integers are those of `int64_t` and of `uint64_t`. -/
inductive Json (Double : Type) where
  | null
  | string (text : QString)
  | integer (number : Int)
  | float (number : Double)
  | boolean (value : Bool)
  | array (elements : List (Json Double))
  | object (members : List (QString × Json Double))

/-- The values a valid `QVariant` holds here. -/
inductive QVariant (Double : Type) where
  | string (text : QString)
  | longLong (number : Int64)
  | double (number : Double)
  | bool (value : Bool)
  | list (elements : List (QVariant Double))
  | map (members : List (QString × QVariant Double))

abbrev QVariantMap (Double : Type) := UnorderedMap QString (QVariant Double)

/-- `dump`, `dump(2)` and `parse` of the JSON library. -/
structure JsonLibrary (Double Text : Type) where
  dump : Json Double → QString
  serializePretty : Json Double → Text
  parse : Text → Result (Json Double)

structure CaseMapping where
  toUpper : QString → QString
  toLower : QString → QString

def CaseMapping.ascii : CaseMapping where
  toUpper text := text.map Char.toUpper
  toLower text := text.map Char.toLower

/-- The process environment, in the order of `QProcessEnvironment::keys`. -/
abbrev Environment := AList fun _ : QString => QString

abbrev Data (Double : Type) := AList fun _ : QString => Json Double

variable {Double Text : Type}

namespace Json

/-- The four kinds of values every conversion treats alike. -/
def scalar : Json Double → Option (QVariant Double)
  | .string text => some (.string text)
  | .integer number => some (.longLong (Int64.ofInt number))
  | .float number => some (.double number)
  | .boolean value => some (.bool value)
  | _ => none

def members (entries : List (QString × Json Double)) : List (QString × QVariant Double) :=
  entries.filterMap fun entry => entry.2.scalar.map fun value => (entry.1, value)

/-- The conversion of `getValueLocked`: an element that is not a scalar becomes its text. -/
def toVariant (dump : Json Double → QString) : Json Double → Option (QVariant Double)
  | .array elements =>
      some (.list (elements.map fun element => element.scalar.getD (.string (dump element))))
  | .object entries => some (.map (members entries))
  | value => value.scalar

/-- The conversion of `getGroup` and of `getAll`: such an element is left out. -/
def toBulkVariant : Json Double → Option (QVariant Double)
  | .array elements => some (.list (elements.filterMap scalar))
  | .object entries => some (.map (members entries))
  | value => value.scalar

def toData (entries : List (QString × Json Double)) : Data Double :=
  (entries.map fun entry => (⟨entry.1, entry.2⟩ : Sigma fun _ : QString => Json Double)).toAList

def ofData (data : Data Double) : Json Double :=
  .object (data.entries.map fun entry => (entry.1, entry.2))

end Json

/-- `JsonConfiguration`, with the file it came from. -/
structure Source (Double : Type) where
  data : Data Double := ∅
  origin : Option QString := none

/-- The values the four setters pass to `setValueLocked`. -/
inductive Setting (Double : Type) where
  | string (text : QString)
  | int (number : Int32)
  | double (number : Double)
  | bool (value : Bool)

def Setting.toJson : Setting Double → Json Double
  | .string text => .string text
  | .int number => .integer number.toInt
  | .double number => .float number
  | .bool value => .boolean value

/-- `JsonConfiguration::load`: the data it assigns. The file is `none` when it cannot be opened. -/
def load (lib : JsonLibrary Double Text) (files : QString → Option Text) (filePath : QString) :
    Result (Data Double) :=
  match files filePath with
  | none => .error ⟨.notFound, "Failed to open config file: " ++ String.ofList filePath⟩
  | some text =>
      match lib.parse text with
      | .error error => .error error
      | .ok (.object entries) => .ok (Json.toData entries)
      | .ok _ => .error ⟨.parseError, "Invalid JSON format in config file"⟩

structure Config (Double : Type) where
  configSources : List (Source Double) := []
  envPrefix : QString := "SOUL_".toList

namespace Config

variable (lib : JsonLibrary Double Text) (mapping : CaseMapping) (environment : Environment)

def loadJsonFileLocked (c : Config Double) (files : QString → Option Text) (filePath : QString) :
    Bool × Config Double :=
  match load lib files filePath with
  | .ok data => (true, { c with configSources := c.configSources ++ [⟨data, some filePath⟩] })
  | .error _ => (false, c)

def loadFile (c : Config Double) (files : QString → Option Text) (filePath : QString) :
    Result Unit × Config Double :=
  match c.loadJsonFileLocked lib files filePath with
  | (true, c) => (.ok (), c)
  | (false, c) =>
      (.error ⟨.internalError, "Failed to load config file: " ++ String.ofList filePath⟩, c)

def onFileChanged (c : Config Double) (files : QString → Option Text) (path : QString) :
    Config Double :=
  { c with
    configSources := c.configSources.map fun source =>
      match load lib files path with
      | .ok data => { source with data }
      | .error _ => source }

/-- A new source is made when there is none; the last one is written. -/
def setValueLocked (c : Config Double) (key : QString) (value : Setting Double) : Config Double :=
  let sources := if c.configSources = [] then [{}] else c.configSources
  { c with
    configSources := sources.dropLast ++
      sources.getLast?.toList.map fun source =>
        { source with data := source.data.insert key value.toJson } }

def remove (c : Config Double) (key : QString) : Config Double :=
  { c with
    configSources := c.configSources.map fun source =>
      { source with data := source.data.erase key } }

def replace (old new : Char) (text : QString) : QString :=
  text.map fun char => if char = old then new else char

def getEnvKey (c : Config Double) (key : QString) : QString :=
  c.envPrefix ++ replace '.' '_' (mapping.toUpper key)

def getEnvValue (c : Config Double) (key : QString) : Option QString :=
  environment.lookup (c.getEnvKey mapping key)

/-- The search through the sources, from the last one to the first. -/
def findValue (c : Config Double) (key : QString) : Option (QVariant Double) :=
  c.configSources.reverse.findSome? fun source =>
    match source.data.lookup key with
    | none => none
    | some value => value.toVariant lib.dump

def getValueLocked (c : Config Double) (key : QString) : Option (QVariant Double) :=
  match c.getEnvValue mapping environment key with
  | some value => some (.string value)
  | none => c.findValue lib key

def contains (c : Config Double) (key : QString) : Bool :=
  (c.getValueLocked lib mapping environment key).isSome

/-- The text after a beginning, when a text has it. -/
def rest (beginning text : QString) : Option QString :=
  if beginning.isPrefixOf text then some (text.drop beginning.length) else none

/-- One member of a source in the loop of `getGroup`. -/
def groupBinding (beginning : QString) (entry : Sigma fun _ : QString => Json Double) :
    Option (QString × QVariant Double) :=
  match rest beginning entry.1, entry.2.toBulkVariant with
  | some subKey, some value => some (subKey, value)
  | _, _ => none

/-- One variable in the second loop of `getGroup`. -/
def variableBinding (beginning : QString) (entry : Sigma fun _ : QString => QString) :
    Option (QString × QVariant Double) :=
  match rest beginning entry.1 with
  | some name => some (replace '_' '.' (mapping.toLower name), .string entry.2)
  | none => none

def getGroup (c : Config Double) (group : QString) : QVariantMap Double :=
  let result := c.configSources.foldl (fun result source =>
    Layering.overwrite (groupBinding (group ++ ['.'])) result source.data.entries) ∅
  let envPrefix := c.envPrefix ++ replace '.' '_' (mapping.toUpper group) ++ ['_']
  Layering.overwrite (variableBinding mapping envPrefix) result environment.entries

def getAll (c : Config Double) : QVariantMap Double :=
  c.configSources.foldl (fun result source =>
    Layering.overwrite (fun entry => entry.2.toBulkVariant.map fun value => (entry.1, value)) result
      source.data.entries) ∅

def merged (c : Config Double) : Data Double :=
  c.configSources.foldl (fun merged source =>
    source.data.entries.foldl (fun merged entry => merged.insert entry.1 entry.2) merged) ∅

/-- The text that is written to the file, if it can be opened. -/
def saveToFile (c : Config Double) (writable : Bool) (filePath : QString) : Result Text :=
  if c.configSources = [] then
    .error ⟨.internalError, "No config sources to save"⟩
  else if ¬ writable then
    .error ⟨.fileWriteError, "Cannot write file: " ++ String.ofList filePath⟩
  else
    .ok (lib.serializePretty (Json.ofData c.merged))

/-! ### What the sources say about a key -/

def occurrences (c : Config Double) (key : QString) : List (Option (Json Double)) :=
  c.configSources.map fun source => source.data.lookup key

/-- A value that a conversion does not pass over. -/
def nonNull : Option (Json Double) → Option (Json Double)
  | some .null => none
  | value => value

/-- The last value of the key that is not null. -/
def decisive (c : Config Double) (key : QString) : Option (Json Double) :=
  (c.occurrences key).reverse.findSome? nonNull

/-- A conversion that passes over null and over nothing else. -/
def PassesNull (convert : Json Double → Option (QVariant Double)) : Prop :=
  ∀ value, convert value = none ↔ value = .null

theorem passesNull_toVariant (dump : Json Double → QString) : PassesNull (Json.toVariant dump) := by
  intro value
  cases value <;> simp [Json.toVariant, Json.scalar]

theorem passesNull_toBulkVariant : PassesNull (@Json.toBulkVariant Double) := by
  intro value
  cases value <;> simp [Json.toBulkVariant, Json.scalar]

theorem bind_eq_nonNull_bind {convert : Json Double → Option (QVariant Double)}
    (hconvert : PassesNull convert) (value : Option (Json Double)) :
    value.bind convert = (nonNull value).bind convert := by
  cases value with
  | none => rfl
  | some value =>
      by_cases hnull : value = .null
      · subst hnull
        exact (hconvert _).mpr rfl
      · cases value <;> first | rfl | exact absurd rfl hnull

/-- Whatever the conversion, a search for a value it does not pass over ends at the decisive one. -/
theorem findSome?_convert (c : Config Double) (key : QString)
    {convert : Json Double → Option (QVariant Double)} (hconvert : PassesNull convert) :
    (c.configSources.reverse.findSome? fun source => (source.data.lookup key).bind convert) =
      (c.decisive key).bind convert := by
  unfold decisive occurrences
  rw [← List.map_reverse, List.findSome?_map]
  induction c.configSources.reverse with
  | nil => rfl
  | cons source sources ih =>
      rw [List.findSome?_cons, List.findSome?_cons, ih, bind_eq_nonNull_bind hconvert, Function.comp_apply]
      cases hvalue : nonNull (source.data.lookup key) with
      | none => rfl
      | some value =>
          have hne : value ≠ .null := by
            rintro rfl
            cases hlookup : source.data.lookup key with
            | none => simp [hlookup, nonNull] at hvalue
            | some found =>
                rw [hlookup] at hvalue
                cases found <;> simp [nonNull] at hvalue
          cases hconverted : convert value with
          | none => exact absurd ((hconvert value).mp hconverted) hne
          | some variant => simp [hconverted]

theorem findValue_eq (c : Config Double) (key : QString) :
    c.findValue lib key = (c.decisive key).bind (Json.toVariant lib.dump) := by
  rw [← c.findSome?_convert key (passesNull_toVariant lib.dump)]
  unfold findValue
  congr 1
  funext source
  cases source.data.lookup key with
  | none => rfl
  | some value => rfl

/-! ### Writing -/

theorem decisive_concat (sources : List (Source Double)) (last : Source Double) (envPrefix : QString)
    (key : QString) :
    decisive ⟨sources ++ [last], envPrefix⟩ key =
      (nonNull (last.data.lookup key)).or (decisive ⟨sources, envPrefix⟩ key) := by
  unfold decisive occurrences
  rw [List.map_append, List.map_singleton, List.reverse_append, List.reverse_singleton,
    List.singleton_append, List.findSome?_cons]
  cases nonNull (last.data.lookup key) with
  | none => rfl
  | some value => rfl

theorem nonNull_toJson (value : Setting Double) : nonNull (some value.toJson) = some value.toJson := by
  cases value <;> rfl

/-- A value that is set is what lookups find, and no other key is touched. -/
theorem decisive_setValueLocked (c : Config Double) (key other : QString) (value : Setting Double) :
    (c.setValueLocked key value).decisive other =
      if other = key then some value.toJson else c.decisive other := by
  obtain ⟨sources, envPrefix⟩ := c
  -- The last source is the one that is written, or a new one.
  obtain ⟨before, last, hset, hdecisive⟩ : ∃ before last,
      setValueLocked ⟨sources, envPrefix⟩ key value =
        ⟨before ++ [{ last with data := last.data.insert key value.toJson }], envPrefix⟩ ∧
      decisive ⟨sources, envPrefix⟩ other = decisive ⟨before ++ [last], envPrefix⟩ other := by
    cases sources using List.reverseRecOn with
    | nil => exact ⟨[], {}, rfl, rfl⟩
    | append_singleton before last => exact ⟨before, last, by simp [setValueLocked], rfl⟩
  rw [hset, decisive_concat]
  by_cases heq : other = key
  · subst heq
    rw [AList.lookup_insert, nonNull_toJson, if_pos rfl]
    rfl
  · rw [AList.lookup_insert_ne heq, if_neg heq, hdecisive, decisive_concat]

theorem decisive_remove (c : Config Double) (key other : QString) :
    (c.remove key).decisive other = if other = key then none else c.decisive other := by
  obtain ⟨sources, envPrefix⟩ := c
  induction sources using List.reverseRecOn with
  | nil => exact (ite_self none).symm
  | append_singleton before last ih =>
      have hremove : remove ⟨before ++ [last], envPrefix⟩ key =
          ⟨(remove ⟨before, envPrefix⟩ key).configSources ++
            [{ last with data := last.data.erase key }], envPrefix⟩ := by
        simp [remove]
      rw [hremove, decisive_concat, decisive_concat]
      change (nonNull _).or ((remove ⟨before, envPrefix⟩ key).decisive other) = _
      rw [ih]
      by_cases heq : other = key
      · subst heq
        rw [AList.lookup_erase, if_pos rfl, if_pos rfl]
        rfl
      · rw [AList.lookup_erase_ne heq, if_neg heq, if_neg heq]

theorem getValueLocked_congr {c d : Config Double} {key : QString} (hsame : d.envPrefix = c.envPrefix)
    (hoccurrences : d.occurrences key = c.occurrences key) :
    d.getValueLocked lib mapping environment key = c.getValueLocked lib mapping environment key := by
  have hdecisive : d.decisive key = c.decisive key := by
    unfold decisive
    rw [hoccurrences]
  have henv : d.getEnvValue mapping environment key = c.getEnvValue mapping environment key := by
    unfold getEnvValue getEnvKey
    rw [hsame]
  unfold getValueLocked
  rw [henv, findValue_eq, findValue_eq, hdecisive]

end Config

end SoulCoreKit.Configuration
