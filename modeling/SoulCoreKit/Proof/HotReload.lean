import SoulCoreKit.Configuration.Config

/-!
# Hot reload

`onFileChanged` loads the changed file into every source. A reload should replace what the file's own
source holds and leave the others alone; it does so exactly when every other source already holds the
new content.
-/

namespace SoulCoreKit.Configuration

variable {Double Text : Type} {lib : JsonLibrary Double Text} {files : QString → Option Text}
  {path : QString} {content : Data Double}

def Source.Holds (source : Source Double) (content : Data Double) : Prop :=
  ∀ key, source.data.lookup key = content.lookup key

namespace Config

/-- What a reload of one file does to a source. -/
structure ReloadedSource (path : QString) (content : Data Double) (old new : Source Double) : Prop where
  origin_eq : new.origin = old.origin
  own : old.origin = some path → new.Holds content
  other : old.origin ≠ some path → new.Holds old.data

/-- What a reload of one file does: source by source, in the same order, and to the values of the keys
that the file had nothing to do with. -/
structure Reloaded (lib : JsonLibrary Double Text) (path : QString) (content : Data Double)
    (old new : Config Double) : Prop where
  sources : List.Forall₂ (ReloadedSource path content) old.configSources new.configSources
  values : ∀ mapping environment key,
    (∀ source ∈ old.configSources, source.origin = some path → key ∉ source.data) →
    key ∉ content →
    new.getValueLocked lib mapping environment key = old.getValueLocked lib mapping environment key

theorem onFileChanged_of_load (hload : load lib files path = .ok content) (c : Config Double) :
    c.onFileChanged lib files path =
      { c with configSources := c.configSources.map fun source => { source with data := content } } := by
  unfold onFileChanged
  simp only [hload]

/-- A key the file has nothing to do with is in no source at all, before and after. -/
theorem occurrences_onFileChanged (hload : load lib files path = .ok content) {c : Config Double}
    (hother : ∀ source ∈ c.configSources, source.origin ≠ some path → source.Holds content)
    {key : QString} (hold : ∀ source ∈ c.configSources, source.origin = some path → key ∉ source.data)
    (hnew : key ∉ content) :
    (c.onFileChanged lib files path).occurrences key = c.occurrences key := by
  rw [onFileChanged_of_load hload]
  unfold occurrences
  rw [List.map_map]
  apply List.map_congr_left
  intro source hsource
  have hnone : content.lookup key = none := AList.lookup_eq_none.mpr hnew
  change content.lookup key = source.data.lookup key
  by_cases horigin : source.origin = some path
  · rw [hnone, AList.lookup_eq_none.mpr (hold source hsource horigin)]
  · rw [hother source hsource horigin key]

theorem reloaded_onFileChanged_iff (lib : JsonLibrary Double Text) (files : QString → Option Text)
    (path : QString) (content : Data Double) (hload : load lib files path = .ok content)
    (c : Config Double) :
    Reloaded lib path content c (c.onFileChanged lib files path) ↔
      ∀ source ∈ c.configSources, source.origin ≠ some path → source.Holds content := by
  have hsources : (c.onFileChanged lib files path).configSources =
      c.configSources.map fun source => { source with data := content } := by
    rw [onFileChanged_of_load hload]
  constructor
  · intro hreloaded source hsource horigin key
    have hforall := hreloaded.sources
    rw [hsources, List.forall₂_map_right_iff, List.forall₂_same] at hforall
    exact ((hforall source hsource).other horigin key).symm
  · intro hother
    constructor
    · rw [hsources, List.forall₂_map_right_iff, List.forall₂_same]
      intro source hsource
      exact ⟨rfl, fun _ _ => rfl, fun horigin key => (hother source hsource horigin key).symm⟩
    · intro mapping environment key hold hnew
      apply getValueLocked_congr
      · rw [onFileChanged_of_load hload]
      · exact occurrences_onFileChanged hload hother hold hnew

/-! ### Two files -/

def parseSample (text : String) : Result (Json Unit) :=
  if text = "\x7b\"a\": 1\x7d" then
    .ok (.object [(['a'], .integer 1)])
  else if text = "\x7b\"a\": 3\x7d" then
    .ok (.object [(['a'], .integer 3)])
  else if text = "\x7b\"b\": 2\x7d" then
    .ok (.object [(['b'], .integer 2)])
  else
    .error ⟨.deserializationError, "syntax error"⟩

def sampleLibrary : JsonLibrary Unit String where
  dump _ := []
  serializePretty _ := ""
  parse := parseSample

def baseFile : QString := "base.json".toList

def localFile : QString := "local.json".toList

def filesBefore (path : QString) : Option String :=
  if path = baseFile then some "\x7b\"a\": 1\x7d"
  else if path = localFile then some "\x7b\"b\": 2\x7d"
  else none

def filesAfter (path : QString) : Option String :=
  if path = baseFile then some "\x7b\"a\": 3\x7d" else filesBefore path

def twoFiles : Config Unit :=
  let c := (({} : Config Unit).loadFile sampleLibrary filesBefore baseFile).2
  (c.loadFile sampleLibrary filesBefore localFile).2

def newBase : Data Unit := Json.toData [(['a'], .integer 3)]

theorem reloaded_onFileChanged_iff_twoFiles :
    load sampleLibrary filesAfter baseFile = .ok newBase ∧
      (Reloaded sampleLibrary baseFile newBase twoFiles
          (twoFiles.onFileChanged sampleLibrary filesAfter baseFile) ↔
        ∀ source ∈ twoFiles.configSources, source.origin ≠ some baseFile → source.Holds newBase) :=
  ⟨rfl, reloaded_onFileChanged_iff sampleLibrary filesAfter baseFile newBase rfl twoFiles⟩

/-- The other file's source is overwritten too, and its key `b` is gone. -/
theorem other_file_overwritten :
    load sampleLibrary filesAfter baseFile = .ok newBase ∧
      ¬ Reloaded sampleLibrary baseFile newBase twoFiles
        (twoFiles.onFileChanged sampleLibrary filesAfter baseFile) := by
  refine ⟨rfl, ?_⟩
  intro hreloaded
  have hsources := hreloaded.sources
  have hlocal : ReloadedSource baseFile newBase ⟨Json.toData [(['b'], .integer 2)], some localFile⟩
      ⟨newBase, some localFile⟩ := by
    exact (List.forall₂_cons.mp (List.forall₂_cons.mp hsources).2).1
  have hkey := hlocal.other (by decide) ['b']
  exact absurd hkey (by simp [newBase, Json.toData])

end Config

end SoulCoreKit.Configuration
