import SoulCoreKit.Lib.UnorderedMap

/-!
# Layers of bindings

Two ways to read a list of layers, each of which binds keys to values. A loop over all bindings that
writes them into one map lets the last binding of a key win; a search through the layers from the last
to the first takes the first hit. `latest` says what both compute: the last binding of a key.
-/

namespace SoulCoreKit.Layering

variable {E K V : Type} [DecidableEq K]

/-- A loop that writes what it reads off each entry into a map. -/
def overwrite (binding : E → Option (K × V)) (start : UnorderedMap K V) (entries : List E) :
    UnorderedMap K V :=
  entries.foldl (fun result entry =>
    match binding entry with
    | none => result
    | some (key, value) => result.insert key value) start

/-- The value an entry binds the key to. -/
def boundTo (binding : E → Option (K × V)) (key : K) (entry : E) : Option V :=
  (binding entry).bind fun bound => if bound.1 = key then some bound.2 else none

/-- The last entry that binds the key decides. -/
def latest (binding : E → Option (K × V)) (key : K) (entries : List E) : Option V :=
  entries.reverse.findSome? (boundTo binding key)

variable {binding : E → Option (K × V)} {key : K}

theorem latest_concat (entries : List E) (entry : E) :
    latest binding key (entries ++ [entry]) =
      (boundTo binding key entry).or (latest binding key entries) := by
  unfold latest
  rw [List.reverse_append, List.reverse_singleton, List.singleton_append, List.findSome?_cons]
  cases boundTo binding key entry with
  | none => rfl
  | some value => rfl

theorem lookup_overwrite (start : UnorderedMap K V) (entries : List E) :
    (overwrite binding start entries).lookup key =
      (latest binding key entries).or (start.lookup key) := by
  induction entries using List.reverseRecOn with
  | nil => rfl
  | append_singleton entries entry ih =>
      have hloop : overwrite binding start (entries ++ [entry]) =
          overwrite binding (overwrite binding start entries) [entry] := by
        unfold overwrite
        rw [List.foldl_append]
      rw [hloop, latest_concat, Option.or_assoc, ← ih]
      unfold overwrite boundTo
      dsimp only [List.foldl_cons, List.foldl_nil]
      cases hbinding : binding entry with
      | none => rfl
      | some bound =>
          by_cases heq : bound.1 = key
          · simp [heq]
          · simp [heq, Finmap.lookup_insert_of_ne _ (Ne.symm heq)]

theorem overwrite_layers {S : Type} (entries : S → List E) (start : UnorderedMap K V) (layers : List S) :
    layers.foldl (fun result layer => overwrite binding result (entries layer)) start =
      overwrite binding start (layers.flatMap entries) := by
  unfold overwrite
  rw [List.foldl_flatMap]

/-- A loop over the entries of all layers: the last layer that binds the key decides. -/
theorem latest_flatMap {S : Type} (entries : S → List E) (layers : List S) :
    latest binding key (layers.flatMap entries) =
      layers.reverse.findSome? fun layer => latest binding key (entries layer) := by
  induction layers using List.reverseRecOn with
  | nil => rfl
  | append_singleton layers layer ih =>
      rw [List.flatMap_append, List.flatMap_singleton, List.reverse_append, List.reverse_singleton,
        List.singleton_append, List.findSome?_cons, ← ih]
      unfold latest
      rw [List.reverse_append, List.findSome?_append]
      cases List.findSome? (boundTo binding key) (entries layer).reverse with
      | none => rfl
      | some value => rfl

theorem latest_map {W : Type} (convert : V → W) {binding' : E → Option (K × W)}
    (hbinding : ∀ entry, binding' entry = (binding entry).map fun bound => (bound.1, convert bound.2))
    (entries : List E) : latest binding' key entries = (latest binding key entries).map convert := by
  unfold latest
  induction entries.reverse with
  | nil => rfl
  | cons entry entries ih =>
      rw [List.findSome?_cons, List.findSome?_cons, ih]
      unfold boundTo
      rw [hbinding]
      cases binding entry with
      | none => rfl
      | some bound =>
          by_cases heq : bound.1 = key
          · simp [heq]
          · simp [heq]

/-- In a layer that binds every key at most once, the latest binding is the one that is looked up. -/
theorem latest_entries {J : Type} (layer : AList fun _ : K => J) {key : K} {W : Type}
    {binding : (Sigma fun _ : K => J) → Option (W × V)} [DecidableEq W] {name : W}
    {convert : J → Option V}
    (hbound : ∀ entry, boundTo binding name entry = if entry.1 = key then convert entry.2 else none) :
    latest binding name layer.entries = (layer.lookup key).bind convert := by
  unfold latest AList.lookup
  have hnodup := layer.nodupKeys
  generalize layer.entries = entries at hnodup
  induction entries with
  | nil => rfl
  | cons entry entries ih =>
      rw [List.nodupKeys_cons] at hnodup
      rw [List.reverse_cons, List.findSome?_append, ih hnodup.2, List.findSome?_singleton, hbound]
      by_cases heq : entry.1 = key
      · subst heq
        have hrest : List.dlookup entry.1 entries = none := List.dlookup_eq_none.mpr hnodup.1
        rw [hrest, List.dlookup_cons_eq]
        simp
      · rw [if_neg heq, List.dlookup_cons_ne _ _ (Ne.symm heq)]
        simp

end SoulCoreKit.Layering
