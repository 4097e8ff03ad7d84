import SoulCoreKit.Lib.GroupIndex
import SoulCoreKit.Orm.CachedRepository

/-!
# Invalidating a table

`m_tableKeys` of the query result cache is only appended to, and what leaves the cache in any other way
than with its table stays listed. So the lists run full of keys that are gone and of repetitions. They
still group the cached keys by table: a put is the one call that brings a key into the cache, and it
lists the key whether or not it is listed already.
-/

namespace SoulCoreKit.Orm.QueryResultCache

open SoulCoreKit.Cache (Time Millis)
open GroupIndex

variable {T : Type} {c : QueryResultCache T} {key table : String}

/-- The text of the key before its first colon is the name of the table. -/
def InTable (table key : String) : Prop :=
  ':' ∉ table.toList ∧ ∃ rest, key.toList = table.toList ++ ':' :: rest

/-- The table a key is listed under. -/
def tableOf (key : String) : Option String :=
  if extractTableName key = "" then none else some (extractTableName key)

def Op.Puts (key : String) : Op T → Prop
  | .put other _ _ _ => other = key
  | _ => False

theorem extractTableName_of_inTable (hin : InTable table key) : extractTableName key = table := by
  obtain ⟨hcolon, rest, hkey⟩ := hin
  have hbefore : key.toList.takeWhile (· ≠ ':') = table.toList := by
    rw [hkey, List.takeWhile_append_of_pos]
    · simp
    · intro char hchar
      have hne : char ≠ ':' := by
        rintro rfl
        exact hcolon hchar
      simpa using hne
  unfold extractTableName
  rw [if_pos (by simp [hkey]), hbefore]
  exact String.ofList_toList

theorem inTable_of_extractTableName (hne : table ≠ "") (htable : extractTableName key = table) :
    InTable table key := by
  by_cases hcolon : ':' ∈ key.toList
  · obtain ⟨before, rest, hkey, hbefore⟩ := List.eq_append_cons_of_mem hcolon
    have hin : InTable (String.ofList before) key := by
      unfold InTable
      rw [String.toList_ofList]
      exact ⟨hbefore, rest, hkey⟩
    rwa [← htable, extractTableName_of_inTable hin]
  · unfold extractTableName at htable
    rw [if_neg hcolon] at htable
    exact absurd htable.symm hne

theorem tableOf_eq_some_iff (hne : table ≠ "") : tableOf key = some table ↔ InTable table key := by
  unfold tableOf
  constructor
  · intro htable
    split_ifs at htable
    exact inTable_of_extractTableName hne (Option.some.inj htable)
  · intro hin
    rw [extractTableName_of_inTable hin, if_neg hne]

/-! ### What each call keeps -/

/-- The lists group the cached keys by their tables. -/
def Listed (c : QueryResultCache T) : Prop := Indexed tableOf c.cache c.tableKeys

theorem Listed.put (hlisted : c.Listed) (key : String) (value : T) (ttl : Option Millis) (now : Time) :
    (c.put key value ttl now).Listed := by
  unfold QueryResultCache.put
  dsimp only
  by_cases hname : extractTableName key = ""
  · have htable : tableOf key = none := if_pos hname
    rw [if_neg (not_not.mpr hname)]
    exact Indexed.insert_of_none hlisted htable _
  · have htable : tableOf key = some (extractTableName key) := if_neg hname
    rw [if_pos hname]
    exact Indexed.insert_of_some hlisted htable _

theorem Listed.invalidate (hlisted : c.Listed) (key : String) : (c.invalidate key).Listed :=
  Indexed.of_subset hlisted fun _ hmem => (Finmap.mem_erase.mp hmem).2

theorem invalidateTable_cache (c : QueryResultCache T) (table : String) :
    (c.invalidateTable table).cache = eraseAll c.cache ((c.tableKeys.lookup table).getD []) := by
  unfold invalidateTable
  cases c.tableKeys.lookup table with
  | none => rfl
  | some keys => rfl

theorem invalidateTable_tableKeys (c : QueryResultCache T) (table : String) :
    (c.invalidateTable table).tableKeys = c.tableKeys.erase table := by
  unfold invalidateTable
  cases hlookup : c.tableKeys.lookup table with
  | none => exact (UnorderedMap.erase_of_lookup_none hlookup).symm
  | some keys => rfl

theorem Listed.invalidateTable (hlisted : c.Listed) (table : String) :
    (c.invalidateTable table).Listed := by
  unfold Listed
  rw [invalidateTable_cache, invalidateTable_tableKeys]
  exact Indexed.eraseGroup hlisted table

theorem evictVisited_spec (c : QueryResultCache T) (visited : String) (now : Time) :
    (c.evictVisited visited now).tableKeys = c.tableKeys ∧
      ∀ key ∈ (c.evictVisited visited now).cache, key ∈ c.cache := by
  unfold evictVisited
  split
  · exact ⟨rfl, fun _ hmem => hmem⟩
  · split_ifs
    · exact ⟨rfl, fun _ hmem => (Finmap.mem_erase.mp hmem).2⟩
    · exact ⟨rfl, fun _ hmem => hmem⟩

theorem evictExpired_spec (c : QueryResultCache T) (visits : List (String × Time)) :
    (c.evictExpired visits).tableKeys = c.tableKeys ∧
      ∀ key ∈ (c.evictExpired visits).cache, key ∈ c.cache := by
  unfold evictExpired
  induction visits generalizing c with
  | nil => exact ⟨rfl, fun _ hmem => hmem⟩
  | cons visit visits ih =>
      obtain ⟨hkeys, hsub⟩ := c.evictVisited_spec visit.1 visit.2
      obtain ⟨hkeys', hsub'⟩ := ih (c.evictVisited visit.1 visit.2)
      exact ⟨hkeys'.trans hkeys, fun key hmem => hsub key (hsub' key hmem)⟩

theorem Listed.evictExpired (hlisted : c.Listed) (visits : List (String × Time)) :
    (c.evictExpired visits).Listed := by
  obtain ⟨hkeys, hsub⟩ := c.evictExpired_spec visits
  unfold Listed
  rw [hkeys]
  exact Indexed.of_subset hlisted hsub

theorem Listed.step (hlisted : c.Listed) (op : Op T) : (c.step op).Listed := by
  cases op with
  | put key value ttl now => exact hlisted.put key value ttl now
  | get key now => exact hlisted
  | invalidate key => exact hlisted.invalidate key
  | invalidateTable table => exact hlisted.invalidateTable table
  | evictExpired visits => exact hlisted.evictExpired visits
  | clear => exact indexed_empty tableOf

theorem listed_run (defaultTtl : Millis) (ops : List (Op T)) :
    (run step ({ defaultTtl } : QueryResultCache T) ops).Listed := by
  have hstart : ({ defaultTtl } : QueryResultCache T).Listed := indexed_empty tableOf
  exact run_induction hstart (fun _ op hlisted => hlisted.step op) ops

/-! ### Keys that are gone -/

/-- Only a put brings a key into the cache. -/
theorem notMem_step (hgone : key ∉ c.cache) {op : Op T} (hop : ¬ op.Puts key) :
    key ∉ (c.step op).cache := by
  cases op with
  | put other value ttl now =>
      have hcache : (c.put other value ttl now).cache =
          c.cache.insert other { value, createdAt := now, ttl := ttl.getD c.defaultTtl } := by
        unfold QueryResultCache.put
        dsimp only
        split_ifs <;> rfl
      unfold QueryResultCache.step
      rw [hcache, Finmap.mem_insert, not_or]
      exact ⟨fun heq => hop heq.symm, hgone⟩
  | get other now => exact hgone
  | invalidate other => exact fun hmem => hgone (Finmap.mem_erase.mp hmem).2
  | invalidateTable table =>
      unfold QueryResultCache.step
      rw [invalidateTable_cache, ← Finmap.lookup_eq_none, lookup_eraseAll]
      split_ifs
      · rfl
      · exact Finmap.lookup_eq_none.mpr hgone
  | evictExpired visits => exact fun hmem => hgone ((c.evictExpired_spec visits).2 key hmem)
  | clear => exact Finmap.notMem_empty

theorem notMem_run (hgone : key ∉ c.cache) {ops : List (Op T)} (hops : ∀ op ∈ ops, ¬ op.Puts key) :
    key ∉ (run step c ops).cache := by
  induction ops generalizing c with
  | nil => exact hgone
  | cons op ops ih =>
      apply ih (notMem_step hgone (hops op List.mem_cons_self))
      exact fun later hlater => hops later (List.mem_cons_of_mem op hlater)

theorem get_of_notMem (hgone : key ∉ c.cache) (now : Time) : c.get key now = none := by
  unfold get
  rw [Finmap.lookup_eq_none.mpr hgone]

/-- After any run, every cached key is listed under its table, and invalidating a table makes a get of
each of its keys return nothing until the key is put again, and leaves the entries of all other keys. -/
theorem invalidateTable_exact (defaultTtl : Millis) (ops : List (Op T)) (hne : table ≠ "") :
    let c := run step ({ defaultTtl } : QueryResultCache T) ops
    (∀ key ∈ c.cache, ∀ name, name ≠ "" → InTable name key →
      ∃ keys, c.tableKeys.lookup name = some keys ∧ key ∈ keys) ∧
    (∀ key, InTable table key → ∀ later : List (Op T), (∀ op ∈ later, ¬ op.Puts key) →
      ∀ now, (run step (c.invalidateTable table) later).get key now = none) ∧
    ∀ key, ¬ InTable table key →
      (c.invalidateTable table).cache.lookup key = c.cache.lookup key ∧
        ∀ now, (c.invalidateTable table).get key now = c.get key now := by
  intro c
  have hlisted : c.Listed := listed_run defaultTtl ops
  have hlookup : ∀ key, (c.invalidateTable table).cache.lookup key =
      if tableOf key = some table then none else c.cache.lookup key := by
    intro key
    rw [invalidateTable_cache]
    exact Indexed.lookup_eraseAll hlisted table key
  refine ⟨?_, ?_, ?_⟩
  · intro key hmem name hname hin
    exact hlisted.complete key hmem name ((tableOf_eq_some_iff hname).mpr hin)
  · intro key hin later hlater now
    refine get_of_notMem (notMem_run ?_ hlater) now
    rw [← Finmap.lookup_eq_none, hlookup, if_pos ((tableOf_eq_some_iff hne).mpr hin)]
  · intro key hin
    have hsame : (c.invalidateTable table).cache.lookup key = c.cache.lookup key := by
      rw [hlookup, if_neg (fun htable => hin ((tableOf_eq_some_iff hne).mp htable))]
    refine ⟨hsame, fun now => ?_⟩
    unfold get
    rw [hsame]

/-- Two keys of one table and one of another. -/
def userRun : List (Op Nat) :=
  [.put "users:1" 1 none 0, .put "users:2" 2 none 0, .put "orders:1" 3 none 0, .invalidate "users:2"]

theorem invalidateTable_exact_userRun :
    let c := run step ({ defaultTtl := 0 } : QueryResultCache Nat) userRun
    (run step (c.invalidateTable "users") [.put "users:2" 4 none 6]).get "users:1" 7 = none ∧
      (c.invalidateTable "users").get "orders:1" 7 = some 3 := by
  intro c
  have hne : "users" ≠ "" := by decide
  obtain ⟨-, hgone, hkept⟩ := invalidateTable_exact 0 userRun hne
  have husers : InTable "users" "users:1" := ⟨by decide, "1".toList, by decide⟩
  have horders : ¬ InTable "users" "orders:1" :=
    fun hin => absurd (extractTableName_of_inTable hin) (by decide)
  refine ⟨hgone "users:1" husers _ ?_ 7, ?_⟩
  · intro op hop
    rw [List.mem_singleton.mp hop]
    exact fun heq : "users:2" = "users:1" => absurd heq (by decide)
  · rw [(hkept "orders:1" horders).2 7]
    decide

end SoulCoreKit.Orm.QueryResultCache
