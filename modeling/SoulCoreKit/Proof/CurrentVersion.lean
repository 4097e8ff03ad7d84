import SoulCoreKit.Lib.Run
import SoulCoreKit.Proof.MigrationRollback
import Mathlib.Data.String.Basic

/-!
# The current version and the one a rollback undoes

`currentVersion` reads the history in the order of the stamps and `rollback` in the order of the
versions. The two agree on a history exactly if the row of the greatest version has the latest stamp,
whatever the engine does with equal stamps. A rollback takes the greatest version away, so along a run
every two rows have to be in the same order both ways, which is a matter of what `migrate` adds to the
table and when.
-/

namespace SoulCoreKit.Orm

variable {S : Type}

namespace MigrationManager

/-- The greatest of the versions, or the empty string. -/
def greatest (versions : List QString) : QString := (descending versions).headD []

/-- The row of the greatest version is later than all others. -/
def LatestIsGreatest (rows : List MigrationRecord) : Prop :=
  ∀ top ∈ rows, (∀ row ∈ rows, versionLess top.version row.version = false) →
    ∀ row ∈ rows, row ≠ top → row.appliedAt < top.appliedAt

/-! ### The last of the rows -/

theorem greatest_mem {versions : List QString} (hversions : versions ≠ []) :
    greatest versions ∈ versions ∧
      ∀ version ∈ versions, versionLess (greatest versions) version = false := by
  have hperm := descending_perm versions
  have hsorted := descending_sorted versions
  unfold greatest
  cases hdescending : descending versions with
  | nil =>
    rw [hdescending] at hperm
    exact absurd hperm.symm.eq_nil hversions
  | cons top rest =>
    rw [hdescending] at hperm hsorted
    rw [List.pairwise_cons] at hsorted
    refine ⟨hperm.mem_iff.mp List.mem_cons_self, ?_⟩
    intro version hversion
    obtain rfl | hrest := List.mem_cons.mp (hperm.mem_iff.mpr hversion)
    · exact versionLess_irrefl _
    · exact hsorted.1 version hrest

theorem eq_greatest {versions : List QString} {top : QString} (htop : top ∈ versions)
    (hmax : ∀ version ∈ versions, versionLess top version = false) : top = greatest versions := by
  obtain ⟨hmem, hgreatest⟩ := greatest_mem (List.ne_nil_of_mem htop)
  exact versionLess_antisymm (hmax _ hmem) (hgreatest top htop)

/-- The last row of an ascending list has a stamp that no row exceeds. -/
theorem last_latest (order : AppliedAtOrder) {rows : List MigrationRecord} {last : MigrationRecord}
    (hlast : (order.arrange rows).getLast? = some last) :
    last ∈ rows ∧ ∀ row ∈ rows, row.appliedAt ≤ last.appliedAt := by
  have hperm := order.perm rows
  have hascending := order.ascending rows
  obtain ⟨init, hinit⟩ := List.getLast?_eq_some_iff.mp hlast
  rw [hinit] at hperm hascending
  rw [List.pairwise_append] at hascending
  refine ⟨hperm.mem_iff.mp (by simp), ?_⟩
  intro row hrow
  obtain hbefore | heq := List.mem_append.mp (hperm.mem_iff.mpr hrow)
  · exact hascending.2.2 row hbefore last List.mem_cons_self
  · rw [List.mem_singleton.mp heq]

theorem lastVersion_nil (order : AppliedAtOrder) : lastVersion (order.arrange []) = [] := by
  rw [(order.perm []).eq_nil]
  rfl

theorem exists_last (order : AppliedAtOrder) {rows : List MigrationRecord} (hrows : rows ≠ []) :
    ∃ last, (order.arrange rows).getLast? = some last ∧ lastVersion (order.arrange rows) = last.version := by
  have harranged : order.arrange rows ≠ [] := by
    intro hnil
    have hperm := order.perm rows
    rw [hnil] at hperm
    exact hrows hperm.symm.eq_nil
  refine ⟨_, List.getLast?_eq_some_getLast harranged, ?_⟩
  rw [lastVersion, List.getLast?_eq_some_getLast harranged]

/-- The stamps ascending, and among equal ones the rows of this version first. -/
def before (version : QString) (a b : MigrationRecord) : Bool :=
  decide (a.appliedAt < b.appliedAt) ||
    (decide (a.appliedAt = b.appliedAt) && (decide (a.version = version) || decide (b.version ≠ version)))

theorem before_iff {version : QString} {a b : MigrationRecord} :
    before version a b = true ↔ a.appliedAt < b.appliedAt ∨
      a.appliedAt = b.appliedAt ∧ (a.version = version ∨ b.version ≠ version) := by
  simp [before]

theorem before_sorted (version : QString) (rows : List MigrationRecord) :
    (rows.mergeSort (before version)).Pairwise fun a b => before version a b = true := by
  apply List.pairwise_mergeSort
  · intro a b c hab hbc
    rw [before_iff] at hab hbc ⊢
    obtain hlt | ⟨heq, hfirst⟩ := hab <;> obtain hlt' | ⟨heq', hfirst'⟩ := hbc
    · exact .inl (hlt.trans hlt')
    · exact .inl (heq' ▸ hlt)
    · exact .inl (heq ▸ hlt')
    · exact .inr ⟨heq.trans heq', by tauto⟩
  · intro a b
    rw [Bool.or_eq_true, before_iff, before_iff]
    obtain hlt | heq | hlt := lt_trichotomy a.appliedAt b.appliedAt
    · exact .inl (.inl hlt)
    · by_cases ha : a.version = version
      · exact .inl (.inr ⟨heq, .inl ha⟩)
      · exact .inr (.inr ⟨heq.symm, .inr ha⟩)
    · exact .inr (.inl hlt)

/-- An engine that gives the row of this version before others with its stamp. -/
def tiesFirst (version : QString) : AppliedAtOrder where
  arrange rows := rows.mergeSort (before version)
  perm rows := List.mergeSort_perm rows _
  ascending rows := (before_sorted version rows).imp fun hbefore => by
    obtain hlt | ⟨heq, _⟩ := before_iff.mp hbefore
    · exact hlt.le
    · exact heq.le

/-- Every engine gives the greatest version last exactly if its row is later than all others. -/
theorem lastVersion_eq_greatest_iff {rows : List MigrationRecord}
    (hkeys : (rows.map MigrationRecord.version).Nodup) :
    (∀ order : AppliedAtOrder,
      lastVersion (order.arrange rows) = greatest (rows.map MigrationRecord.version)) ↔
    LatestIsGreatest rows := by
  constructor
  · intro hall top htop hmax row hrow hne
    have htopVersion : top.version = greatest (rows.map MigrationRecord.version) :=
      eq_greatest (List.mem_map_of_mem htop) (by simpa using hmax)
    obtain ⟨last, hlast, hversion⟩ := exists_last (tiesFirst top.version) (List.ne_nil_of_mem htop)
    rw [hall, ← htopVersion] at hversion
    have hlastTop : last = top :=
      List.inj_on_of_nodup_map hkeys (last_latest _ hlast).1 htop hversion.symm
    rw [hlastTop] at hlast
    -- `top` ends the sorted list, so `row` is before it
    have hsorted := before_sorted top.version rows
    have hperm := List.mergeSort_perm rows (before top.version)
    obtain ⟨init, hinit⟩ := List.getLast?_eq_some_iff.mp hlast
    change rows.mergeSort (before top.version) = _ at hinit
    rw [hinit] at hsorted hperm
    rw [List.pairwise_append] at hsorted
    obtain hbefore | heq := List.mem_append.mp (hperm.mem_iff.mpr hrow)
    · obtain hlt | ⟨_, hsame | hother⟩ := before_iff.mp (hsorted.2.2 row hbefore top List.mem_cons_self)
      · exact hlt
      · exact absurd (List.inj_on_of_nodup_map hkeys hrow htop hsame) hne
      · exact absurd rfl hother
    · exact absurd (List.mem_singleton.mp heq) hne
  · intro hlatest order
    by_cases hrows : rows = []
    · rw [hrows]
      simpa [greatest, descending] using lastVersion_nil order
    · obtain ⟨last, hlast, hversion⟩ := exists_last order hrows
      obtain ⟨hmem, hmax⟩ := @greatest_mem (rows.map MigrationRecord.version) (by simpa)
      obtain ⟨top, htop, htopVersion⟩ := List.mem_map.mp hmem
      rw [hversion, ← htopVersion]
      obtain ⟨hlastMem, hlastLatest⟩ := last_latest order hlast
      by_contra hne
      have hlt := hlatest top htop
        (fun row hrow => htopVersion ▸ hmax _ (List.mem_map_of_mem hrow)) last hlastMem
        fun heq => hne (congrArg _ heq)
      exact absurd (hlastLatest top htop) (not_le.mpr hlt)

/-! ### What the calls do to the rows -/

variable {env : Environment} {mgr : MigrationManager S} {d : Driver S}

/-- The property of the rows that the connection sees and of those that are durable. -/
def Holds (P : List MigrationRecord → Prop) (d : Driver S) : Prop := P d.view.rows ∧ P d.durable.rows

theorem Holds.congr {P : List MigrationRecord → Prop} {d' : Driver S} (hsame : SameData d d')
    (hd : Holds P d) : Holds P d' := by
  unfold Holds
  rw [hsame.viewRows, hsame.rows]
  exact hd

theorem rollback_view (d : Driver S) (db : Database S) (htransaction : d.transaction = some db) :
    (d.rollback env).2.view.rows = d.durable.rows ∨ (d.rollback env).2.view.rows = db.rows := by
  unfold Driver.rollback
  rw [htransaction]
  cases env.refusal d.calls with
  | none => exact .inl rfl
  | some error => exact .inr (by simp [Driver.called, Driver.view, htransaction])

theorem holds_rollback {P : List MigrationRecord → Prop} {db : Database S}
    (htransaction : d.transaction = some db) (hrows : db.rows = d.durable.rows)
    (hdurable : P d.durable.rows) : Holds P (d.rollback env).2 := by
  refine ⟨?_, ?_⟩
  · obtain hview | hview := @rollback_view _ env d db htransaction
    · rwa [hview]
    · rwa [hview, hrows]
  · rwa [Driver.rollback_frame.1]

theorem commit_holds {P : List MigrationRecord → Prop} {db : Database S}
    (htransaction : d.transaction = some db) :
    (d.commit env).2.view.rows = db.rows ∧
      (P d.durable.rows → P db.rows → Holds P (d.commit env).2) := by
  unfold Driver.commit Holds
  rw [htransaction]
  cases env.refusal d.calls with
  | none => exact ⟨rfl, fun _ hdb => ⟨hdb, hdb⟩⟩
  | some error =>
    have hview : d.called.view.rows = db.rows := by simp [Driver.called, Driver.view, htransaction]
    exact ⟨hview, fun hdurable hdb => ⟨hview ▸ hdb, hdurable⟩⟩

/-- A migration leaves the rows as they were, or makes its statement on them. -/
theorem applyMigration_holds {P : List MigrationRecord → Prop} {m : IMigration S} {isUp : Bool}
    (hd : Holds P d)
    (hnew : ∀ schema db, recordStatement env m isUp (d.calls + 2) ⟨schema, d.durable.history⟩ = some db →
      (applyMigration env d m isUp).2.view.rows = db.rows → P db.rows) :
    Holds P (applyMigration env d m isUp).2 := by
  obtain ⟨error, heq⟩ | ⟨error, heq⟩ | ⟨error, heq⟩ | ⟨_, _, _, _, db, hstatement, heq⟩ :=
    applyMigration_stages env d m isUp
  · rw [heq]
    exact hd.congr (sameData_called d)
  · rw [heq]
    exact holds_rollback rfl rfl hd.2
  · rw [heq]
    exact holds_rollback (d := (scripted d (oriented m isUp)).called) rfl rfl hd.2
  · obtain ⟨hview, hholds⟩ :=
      @commit_holds _ env { scripted d (oriented m isUp) with transaction := some db }.called P db rfl
    rw [heq]
    exact hholds hd.2 (hnew _ db hstatement (by rw [heq, hview]))

/-- Every migration that the loop comes to meets the condition. -/
def Meets (env : Environment) (cond : Driver S → IMigration S → Prop) :
    Driver S → List (IMigration S) → Prop
  | _, [] => True
  | d, m :: rest =>
      cond d m ∧ ((applyMigration env d m true).1 = .ok () →
        Meets env cond (applyMigration env d m true).2 rest)

theorem meets_of_forall {cond : Driver S → IMigration S → Prop} (hall : ∀ d m, cond d m) (d : Driver S)
    (migrations : List (IMigration S)) : Meets env cond d migrations := by
  induction migrations generalizing d with
  | nil => trivial
  | cons m rest ih => exact ⟨hall d m, fun _ => ih _⟩

theorem applyAll_induction {Q : Driver S → Prop} {cond : Driver S → IMigration S → Prop}
    {migrations : List (IMigration S)} (hmeets : Meets env cond d migrations) (hd : Q d)
    (hstep : ∀ d m, Q d → cond d m → Q (applyMigration env d m true).2) :
    Q (applyAll env d migrations).2 := by
  induction migrations generalizing d with
  | nil => exact hd
  | cons m rest ih =>
    have hnext := hstep d m hd hmeets.1
    rw [applyAll]
    cases happly : applyMigration env d m true with
    | mk result after =>
    have hrest := hmeets.2
    rw [happly] at hnext hrest
    cases result with
    | error error => exact hnext
    | ok value => exact ih (hrest rfl) hnext

theorem undoAll_induction {Q : Driver S → Prop} {versions : List QString} (hd : Q d)
    (hstep : ∀ d m, Q d → Q (applyMigration env d m false).2) :
    Q (undoAll env mgr d versions).2 := by
  induction versions generalizing d with
  | nil => exact hd
  | cons version rest ih =>
    rw [undoAll]
    cases mgr.registered version with
    | none => exact hd
    | some m =>
      have hnext := hstep d m hd
      dsimp only
      cases happly : applyMigration env d m false with
      | mk result after =>
      rw [happly] at hnext
      cases result with
      | error error => exact hnext
      | ok value => exact ih hnext

/-- The condition on what a `migrate` comes to, once the table is there and the versions are read. -/
def MigrateMeets (env : Environment) (cond : Driver S → IMigration S → Prop) (mgr : MigrationManager S)
    (d : Driver S) : Prop :=
  (ensureMigrationsTable env mgr d).1 = .ok () →
    ∀ applied, (appliedVersions env (ensureMigrationsTable env mgr d).2.2).1 = .ok applied →
      Meets env cond (appliedVersions env (ensureMigrationsTable env mgr d).2.2).2 (mgr.pending applied)

theorem migrate_holds {P : List MigrationRecord → Prop} {cond : Driver S → IMigration S → Prop}
    (hmeets : MigrateMeets env cond mgr d) (hd : Holds P d)
    (hstep : ∀ d m, Holds P d → cond d m → Holds P (applyMigration env d m true).2) :
    Holds P (mgr.migrate env d).2.2 := by
  rw [migrate]
  split
  · exact hd
  · obtain ⟨hmigrations, hsame⟩ := ensureMigrationsTable_spec env mgr d
    unfold MigrateMeets at hmeets
    cases hensure : ensureMigrationsTable env mgr d with
    | mk result rest =>
    obtain ⟨ensured, after⟩ := rest
    rw [hensure] at hmigrations hsame hmeets
    cases result with
    | error error => exact hd.congr hsame
    | ok value =>
      have hmeets' := hmeets rfl
      have hcalled : (appliedVersions env after).2 = after.called :=
        Driver.executeQuery_snd selectVersions
      have hafter : Holds P (appliedVersions env after).2 := by
        rw [hcalled]
        exact (hd.congr hsame).congr (sameData_called after)
      dsimp only at hmeets' ⊢
      cases happlied : appliedVersions env after with
      | mk result ready =>
      rw [happlied] at hafter hmeets'
      cases result with
      | error error => exact hafter
      | ok applied =>
        have hpending : ensured.pending applied = mgr.pending applied := by
          rw [pending, pending, hmigrations]
        change Holds P (applyAll env ready (ensured.pending applied)).2
        rw [hpending]
        exact applyAll_induction (hmeets' applied rfl) hafter hstep

theorem withApplied_holds {P : List MigrationRecord → Prop}
    {loop : MigrationManager S → Driver S → List QString → Result Unit × Driver S} (hd : Holds P d)
    (hloop : ∀ mgr d applied, Holds P d → Holds P (loop mgr d applied).2) :
    Holds P (withApplied env mgr d loop).2.2 := by
  obtain ⟨error, ensured, after, hsame, heq⟩ | ⟨ensured, ready, hsame, _, _, heq⟩ :=
    withApplied_cases env mgr d
  · rw [heq]
    exact hd.congr hsame
  · rw [heq]
    exact hloop _ _ _ (hd.congr hsame)

/-- A `down` takes rows away. -/
theorem applyMigration_down_holds {P : List MigrationRecord → Prop}
    (hfilter : ∀ rows keep, P rows → P (List.filter keep rows)) (m : IMigration S) (hd : Holds P d) :
    Holds P (applyMigration env d m false).2 := by
  refine applyMigration_holds hd ?_
  intro schema db hstatement _
  obtain ⟨rows, hhistory, rfl⟩ := deleteRecord_some hstatement
  have hrows : d.durable.rows = rows := by
    rw [Database.rows, show d.durable.history = some rows from hhistory]
    rfl
  exact hfilter rows _ (hrows ▸ hd.2)

theorem rollback_holds {P : List MigrationRecord → Prop} (steps : Int)
    (hfilter : ∀ rows keep, P rows → P (List.filter keep rows)) (hd : Holds P d) :
    Holds P (mgr.rollback env steps d).2.2 := by
  rw [rollback_eq]
  split
  · exact hd
  · split
    · exact hd
    · exact withApplied_holds hd fun mgr d applied hd =>
        undoAll_induction hd fun _ m hd => applyMigration_down_holds hfilter m hd

/-- The row that an `up` adds is stamped at the third call after those made before. -/
def newRecord (env : Environment) (d : Driver S) (m : IMigration S) : MigrationRecord :=
  ⟨m.version, m.description, env.currentDateTimeUtc (d.calls + 2)⟩

/-- An `up` adds its row to a table that lacks the version. -/
theorem applyMigration_up_holds {P : List MigrationRecord → Prop} (m : IMigration S) (hd : Holds P d)
    (hnew : m.version ∈ (applyMigration env d m true).2.view.versions →
      m.version ∉ d.durable.versions → P (d.durable.rows ++ [newRecord env d m])) :
    Holds P (applyMigration env d m true).2 := by
  refine applyMigration_holds hd ?_
  intro schema db hstatement hview
  change insertRecord (newRecord env d m) _ = some db at hstatement
  have hfresh : m.version ∉ d.durable.versions := by
    intro hmem
    unfold insertRecord at hstatement
    cases hhistory : d.durable.history with
    | none => simp [hhistory] at hstatement
    | some rows =>
      rw [Database.versions, Database.rows, hhistory, Option.getD_some] at hmem
      simp only [hhistory] at hstatement
      rw [if_pos (show (newRecord env d m).version ∈ _ from hmem)] at hstatement
      cases hstatement
  obtain ⟨rows, hhistory, rfl⟩ := insertRecord_some hstatement
  have hrows : d.durable.rows = rows := by
    rw [Database.rows, show d.durable.history = some rows from hhistory]
    rfl
  rw [← hrows] at hview
  have hadded := hnew (by rw [Database.versions, hview]; simp [Database.rows, newRecord]) hfresh
  rwa [hrows] at hadded

/-! ### Runs -/

/-- The condition on a call. -/
def CallMeets (env : Environment) (cond : Driver S → IMigration S → Prop)
    (state : MigrationManager S × Driver S) : Call S → Prop
  | .migrate => MigrateMeets env cond state.1 state.2
  | _ => True

theorem perform_holds {P : List MigrationRecord → Prop} {cond : Driver S → IMigration S → Prop}
    {state : MigrationManager S × Driver S} {call : Call S}
    (hfilter : ∀ rows keep, P rows → P (List.filter keep rows))
    (hstep : ∀ d m, Holds P d → cond d m → Holds P (applyMigration env d m true).2)
    (hstate : Holds P state.2) (hmeets : CallMeets env cond state call) :
    Holds P (perform env state call).2 := by
  cases call with
  | addMigration migration => exact hstate
  | migrate => exact migrate_holds hmeets hstate hstep
  | rollback steps => exact rollback_holds steps hfilter hstate

theorem callMeets_of_forall (state : MigrationManager S × Driver S) (call : Call S) :
    CallMeets env (fun _ _ => True) state call := by
  cases call with
  | migrate => exact fun _ _ _ => meets_of_forall (fun _ _ => trivial) _ _
  | _ => trivial

/-- The version is the primary key. -/
def Keyed (rows : List MigrationRecord) : Prop := (rows.map MigrationRecord.version).Nodup

theorem opened_holds {P : List MigrationRecord → Prop} (schema : S) (hnil : P []) :
    Holds P (opened schema).2 := ⟨hnil, hnil⟩

theorem keyed_run (env : Environment) (schema : S) (calls : List (Call S)) :
    Holds Keyed (run (perform env) (opened schema) calls).2 := by
  refine run_induction (P := fun state : MigrationManager S × Driver S => Holds Keyed state.2)
    (opened_holds schema List.nodup_nil) ?_ calls
  intro state call hstate
  refine perform_holds ?_ ?_ hstate (callMeets_of_forall state call)
  · intro rows keep hrows
    exact hrows.sublist (List.filter_sublist.map _)
  · intro d m hd _
    refine applyMigration_up_holds m hd ?_
    intro _ hfresh
    rw [Keyed, List.map_append, List.map_singleton, List.nodup_append]
    refine ⟨hd.2, List.nodup_singleton _, ?_⟩
    intro version hversion other hother heq
    rw [List.mem_singleton.mp hother] at heq
    rw [heq] at hversion
    exact hfresh hversion

/-! ### The condition -/

/-- Two rows that are in the same order by version and by stamp. -/
def SameOrder (a b : MigrationRecord) : Prop :=
  versionLess a.version b.version = true ∧ a.appliedAt < b.appliedAt ∨
    versionLess b.version a.version = true ∧ b.appliedAt < a.appliedAt

/-- Every two rows are in the same order both ways, and no version is empty. -/
structure InSequence (rows : List MigrationRecord) : Prop where
  sameOrder : rows.Pairwise SameOrder
  named : ∀ row ∈ rows, row.version ≠ []

/-- A row that gets into the table has a version, and against each row there its version and its stamp
compare alike. -/
def RecordInSequence (env : Environment) (d : Driver S) (m : IMigration S) : Prop :=
  m.version ∈ (applyMigration env d m true).2.view.versions →
    m.version ≠ [] ∧ ∀ row ∈ d.durable.rows, SameOrder row (newRecord env d m)

theorem inSequence_run {schema : S} {calls : List (Call S)}
    (halong : Along (perform env) (CallMeets env (RecordInSequence env)) (opened schema) calls) (n : Nat) :
    Holds InSequence (run (perform env) (opened schema) (calls.take n)).2 := by
  refine halong.always (P := fun state => Holds InSequence state.2)
    (opened_holds schema ⟨List.Pairwise.nil, by simp⟩) ?_ n
  intro state call hstate hmeets
  refine perform_holds ?_ ?_ hstate hmeets
  · intro rows keep hrows
    exact ⟨hrows.sameOrder.filter _, fun row hrow => hrows.named row (List.mem_of_mem_filter hrow)⟩
  · intro d m hd hrecord
    refine applyMigration_up_holds m hd ?_
    intro hadded _
    obtain ⟨hnamed, horder⟩ := hrecord hadded
    refine ⟨?_, ?_⟩
    · rw [List.pairwise_append]
      exact ⟨hd.2.sameOrder, List.pairwise_singleton _ _, by simpa using horder⟩
    · simpa [or_imp, forall_and] using ⟨hd.2.named, hnamed⟩

instance symm_sameOrder : Std.Symm SameOrder := ⟨fun _ _ => Or.symm⟩

theorem InSequence.latestIsGreatest {rows : List MigrationRecord} (hrows : InSequence rows) :
    LatestIsGreatest rows := by
  intro top htop hmax row hrow hne
  obtain ⟨_, hstamp⟩ | ⟨hversion, _⟩ :=
    hrows.sameOrder.forall hrow htop hne
  · exact hstamp
  · rw [hmax row hrow] at hversion
    cases hversion

/-! ### The answer -/

theorem appliedMigrations_ok {order : AppliedAtOrder} {records : List MigrationRecord}
    (hok : (mgr.appliedMigrations env order d).1 = .ok records) : records = order.arrange d.view.rows := by
  rw [appliedMigrations] at hok
  split at hok
  · cases hok
  · obtain ⟨_, hsame⟩ := ensureMigrationsTable_spec env mgr d
    cases hensure : ensureMigrationsTable env mgr d with
    | mk result rest =>
    obtain ⟨ensured, after⟩ := rest
    rw [hensure] at hok hsame
    cases result with
    | error error => cases hok
    | ok value =>
      obtain ⟨rows, hrows, rfl⟩ := Option.map_eq_some_iff.mp (Driver.executeQuery_ok hok)
      rw [← hsame.viewRows, Database.rows, show after.view.history = some rows from hrows]
      rfl

theorem appliedMigrations_reliable (hreliable : Reliable env) (order : AppliedAtOrder)
    (mgr : MigrationManager S) (hhistory : d.view.history.isSome = true) :
    ∃ records, (mgr.appliedMigrations env order d).1 = .ok records := by
  obtain ⟨hensured, hsome⟩ := @ensureMigrationsTable_reliable S env mgr d hreliable hhistory
  rw [appliedMigrations, if_neg (not_not.mpr (hreliable.isConnected _))]
  cases hensure : ensureMigrationsTable env mgr d with
  | mk result rest =>
  obtain ⟨ensured, after⟩ := rest
  rw [hensure] at hensured hsome
  change result = .ok () at hensured
  subst hensured
  obtain ⟨rows, hrows⟩ := Option.isSome_iff_exists.mp hsome
  change after.view.history = some rows at hrows
  refine ⟨order.arrange rows, ?_⟩
  simp [Driver.executeQuery, hreliable.refusal, selectRecords, hrows]

theorem currentVersion_ok {order : AppliedAtOrder} {version : QString}
    (hok : (mgr.currentVersion env order d).1 = .ok version) :
    version = lastVersion (order.arrange d.view.rows) := by
  rw [currentVersion] at hok
  cases happlied : mgr.appliedMigrations env order d with
  | mk result rest =>
  rw [happlied] at hok
  cases result with
  | error error => cases hok
  | ok records =>
    rw [← appliedMigrations_ok (congrArg Prod.fst happlied)]
    exact (Except.ok.inj hok).symm

/-- A server that answers every call. -/
def answering : Environment where
  isConnected _ := true
  refusal _ := none
  lastError _ := ""
  currentDateTimeUtc _ := ""

theorem currentVersion_answering (order : AppliedAtOrder) (mgr : MigrationManager S)
    (hhistory : d.view.history.isSome = true) :
    (mgr.currentVersion answering order d).1 = .ok (lastVersion (order.arrange d.view.rows)) := by
  obtain ⟨records, hrecords⟩ :=
    @appliedMigrations_reliable _ answering d ⟨fun _ => rfl, fun _ => rfl⟩ order mgr hhistory
  rw [← appliedMigrations_ok hrecords, currentVersion]
  cases happlied : mgr.appliedMigrations answering order d with
  | mk result rest =>
  rw [happlied] at hrecords
  change result = _ at hrecords
  rw [hrecords]

/-- The version is the greatest one applied, it is empty exactly if none is applied, and a `rollback` of
one step undoes it and nothing else. -/
structure IsCurrent (mgr : MigrationManager S) (d : Driver S) (version : QString) : Prop where
  greatest : version = greatest d.view.versions
  empty : version = [] ↔ d.view.versions = []
  undone : ∀ env, (mgr.rollback env 1 d).1 = .ok () →
    (mgr.rollback env 1 d).2.2.executed = d.executed ++ (if version = [] then [] else [version])

/-- What `currentVersion` returns is the current version, whatever the engine does with equal stamps. -/
def Agrees (state : MigrationManager S × Driver S) : Prop :=
  ∀ env order version, (state.1.currentVersion env order state.2).1 = .ok version →
    IsCurrent state.1 state.2 version

theorem isCurrent_greatest (mgr : MigrationManager S) (d : Driver S)
    (hnamed : greatest d.view.versions = [] → d.view.versions = []) :
    IsCurrent mgr d (greatest d.view.versions) := by
  have hnil : d.view.versions = [] → greatest d.view.versions = [] := by
    intro hversions
    rw [hversions]
    simp [greatest, descending]
  refine ⟨rfl, ⟨hnamed, hnil⟩, ?_⟩
  intro env hok
  rw [((rollback_undoes env mgr d 1).undone hok).executed]
  congr 1
  by_cases hversions : d.view.versions = []
  · rw [if_pos (hnil hversions), hversions]
    simp [descending]
  · rw [if_neg fun hempty => hversions (hnamed hempty)]
    obtain ⟨top, rest, hdescending⟩ := List.exists_cons_of_ne_nil (l := descending d.view.versions)
      (fun hempty => hversions ((hempty ▸ descending_perm d.view.versions).symm.eq_nil))
    simp [greatest, hdescending]

theorem agrees_iff {state : MigrationManager S × Driver S} (hkeys : Keyed state.2.view.rows) :
    Agrees state ↔ LatestIsGreatest state.2.view.rows ∧
      (greatest state.2.view.versions = [] → state.2.view.versions = []) := by
  constructor
  · intro hagrees
    by_cases hrows : state.2.view.rows = []
    · refine ⟨?_, fun _ => by rw [Database.versions, hrows]; rfl⟩
      intro top htop
      rw [hrows] at htop
      cases htop
    · have hhistory : state.2.view.history.isSome = true := by
        by_contra hnone
        exact hrows (by simp [Database.rows, Option.not_isSome_iff_eq_none.mp hnone])
      have hcurrent := fun order => hagrees answering order _
        (currentVersion_answering order state.1 hhistory)
      refine ⟨(lastVersion_eq_greatest_iff hkeys).mp fun order => (hcurrent order).greatest, ?_⟩
      intro hempty
      have htop := hcurrent (tiesFirst [])
      exact htop.empty.mp (htop.greatest.trans hempty)
  · rintro ⟨hlatest, hnamed⟩ env order version hok
    rw [currentVersion_ok hok, (lastVersion_eq_greatest_iff hkeys).mpr hlatest order]
    exact isCurrent_greatest state.1 state.2 hnamed

/-- In each state of a run `currentVersion` returns the version that `rollback` undoes, or the empty
string where there is none, exactly if the row of the greatest version is later than all others and the
empty version is not the only one; and this holds in every state of a run whose `migrate` calls add each
row in sequence: with a version, and with a stamp that compares to those in the table as its version
does. -/
theorem currentVersion_agrees (env : Environment) (schema : S) (calls : List (Call S)) :
    (∀ n, Agrees (run (perform env) (opened schema) (calls.take n)) ↔
      LatestIsGreatest (run (perform env) (opened schema) (calls.take n)).2.view.rows ∧
        (greatest (run (perform env) (opened schema) (calls.take n)).2.view.versions = [] →
          (run (perform env) (opened schema) (calls.take n)).2.view.versions = [])) ∧
    (Along (perform env) (CallMeets env (RecordInSequence env)) (opened schema) calls →
      ∀ n, Agrees (run (perform env) (opened schema) (calls.take n))) := by
  have hiff := fun n => agrees_iff (keyed_run env schema (calls.take n)).1
  refine ⟨hiff, ?_⟩
  intro halong n
  have hrows := (inSequence_run halong n).1
  refine (hiff n).mpr ⟨hrows.latestIsGreatest, ?_⟩
  intro hempty
  by_contra hversions
  obtain ⟨row, hrow, hversion⟩ := List.mem_map.mp (greatest_mem hversions).1
  exact hrows.named row hrow (hversion.trans hempty)

def emptyMigration (version : QString) : IMigration Unit :=
  ⟨version, "", fun _ schema => (.ok (), schema), fun _ schema => (.ok (), schema)⟩

/-- The clock shows the one hour up to a call of the driver, and the next hour from there on. -/
def twoHours (turn : Nat) : Environment :=
  { answering with
    currentDateTimeUtc := fun calls =>
      if calls < turn then "2026-05-01T08:00:00.000Z" else "2026-05-01T09:00:00.000Z" }

/-- Version 2 is applied at eight, and version 1, registered late, at nine. -/
def registeredLate : MigrationManager Unit × Driver Unit :=
  run (perform (twoHours 6)) (opened ())
    [.addMigration (emptyMigration [50]), .migrate, .addMigration (emptyMigration [49]), .migrate]

theorem registeredLate_rows : registeredLate.2.view.rows =
    [⟨[50], "", "2026-05-01T08:00:00.000Z"⟩, ⟨[49], "", "2026-05-01T09:00:00.000Z"⟩] := by
  decide +kernel

theorem registeredLate_not_current :
    (∀ order, (registeredLate.1.currentVersion answering order registeredLate.2).1 = .ok [49]) ∧
      greatest registeredLate.2.view.versions = [50] ∧ ¬ Agrees registeredLate := by
  have hcurrent : ∀ order,
      (registeredLate.1.currentVersion answering order registeredLate.2).1 = .ok [49] := by
    intro order
    rw [currentVersion_answering order _ (by decide +kernel), registeredLate_rows]
    obtain ⟨last, hlast, hversion⟩ := @exists_last order registeredLate.2.view.rows
      (by rw [registeredLate_rows]; exact List.cons_ne_nil _ _)
    rw [registeredLate_rows] at hlast hversion
    obtain ⟨hmem, hlatest⟩ := last_latest order hlast
    rw [hversion]
    obtain rfl | hmem := List.mem_cons.mp hmem
    · exact absurd (hlatest ⟨[49], "", "2026-05-01T09:00:00.000Z"⟩ (by simp)) (by decide)
    · rw [List.mem_singleton.mp hmem]
  have hgreatest : [50] = greatest registeredLate.2.view.versions := by
    rw [Database.versions, registeredLate_rows]
    exact eq_greatest (by decide) (by decide)
  refine ⟨hcurrent, hgreatest.symm, ?_⟩
  intro hagrees
  have hsame := (hagrees answering (tiesFirst []) [49] (hcurrent _)).greatest
  rw [← hgreatest] at hsame
  exact absurd hsame (by decide)

end MigrationManager

end SoulCoreKit.Orm
