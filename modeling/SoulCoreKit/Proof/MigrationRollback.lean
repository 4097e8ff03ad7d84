import SoulCoreKit.Proof.MigrationAtomicity

/-!
# Migrations are undone from the greatest down

`rollback` and `rollbackTo` run one loop over a part of the applied versions in descending order: the
first `steps` of them, or those greater than the target. Each round is a transaction of its own that
runs a `down` script and deletes a row. After a run of `migrate` the versions above the old history are
those it added, and taking them back in the opposite order leads to the old schema.
-/

namespace SoulCoreKit.Orm

variable {S : Type}

/-! ### What a run should do -/

/-- The history without the rows of the migrations, and the schema their `down` scripts lead to. -/
structure Reverted (before : Database S) (migrations : List (IMigration S)) (after : Database S) :
    Prop where
  history : after.rows =
    before.rows.filter fun row => row.version ∉ migrations.map IMigration.version
  schema : ∃ moments : List Nat, moments.length = migrations.length ∧
    ScriptsLead before.schema
      ((migrations.map fun m => MigrationManager.oriented m false).zip moments) after.schema

theorem reverted_refl (db : Database S) : Reverted db [] db := ⟨by simp, [], rfl, rfl⟩

theorem Reverted.cons {before after : Database S} {migrations : List (IMigration S)} {m : IMigration S}
    {calls : Nat} {rows : List MigrationRecord} (hhistory : before.history = some rows)
    (hdown : (m.down calls before.schema).1 = .ok ())
    (hrest : Reverted ⟨(m.down calls before.schema).2,
      some (rows.filter fun row => row.version ≠ m.version)⟩ migrations after) :
    Reverted before (m :: migrations) after := by
  obtain ⟨hrows, moments, hlength, hscripts⟩ := hrest
  refine ⟨?_, calls :: moments, by simp [hlength], hdown, hscripts⟩
  rw [hrows]
  simp only [Database.rows, hhistory, Option.getD_some, List.filter_filter, List.map_cons,
    List.mem_cons, not_or, Bool.decide_and, Bool.and_comm]

theorem Reverted.congr {before before' after : Database S} {migrations : List (IMigration S)}
    (hreverted : Reverted before migrations after) (hrows : before'.rows = before.rows)
    (hschema : before'.schema = before.schema) : Reverted before' migrations after := by
  refine ⟨?_, ?_⟩
  · rw [hrows]
    exact hreverted.history
  · rw [hschema]
    exact hreverted.schema

/-- The registered migrations of these versions were undone, and no other script was run. -/
structure Undone (mgr : MigrationManager S) (d : Driver S) (versions : List QString)
    (after : Driver S) : Prop where
  executed : after.executed = d.executed ++ versions
  reverted : ∃ migrations : List (IMigration S), migrations.map IMigration.version = versions ∧
    (∀ m ∈ migrations, m ∈ mgr.mMigrations) ∧ Reverted d.durable migrations after.durable

/-- Nothing fails while the version is undone: it is registered, and its `down` script succeeds in the
place of `up`. -/
def Undoable (env : Environment) (mgr : MigrationManager S) (d : Driver S) (version : QString) : Prop :=
  ∃ m ∈ mgr.mMigrations, m.version = version ∧ Succeeds env d (MigrationManager.oriented m false)

/-- The driver after it: the schema of the script, a history without the version, four calls. -/
def Driver.undone (mgr : MigrationManager S) (d : Driver S) (version : QString) : Driver S :=
  match mgr.registered version with
  | none => d
  | some m =>
      { durable :=
          { schema := (m.down (d.calls + 1) d.durable.schema).2
            history := some (d.durable.rows.filter fun row => row.version ≠ version) }
        calls := d.calls + 4
        executed := d.executed ++ [version] }

/-- A run that failed: in the loop, where the versions before the first that cannot be undone were
undone, with or without the script of that one having been run; or before the loop, where nothing was
done. -/
structure Interrupted (env : Environment) (mgr : MigrationManager S) (d : Driver S)
    (versions : List QString) (after : Driver S) : Prop where
  stopped : ReachesLoop env mgr d → ∃ prior version later, versions = prior ++ version :: later ∧
    Along (Driver.undone mgr) (Undoable env mgr) (d.atLoop mgr) prior ∧
    ¬ Undoable env mgr (run (Driver.undone mgr) (d.atLoop mgr) prior) version ∧
    (∃ migrations : List (IMigration S), migrations.map IMigration.version = prior ∧
      (∀ m ∈ migrations, m ∈ mgr.mMigrations) ∧ Reverted d.durable migrations after.durable) ∧
    ∃ tried, (tried = [] ∨ tried = [version]) ∧ after.executed = d.executed ++ prior ++ tried
  beforeLoop : ¬ ReachesLoop env mgr d → Undone mgr d [] after

/-- A run that was to undo these versions: all of them, or those before one that failed. -/
structure Undoes (env : Environment) (mgr : MigrationManager S) (d : Driver S) (versions : List QString)
    (run : Result Unit × MigrationManager S × Driver S) : Prop where
  undone : run.1 = .ok () → Undone mgr d versions run.2.2
  interrupted : ∀ error, run.1 = .error error → Interrupted env mgr d versions run.2.2

namespace MigrationManager

variable {env : Environment} {mgr : MigrationManager S} {d : Driver S}

/-! ### The versions -/

theorem descending_perm (applied : List QString) : (descending applied).Perm applied :=
  List.mergeSort_perm _ _

theorem descending_sorted (applied : List QString) :
    (descending applied).Pairwise fun a b => versionLess a b = false := by
  have hsorted : (descending applied).Pairwise fun a b => (!versionLess a b) = true := by
    apply List.pairwise_mergeSort
    · intro a b c hab hbc
      rw [Bool.not_eq_true'] at hab hbc ⊢
      exact not_versionLess_trans hbc hab
    · intro a b
      cases hab : versionLess a b with
      | false => rfl
      | true => rw [versionLess_asymm hab]; rfl
  exact hsorted.imp fun hab => (Bool.not_eq_true' _).mp hab

/-- The loop of `rollbackTo` stops at the first version that is not greater than the target: none after
it is. -/
theorem takeWhile_eq_filter {versions : List QString} (target : QString)
    (hsorted : versions.Pairwise fun a b => versionLess a b = false) :
    versions.takeWhile (versionLess target) = versions.filter (versionLess target) := by
  induction versions with
  | nil => rfl
  | cons version rest ih =>
    rw [List.pairwise_cons] at hsorted
    cases hless : versionLess target version with
    | true => rw [List.takeWhile_cons, List.filter_cons, hless, ih hsorted.2]; rfl
    | false =>
      have hnone : rest.filter (versionLess target) = [] := by
        rw [List.filter_eq_nil_iff]
        intro later hlater hgreater
        rw [versionLess_of_less_of_not_less hgreater (hsorted.1 later hlater)] at hless
        contradiction
      rw [List.takeWhile_cons, List.filter_cons, hless, hnone]
      rfl

theorem registered_some {version : QString} {m : IMigration S} (h : mgr.registered version = some m) :
    m ∈ mgr.mMigrations ∧ m.version = version :=
  ⟨List.mem_of_find?_eq_some h, by simpa using List.find?_some h⟩

theorem registered_of_mem {m : IMigration S} (hmem : m ∈ mgr.mMigrations) :
    mgr.registered m.version = some m := by
  cases hfound : mgr.registered m.version with
  | none =>
    have hnot := List.find?_eq_none.mp hfound m hmem
    simp at hnot
  | some other =>
    obtain ⟨hother, hversion⟩ := registered_some hfound
    rw [List.inj_on_of_nodup_map mgr.distinct hother hmem hversion]

/-! ### One `down` -/

theorem deleteRecord_some {version : QString} {db db' : Database S}
    (hdelete : deleteRecord version db = some db') :
    ∃ rows, db.history = some rows ∧
      db' = { db with history := some (rows.filter fun row => row.version ≠ version) } := by
  unfold deleteRecord at hdelete
  cases hhistory : db.history with
  | none => simp [hhistory] at hdelete
  | some rows =>
    rw [hhistory] at hdelete
    exact ⟨rows, rfl, (Option.some_inj.mp hdelete).symm⟩

/-- A `down` that fails leaves the durable database as it was; one that succeeds adds the effect of its
script and takes its row away. -/
theorem applyMigration_down (env : Environment) (d : Driver S) (m : IMigration S) :
    (∃ error, (applyMigration env d m false).1 = .error error ∧
      (applyMigration env d m false).2.durable = d.durable ∧
      ((applyMigration env d m false).2.executed = d.executed ∨
        (applyMigration env d m false).2.executed = d.executed ++ [m.version])) ∨
    ((applyMigration env d m false).1 = .ok () ∧ d.transaction = none ∧
      (applyMigration env d m false).2.transaction = none ∧
      (applyMigration env d m false).2.executed = d.executed ++ [m.version] ∧
      ∃ rows calls, d.durable.history = some rows ∧ (m.down calls d.durable.schema).1 = .ok () ∧
        (applyMigration env d m false).2.durable =
          ⟨(m.down calls d.durable.schema).2,
            some (rows.filter fun row => row.version ≠ m.version)⟩) := by
  apply (applyMigration_spec env d m false).imp_right
  rintro ⟨hok, hidle, hclosed, hexecuted, calls, db, hdown, hstatement, hdurable⟩
  obtain ⟨rows, hhistory, rfl⟩ := deleteRecord_some hstatement
  exact ⟨hok, hidle, hclosed, hexecuted, rows, calls, hhistory, hdown, hdurable⟩

/-! ### The loops -/

/-- The loop that both functions run, over the versions they do not stop before. -/
def undoAll (env : Environment) (mgr : MigrationManager S) :
    Driver S → List QString → Result Unit × Driver S
  | d, [] => (.ok (), d)
  | d, version :: rest =>
      match mgr.registered version with
      | none => (.error (notRegistered version), d)
      | some m =>
          match applyMigration env d m false with
          | (.error error, d) => (.error error, d)
          | (.ok _, d) => undoAll env mgr d rest

theorem rollbackLoop_eq (env : Environment) (mgr : MigrationManager S) (steps rolledBack : Int)
    (d : Driver S) (versions : List QString) :
    rollbackLoop env mgr steps rolledBack d versions =
      undoAll env mgr d (versions.take (steps - rolledBack).toNat) := by
  induction versions generalizing rolledBack d with
  | nil => simp [rollbackLoop, undoAll]
  | cons version rest ih =>
    rw [rollbackLoop]
    by_cases henough : rolledBack ≥ steps
    · have hzero : (steps - rolledBack).toNat = 0 := by omega
      rw [if_pos henough, hzero]
      rfl
    · have hsucc : (steps - rolledBack).toNat = (steps - (rolledBack + 1)).toNat + 1 := by omega
      rw [if_neg henough, hsucc, List.take_succ_cons, undoAll]
      cases mgr.registered version with
      | none => rfl
      | some m =>
        dsimp only
        cases applyMigration env d m false with
        | mk result after =>
        cases result with
        | error error => rfl
        | ok value => exact ih (rolledBack + 1) after

theorem rollbackToLoop_eq (env : Environment) (mgr : MigrationManager S) (target : QString)
    (d : Driver S) (versions : List QString) :
    rollbackToLoop env mgr target d versions =
      undoAll env mgr d (versions.takeWhile (versionLess target)) := by
  induction versions generalizing d with
  | nil => rfl
  | cons version rest ih =>
    rw [rollbackToLoop, List.takeWhile_cons]
    cases versionLess target version with
    | false => rfl
    | true =>
      change _ = undoAll env mgr d (version :: rest.takeWhile (versionLess target))
      rw [undoAll, if_neg (by decide)]
      cases mgr.registered version with
      | none => rfl
      | some m =>
        dsimp only
        cases applyMigration env d m false with
        | mk result after =>
        cases result with
        | error error => rfl
        | ok value => exact ih after

theorem undoAll_congr {mgr' : MigrationManager S} (hmigrations : mgr'.mMigrations = mgr.mMigrations)
    (d : Driver S) (versions : List QString) : undoAll env mgr' d versions = undoAll env mgr d versions := by
  induction versions generalizing d with
  | nil => rfl
  | cons version rest ih => simp only [undoAll, registered, hmigrations, ih]

/-- One round: the version is not registered, its migration fails, or it is undone and the loop goes
on. -/
theorem undoAll_cons (env : Environment) (mgr : MigrationManager S) (d : Driver S) (version : QString)
    (rest : List QString) :
    (∃ error, (undoAll env mgr d (version :: rest)).1 = .error error ∧
      (undoAll env mgr d (version :: rest)).2.durable = d.durable ∧
      ((undoAll env mgr d (version :: rest)).2.executed = d.executed ∨
        (undoAll env mgr d (version :: rest)).2.executed = d.executed ++ [version])) ∨
    Undoable env mgr d version ∧ ∃ m ∈ mgr.mMigrations, m.version = version ∧
      ∃ after rows calls, undoAll env mgr d (version :: rest) = undoAll env mgr after rest ∧
        after.transaction = none ∧ after.executed = d.executed ++ [version] ∧
        d.durable.history = some rows ∧ (m.down calls d.durable.schema).1 = .ok () ∧
        after.durable = ⟨(m.down calls d.durable.schema).2,
          some (rows.filter fun row => row.version ≠ version)⟩ := by
  rw [undoAll]
  cases hregistered : mgr.registered version with
  | none => exact .inl ⟨_, rfl, rfl, .inl rfl⟩
  | some m =>
    obtain ⟨hmem, rfl⟩ := registered_some hregistered
    have hcases := applyMigration_down env d m
    dsimp only
    cases happly : applyMigration env d m false with
    | mk result after =>
    rw [happly] at hcases
    obtain ⟨error, herror, hdurable, hexecuted⟩ | ⟨hok, hidle, hclosed, hexecuted, rows, calls, hhistory,
      hdown, hdurable⟩ := hcases
    · change result = .error error at herror
      subst herror
      exact .inl ⟨error, rfl, hdurable, hexecuted⟩
    · change result = .ok () at hok
      subst hok
      have hsucceeds := @succeeds_of_applied _ _ _ _ false (congrArg Prod.fst happly)
      exact .inr ⟨⟨m, hmem, rfl, hsucceeds⟩, m, hmem, rfl, after, rows, calls, rfl, hclosed, hexecuted,
        hhistory, hdown, hdurable⟩

theorem undoAll_ok {versions : List QString} (hok : (undoAll env mgr d versions).1 = .ok ()) :
    Undone mgr d versions (undoAll env mgr d versions).2 := by
  induction versions generalizing d with
  | nil => exact ⟨by simp [undoAll], [], rfl, by simp, reverted_refl _⟩
  | cons version rest ih =>
    obtain ⟨error, herror, _⟩ | ⟨_, m, hmem, hversion, after, rows, calls, heq, _, hexecuted, hhistory,
      hdown, hdurable⟩ := undoAll_cons env mgr d version rest
    · rw [herror] at hok
      contradiction
    · rw [heq] at hok ⊢
      obtain ⟨hrest, migrations, hversions, hregistered, hreverted⟩ := ih hok
      rw [hdurable, ← hversion] at hreverted
      refine ⟨?_, m :: migrations, ?_, ?_, Reverted.cons hhistory hdown hreverted⟩
      · rw [hrest, hexecuted, List.append_assoc]
        rfl
      · rw [List.map_cons, hversion, hversions]
      · exact List.forall_mem_cons.mpr ⟨hmem, hregistered⟩

/-- The loop goes on after a version that can be undone. -/
theorem undoAll_of_undoable {version : QString} (hundoable : Undoable env mgr d version)
    (hhistory : d.transaction = none → d.durable.history.isSome = true) (rest : List QString) :
    undoAll env mgr d (version :: rest) = undoAll env mgr (d.undone mgr version) rest := by
  obtain ⟨m, hmem, rfl, hsucceeds⟩ := hundoable
  obtain ⟨rows, hrows⟩ := Option.isSome_iff_exists.mp (hhistory hsucceeds.idle)
  have happlied : applyMigration env d m false = (.ok (), d.undone mgr m.version) := by
    rw [Driver.undone, registered_of_mem hmem]
    apply applyMigration_of_statement hsucceeds
    simp only [recordStatement, hrows, Database.rows, Option.getD_some]
    rfl
  rw [undoAll, registered_of_mem hmem]
  simp only [happlied]

/-- The loop stops at the first version that cannot be undone, with the effects of those before it. -/
theorem undoAll_error {versions : List QString} {error : Error}
    (hhistory : d.transaction = none → d.durable.history.isSome = true)
    (herror : (undoAll env mgr d versions).1 = .error error) :
    ∃ prior version later, versions = prior ++ version :: later ∧
      Along (Driver.undone mgr) (Undoable env mgr) d prior ∧
      ¬ Undoable env mgr (run (Driver.undone mgr) d prior) version ∧
      (∃ migrations : List (IMigration S), migrations.map IMigration.version = prior ∧
        (∀ m ∈ migrations, m ∈ mgr.mMigrations) ∧
        Reverted d.durable migrations (undoAll env mgr d versions).2.durable) ∧
      ∃ tried, (tried = [] ∨ tried = [version]) ∧
        (undoAll env mgr d versions).2.executed = d.executed ++ prior ++ tried := by
  induction versions generalizing d with
  | nil => contradiction
  | cons version rest ih =>
    by_cases hundoable : Undoable env mgr d version
    · have hnext := undoAll_of_undoable hundoable hhistory rest
      obtain ⟨m, hmem, rfl, hsucceeds⟩ := id hundoable
      obtain ⟨rows, hrows⟩ := Option.isSome_iff_exists.mp (hhistory hsucceeds.idle)
      have hundone : d.undone mgr m.version =
          { durable := ⟨(m.down (d.calls + 1) d.durable.schema).2,
              some (rows.filter fun row => row.version ≠ m.version)⟩
            calls := d.calls + 4
            executed := d.executed ++ [m.version] } := by
        rw [Driver.undone, registered_of_mem hmem]
        simp only [Database.rows, hrows, Option.getD_some]
      rw [hnext] at herror ⊢
      obtain ⟨prior, version, later, hsplit, hprior, hnot, ⟨migrations, hversions, hregistered,
        hreverted⟩, tried, htried, hexecuted⟩ := ih (fun _ => by rw [hundone]; rfl) herror
      refine ⟨m.version :: prior, version, later, by rw [hsplit, List.cons_append], ⟨hundoable, hprior⟩,
        hnot, ⟨m :: migrations, by rw [List.map_cons, hversions],
          List.forall_mem_cons.mpr ⟨hmem, hregistered⟩, ?_⟩, tried, htried, ?_⟩
      · refine Reverted.cons hrows hsucceeds.scripted ?_
        rw [hundone] at hreverted ⊢
        exact hreverted
      · rw [hexecuted, hundone, List.append_assoc d.executed]
        rfl
    · obtain ⟨-, -, hdurable, hexecuted⟩ | ⟨hyes, -⟩ := undoAll_cons env mgr d version rest
      · refine ⟨[], version, rest, rfl, trivial, hundoable, ⟨[], rfl, by simp, ?_⟩, ?_⟩
        · rw [hdurable]
          exact reverted_refl _
        · obtain hnone | hone := hexecuted
          · exact ⟨[], .inl rfl, by simpa using hnone⟩
          · exact ⟨[version], .inr rfl, by simpa using hone⟩
      · exact absurd hyes hundoable

/-! ### The two functions -/

theorem undone_congr {d' : Driver S} {versions : List QString} {after : Driver S}
    (hsame : SameData d d') (hundone : Undone mgr d' versions after) : Undone mgr d versions after := by
  obtain ⟨hexecuted, migrations, hversions, hregistered, hreverted⟩ := hundone
  rw [hsame.executed] at hexecuted
  exact ⟨hexecuted, migrations, hversions, hregistered,
    hreverted.congr hsame.rows.symm hsame.schema.symm⟩

theorem undoes_of_sameData {versions : List QString} {error : Error} {mgr' : MigrationManager S}
    {after : Driver S} (hnot : ¬ ReachesLoop env mgr d) (hsame : SameData d after) :
    Undoes env mgr d versions (.error error, mgr', after) := by
  refine ⟨fun hok => (nomatch hok), fun _ _ => ⟨fun hreaches => absurd hreaches hnot, fun _ => ?_⟩⟩
  refine ⟨by simpa using hsame.executed, [], rfl, by simp, ?_⟩
  exact (reverted_refl _).congr hsame.rows.symm hsame.schema.symm

theorem withApplied_undoAll (hconnected : env.isConnected d.calls = true) (mgr : MigrationManager S)
    (select : List QString → List QString) :
    Undoes env mgr d (select d.view.versions)
      (withApplied env mgr d fun mgr d applied => undoAll env mgr d (select applied)) := by
  by_cases hreaches : ReachesLoop env mgr d
  · have hsame := sameData_atLoop mgr d
    obtain ⟨ensured, hmigrations, heq⟩ := withApplied_of_reachesLoop hreaches
    rw [heq, undoAll_congr hmigrations]
    refine ⟨fun hok => undone_congr hsame (undoAll_ok hok), fun error herror => ?_⟩
    refine ⟨fun _ => ?_, fun hnot => absurd hreaches hnot⟩
    obtain ⟨prior, version, later, hsplit, hprior, hfails, ⟨migrations, hversions, hregistered,
      hreverted⟩, tried, htried, hexecuted⟩ := undoAll_error (history_atLoop hreaches) herror
    rw [hsame.executed] at hexecuted
    exact ⟨prior, version, later, hsplit, hprior, hfails, ⟨migrations, hversions, hregistered,
      hreverted.congr hsame.rows.symm hsame.schema.symm⟩, tried, htried, hexecuted⟩
  · obtain ⟨error, ensured, after, hsame, heq⟩ := withApplied_of_not_reachesLoop hconnected hreaches
    rw [heq]
    exact undoes_of_sameData hreaches hsame

theorem not_reachesLoop_of_not_connected (hnot : ¬ env.isConnected d.calls = true) :
    ¬ ReachesLoop env mgr d :=
  fun hreaches => hnot hreaches.isConnected

theorem rollback_eq (env : Environment) (mgr : MigrationManager S) (steps : Int) (d : Driver S) :
    mgr.rollback env steps d =
      if steps ≤ 0 then
        (.ok (), mgr, d)
      else if ¬ env.isConnected d.calls then
        (.error ⟨.notConnected, "MigrationManager::rollback: driver not connected"⟩, mgr, d)
      else
        withApplied env mgr d fun mgr d applied =>
          undoAll env mgr d ((descending applied).take steps.toNat) := by
  have hloop : (fun (mgr : MigrationManager S) d applied =>
      undoAll env mgr d ((descending applied).take steps.toNat)) =
      fun mgr d applied => rollbackLoop env mgr steps 0 d (descending applied) := by
    funext mgr d applied
    rw [rollbackLoop_eq, Int.sub_zero]
  rw [hloop]
  rfl

theorem rollbackTo_eq (env : Environment) (mgr : MigrationManager S) (target : QString)
    (d : Driver S) :
    mgr.rollbackTo env target d =
      if ¬ env.isConnected d.calls then
        (.error ⟨.notConnected, "MigrationManager::rollbackTo: driver not connected"⟩, mgr, d)
      else
        withApplied env mgr d fun mgr d applied =>
          undoAll env mgr d ((descending applied).filter (versionLess target)) := by
  have hloop : (fun (mgr : MigrationManager S) d applied =>
      undoAll env mgr d ((descending applied).filter (versionLess target))) =
      fun mgr d applied => rollbackToLoop env mgr target d (descending applied) := by
    funext mgr d applied
    rw [rollbackToLoop_eq, takeWhile_eq_filter target (descending_sorted applied)]
  rw [hloop]
  rfl

theorem rollback_undoes (env : Environment) (mgr : MigrationManager S) (d : Driver S) (steps : Int) :
    Undoes env mgr d ((descending d.view.versions).take steps.toNat) (mgr.rollback env steps d) := by
  rw [rollback_eq]
  by_cases hsteps : steps ≤ 0
  · rw [if_pos hsteps, Int.toNat_of_nonpos hsteps, List.take_zero]
    refine ⟨fun _ => ?_, fun error herror => nomatch herror⟩
    exact ⟨by simp, [], rfl, by simp, reverted_refl _⟩
  · rw [if_neg hsteps]
    split
    · rename_i hnot
      exact undoes_of_sameData (not_reachesLoop_of_not_connected hnot) ⟨rfl, rfl, rfl, rfl, Iff.rfl⟩
    · rename_i hconnected
      exact withApplied_undoAll (not_not.mp hconnected) mgr
        fun applied => (descending applied).take steps.toNat

theorem rollbackTo_undoes (env : Environment) (mgr : MigrationManager S) (d : Driver S)
    (target : QString) :
    Undoes env mgr d ((descending d.view.versions).filter (versionLess target))
      (mgr.rollbackTo env target d) := by
  rw [rollbackTo_eq]
  split
  · rename_i hnot
    exact undoes_of_sameData (not_reachesLoop_of_not_connected hnot) ⟨rfl, rfl, rfl, rfl, Iff.rfl⟩
  · rename_i hconnected
    exact withApplied_undoAll (not_not.mp hconnected) mgr
      fun applied => (descending applied).filter (versionLess target)

/-! ### Back to where `migrate` started -/

/-- `down` takes back what `up` did. -/
def Inverse (m : IMigration S) : Prop :=
  ∀ calls calls' schema, (m.up calls schema).1 = .ok () →
    m.down calls' (m.up calls schema).2 = (.ok (), schema)

/-- A server that answers. -/
structure Reliable (env : Environment) : Prop where
  isConnected : ∀ calls, env.isConnected calls = true
  refusal : ∀ calls, env.refusal calls = none

theorem scriptsLead_concat {before after : S} {migrations : List (IMigration S)} {m : IMigration S}
    {moments : List Nat} (hlength : moments.length = (migrations ++ [m]).length)
    (hlead : ScriptsLead before ((migrations ++ [m]).zip moments) after) :
    ∃ earlier calls middle, earlier.length = migrations.length ∧
      ScriptsLead before (migrations.zip earlier) middle ∧ (m.up calls middle).1 = .ok () ∧
      after = (m.up calls middle).2 := by
  induction migrations generalizing before moments with
  | nil =>
    obtain ⟨calls, rfl⟩ := List.length_eq_one_iff.mp hlength
    exact ⟨[], calls, before, rfl, rfl, hlead.1, hlead.2.symm⟩
  | cons first rest ih =>
    cases moments with
    | nil => simp at hlength
    | cons moment moments =>
      obtain ⟨hup, hrest⟩ := hlead
      obtain ⟨earlier, calls, middle, hearlier, hmiddle, hlast, hafter⟩ :=
        ih (Nat.succ.inj hlength) hrest
      exact ⟨moment :: earlier, calls, middle, by simp [hearlier], ⟨hup, hmiddle⟩, hlast, hafter⟩

theorem applyMigration_down_reliable {m : IMigration S} (hreliable : Reliable env)
    (hidle : d.transaction = none) (hhistory : d.durable.history.isSome = true)
    (hdown : ∀ calls, (m.down calls d.durable.schema).1 = .ok ()) :
    (applyMigration env d m false).1 = .ok () := by
  obtain ⟨rows, hrows⟩ := Option.isSome_iff_exists.mp hhistory
  have hdown' := hdown (d.calls + 1)
  cases hresult : m.down (d.calls + 1) d.durable.schema with
  | mk result schema =>
  rw [hresult] at hdown'
  change result = .ok () at hdown'
  simp [applyMigration, Driver.beginTransaction, Driver.runScript, removeMigrationRecord,
    Driver.executeUpdate, Driver.commit, Driver.called, Driver.write, Driver.view, deleteRecord,
    hreliable.refusal, hidle, hresult, hdown', hrows]

theorem undoAll_cons_inverse {m : IMigration S} {schema : S} (env : Environment) (rest : List QString)
    (hmem : m ∈ mgr.mMigrations) (hdown : ∀ calls, m.down calls d.durable.schema = (.ok (), schema)) :
    (∃ error, (applyMigration env d m false).1 = .error error ∧
      (undoAll env mgr d (m.version :: rest)).1 = .error error) ∨
    ∃ after, undoAll env mgr d (m.version :: rest) = undoAll env mgr after rest ∧
      after.durable.schema = schema ∧ after.transaction = none ∧
      after.durable.history.isSome = true := by
  rw [undoAll, registered_of_mem hmem]
  have hcases := applyMigration_down env d m
  dsimp only
  cases happly : applyMigration env d m false with
  | mk result after =>
  rw [happly] at hcases
  obtain ⟨error, herror, _⟩ | ⟨hok, _, hclosed, _, rows, calls, _, _, hdurable⟩ := hcases
  · change result = .error error at herror
    subst herror
    exact .inl ⟨error, rfl, rfl⟩
  · change result = .ok () at hok
    subst hok
    change after.durable = _ at hdurable
    refine .inr ⟨after, rfl, ?_, hclosed, ?_⟩
    · rw [hdurable, hdown calls]
    · rw [hdurable]
      rfl

/-- The `down` scripts in the opposite order of the `up` scripts that led to the schema. -/
theorem undoAll_restores {migrations : List (IMigration S)} {moments : List Nat} {schema : S}
    (hregistered : ∀ m ∈ migrations, m ∈ mgr.mMigrations) (hinverse : ∀ m ∈ migrations, Inverse m)
    (hlength : moments.length = migrations.length)
    (hlead : ScriptsLead schema (migrations.zip moments) d.durable.schema) :
    ((undoAll env mgr d (migrations.reverse.map IMigration.version)).1 = .ok () →
      (undoAll env mgr d (migrations.reverse.map IMigration.version)).2.durable.schema = schema) ∧
    (Reliable env → (migrations ≠ [] → d.transaction = none ∧ d.durable.history.isSome = true) →
      (undoAll env mgr d (migrations.reverse.map IMigration.version)).1 = .ok ()) := by
  induction migrations using List.reverseRecOn generalizing d moments with
  | nil =>
    obtain rfl := List.length_eq_zero_iff.mp hlength
    exact ⟨fun _ => hlead.symm, fun _ _ => rfl⟩
  | append_singleton rest m ih =>
    obtain ⟨earlier, calls, middle, hearlier, hmiddle, hup, hschema⟩ :=
      scriptsLead_concat hlength hlead
    have hm : m ∈ rest ++ [m] := by simp
    have hdown : ∀ moment, m.down moment d.durable.schema = (.ok (), middle) := by
      intro moment
      rw [hschema]
      exact hinverse m hm calls moment middle hup
    rw [List.reverse_append, List.reverse_singleton, List.singleton_append, List.map_cons]
    obtain ⟨error, hfailed, herror⟩ | ⟨after, heq, hafter, hclosed, hhistory⟩ :=
      undoAll_cons_inverse env (rest.reverse.map IMigration.version) (hregistered m hm) hdown
    · refine ⟨fun hok => ?_, fun hreliable hready => ?_⟩
      · rw [herror] at hok
        contradiction
      · obtain ⟨hidle, hsome⟩ := hready (by simp)
        rw [applyMigration_down_reliable hreliable hidle hsome fun moment => by rw [hdown]] at hfailed
        contradiction
    · rw [heq]
      have hrest := ih (fun m' hm' => hregistered m' (List.mem_append_left _ hm'))
        (fun m' hm' => hinverse m' (List.mem_append_left _ hm')) hearlier (hafter ▸ hmiddle)
      exact ⟨hrest.1, fun hreliable _ => hrest.2 hreliable fun _ => ⟨hclosed, hhistory⟩⟩

/-- After `migrate` the versions above the old history are the ones it added. -/
theorem filter_descending_append {old : List QString} {added : List QString} {target : QString}
    (hold : ∀ version ∈ old, versionLess target version = false)
    (hadded : ∀ version ∈ added, versionLess target version = true)
    (hsorted : added.Pairwise fun a b => versionLess a b = true) :
    (descending (old ++ added)).filter (versionLess target) = added.reverse := by
  apply @List.Perm.eq_of_pairwise QString fun a b => versionLess a b = false
  · intro a b _ _ hab hba
    exact versionLess_antisymm hab hba
  · exact (descending_sorted _).filter _
  · rw [List.pairwise_reverse]
    exact hsorted.imp fun hlt => versionLess_asymm hlt
  · have hperm := (descending_perm (old ++ added)).filter (versionLess target)
    have hnone : old.filter (versionLess target) = [] := by
      rw [List.filter_eq_nil_iff]
      intro version hmem
      rw [hold version hmem]
      exact Bool.false_ne_true
    rw [List.filter_append, hnone, List.filter_eq_self.mpr hadded, List.nil_append] at hperm
    exact hperm.trans (List.reverse_perm added).symm

/-! ### `migrate`, then `rollbackTo` -/

theorem applyAll_history {migrations : List (IMigration S)}
    (hok : (applyAll env d migrations).1 = .ok ()) (hhistory : d.view.history.isSome = true) :
    (applyAll env d migrations).2.view.history.isSome = true ∧
      (migrations ≠ [] →
        d.transaction = none ∧ (applyAll env d migrations).2.transaction = none) := by
  induction migrations generalizing d with
  | nil => exact ⟨hhistory, fun hne => absurd rfl hne⟩
  | cons m rest ih =>
    rw [applyAll] at hok ⊢
    have hcases := applyMigration_cases env d m
    cases happly : applyMigration env d m true with
    | mk result after =>
    rw [happly] at hok hcases
    obtain ⟨error, herror, _⟩ | ⟨hresult, hidle, hclosed, _, row, rows, calls, _, _, _, _,
      hdurable⟩ := hcases
    · change result = .error error at herror
      subst herror
      contradiction
    · change result = .ok () at hresult
      subst hresult
      change after.transaction = none at hclosed
      change after.durable = _ at hdurable
      have hview : after.view.history.isSome = true := by
        rw [view_of_idle hclosed, hdurable]
        rfl
      obtain ⟨hsome, hrestClosed⟩ := ih hok hview
      refine ⟨hsome, fun _ => ⟨hidle, ?_⟩⟩
      by_cases hrest : rest = []
      · subst hrest
        exact hclosed
      · exact (hrestClosed hrest).2

theorem migrate_ok (hok : (mgr.migrate env d).1 = .ok ()) :
    let todo := mgr.pending d.view.versions
    let after := (mgr.migrate env d).2.2
    (mgr.migrate env d).2.1.mMigrations = mgr.mMigrations ∧
      Advanced d.durable todo after.durable ∧
      after.view.versions = d.view.versions ++ todo.map IMigration.version ∧
      after.view.history.isSome = true ∧
      (todo ≠ [] → d.transaction = none ∧ after.transaction = none) := by
  intro todo after
  have hsame := sameData_atLoop mgr d
  have hreaches := reachesLoop_of_migrate_ok hok
  have hadvanced := (advanced_of_migrate_ok hok).1
  obtain ⟨hresult, hmigrations, hafter⟩ := migrate_of_reachesLoop hreaches
  change after = (applyAll env (d.atLoop mgr) todo).2 at hafter
  rw [hresult] at hok
  obtain ⟨hsome, hclosed⟩ := applyAll_history hok (view_history_atLoop hreaches)
  refine ⟨hmigrations, hadvanced, ?_, ?_, fun hne => ?_⟩
  · rw [hafter, versions_of_applyAll_ok hok, Database.versions, hsame.viewRows]
    rfl
  · rw [hafter]
    exact hsome
  · rw [hafter]
    exact (hclosed hne).imp_left hsame.transaction.mp

theorem ensureMigrationsTable_reliable (hreliable : Reliable env)
    (hhistory : d.view.history.isSome = true) :
    (ensureMigrationsTable env mgr d).1 = .ok () ∧
      (ensureMigrationsTable env mgr d).2.2.view.history.isSome = true := by
  unfold ensureMigrationsTable
  split
  · exact ⟨rfl, hhistory⟩
  · simp only [Driver.executeUpdate, hreliable.refusal, createTable]
    refine ⟨trivial, ?_⟩
    cases htransaction : d.transaction <;>
      simp [Driver.write, Driver.view, Driver.called, htransaction]

theorem withApplied_reliable (hreliable : Reliable env) (hhistory : d.view.history.isSome = true)
    (mgr : MigrationManager S) : (withApplied env mgr d fun _ d _ => (.ok (), d)).1 = .ok () := by
  obtain ⟨hensured, hsome⟩ := @ensureMigrationsTable_reliable S env mgr d hreliable hhistory
  unfold withApplied
  cases hensure : ensureMigrationsTable env mgr d with
  | mk result rest =>
  obtain ⟨ensured, after⟩ := rest
  rw [hensure] at hensured hsome
  change result = .ok () at hensured
  subst hensured
  obtain ⟨rows, hrows⟩ := Option.isSome_iff_exists.mp hsome
  change after.view.history = some rows at hrows
  simp [appliedVersions, Driver.executeQuery, hreliable.refusal, selectVersions, hrows]

theorem filter_added_rows {old added : List MigrationRecord} {versions : List QString}
    (hold : ∀ row ∈ old, row.version ∉ versions) (hadded : ∀ row ∈ added, row.version ∈ versions) :
    (old ++ added).filter (fun row => row.version ∉ versions) = old := by
  rw [List.filter_append, List.filter_eq_self.mpr, List.filter_eq_nil_iff.mpr, List.append_nil]
  · intro row hrow
    simpa using hadded row hrow
  · intro row hrow
    simpa using hold row hrow

/-- The versions above the old ones are those that `migrate` added, the last of them first. -/
theorem descending_after_migrate (hok : (mgr.migrate env d).1 = .ok ()) {target : QString}
    (hold : ∀ version ∈ d.view.versions, versionLess target version = false)
    (hnew : ∀ m ∈ mgr.pending d.view.versions, versionLess target m.version = true) :
    (descending (mgr.migrate env d).2.2.view.versions).filter (versionLess target) =
      (mgr.pending d.view.versions).reverse.map IMigration.version := by
  obtain ⟨_, _, hversions, _⟩ := migrate_ok hok
  rw [hversions, List.map_reverse]
  apply filter_descending_append hold
  · intro version hversion
    obtain ⟨m, hm, rfl⟩ := List.mem_map.mp hversion
    exact hnew m hm
  · exact sorted_pending

/-- The history after `migrate` without the rows of the pending migrations is the old one. -/
theorem rows_without_pending (hok : (mgr.migrate env d).1 = .ok ()) :
    ((mgr.migrate env d).2.2.durable.rows.filter fun row =>
      row.version ∉ (mgr.pending d.view.versions).map IMigration.version) = d.durable.rows := by
  obtain ⟨_, ⟨⟨rows, hrows, hrowsOf⟩, _⟩, _, _, hidle⟩ := migrate_ok hok
  rw [hrows]
  apply filter_added_rows
  · intro row hrow hadded
    obtain ⟨m, hm, hversion⟩ := List.mem_map.mp hadded
    apply (mem_pending_iff.mp hm).2
    rw [hversion, view_of_idle (hidle (List.ne_nil_of_mem hm)).1]
    exact List.mem_map_of_mem hrow
  · intro row hrow
    have hpair := List.mem_map_of_mem (f := fun row => (row.version, row.description)) hrow
    rw [hrowsOf] at hpair
    obtain ⟨m, hm, heq⟩ := List.mem_map.mp hpair
    exact List.mem_map.mpr ⟨m, hm, congrArg Prod.fst heq⟩

/-- `rollbackTo` a version that is at least as great as the old ones and less than the added ones. -/
theorem rollbackTo_after_migrate (hok : (mgr.migrate env d).1 = .ok ()) {target : QString}
    (hold : ∀ version ∈ d.view.versions, versionLess target version = false)
    (hnew : ∀ m ∈ mgr.pending d.view.versions, versionLess target m.version = true)
    (hinverse : ∀ m ∈ mgr.pending d.view.versions, Inverse m) (env' : Environment) :
    let run := (mgr.migrate env d).2.1.rollbackTo env' target (mgr.migrate env d).2.2
    (run.1 = .ok () → run.2.2.durable.rows = d.durable.rows ∧
      run.2.2.durable.schema = d.durable.schema) ∧ (Reliable env' → run.1 = .ok ()) := by
  obtain ⟨hmigrations, ⟨_, moments, hlength, hlead⟩, _, hhistory, hidle⟩ := migrate_ok hok
  have hselected := descending_after_migrate hok hold hnew
  have hkept := rows_without_pending hok
  set todo := mgr.pending d.view.versions
  set migrated := (mgr.migrate env d).2.1
  set after := (mgr.migrate env d).2.2
  have hregistered : ∀ m ∈ todo, m ∈ mgr.mMigrations := fun m hm => (mem_pending_iff.mp hm).1
  rw [rollbackTo_eq]
  by_cases hconnected : env'.isConnected after.calls = true
  · rw [if_neg (not_not.mpr hconnected)]
    obtain ⟨error, ensured, stopped, _, heq⟩ | ⟨ensured, ready, hsame, hsome, hensured, heq⟩ :=
      withApplied_cases env' migrated after
    · rw [heq]
      refine ⟨fun hrun => (nomatch hrun), fun hreliable => ?_⟩
      have hreached := withApplied_reliable hreliable hhistory migrated
      rw [heq] at hreached
      contradiction
    · rw [heq, hselected]
      rw [← hsame.schema] at hlead
      obtain ⟨hrestores, hsucceeds⟩ := @undoAll_restores S env' ensured ready todo moments _
        (by rwa [hensured, hmigrations]) hinverse hlength hlead
      refine ⟨fun hrun => ⟨?_, hrestores hrun⟩, fun hreliable => hsucceeds hreliable fun hne => ?_⟩
      · obtain ⟨_, migrations, hundone, _, hreverted⟩ := undoAll_ok hrun
        change (undoAll env' ensured ready (todo.reverse.map IMigration.version)).2.durable.rows = _
        rw [hreverted.history, hundone, hsame.rows, ← hkept]
        simp only [List.map_reverse, List.mem_reverse]
      · have hready := hsame.transaction.mpr (hidle hne).2
        rw [view_of_idle hready] at hsome
        exact ⟨hready, hsome⟩
  · rw [if_pos hconnected]
    exact ⟨fun hrun => (nomatch hrun), fun hreliable => absurd (hreliable.isConnected _) hconnected⟩

/-- `rollback` undoes the greatest of the applied versions, as many as it is asked for and there are,
and `rollbackTo` those greater than its target, in descending order; a run that fails has undone the
versions before the first that cannot be undone, and nothing else. After a `migrate` that ended well,
`rollbackTo` the greatest of the old versions leads back to the old history and schema where all new
versions are greater and `down` takes back what `up` did; it ends well if the server answers. -/
theorem rollback_undoes_greatest (env : Environment) (mgr : MigrationManager S) (d : Driver S) :
    let applied := descending d.view.versions
    applied.Perm d.view.versions ∧
    (applied.Pairwise fun a b => versionLess a b = false) ∧
    (∀ steps : Int, (applied.take steps.toNat).length = min steps.toNat d.view.versions.length ∧
      Undoes env mgr d (applied.take steps.toNat) (mgr.rollback env steps d)) ∧
    (∀ target, Undoes env mgr d (applied.filter (versionLess target)) (mgr.rollbackTo env target d)) ∧
    (∀ target env', (mgr.migrate env d).1 = .ok () →
      (∀ version ∈ d.view.versions, versionLess target version = false) →
      (∀ m ∈ mgr.pending d.view.versions, versionLess target m.version = true) →
      (∀ m ∈ mgr.pending d.view.versions, Inverse m) →
      let run := (mgr.migrate env d).2.1.rollbackTo env' target (mgr.migrate env d).2.2
      (run.1 = .ok () → run.2.2.durable.rows = d.durable.rows ∧
        run.2.2.durable.schema = d.durable.schema) ∧ (Reliable env' → run.1 = .ok ())) := by
  intro applied
  have hperm := descending_perm d.view.versions
  refine ⟨hperm, descending_sorted _, fun steps => ⟨?_, rollback_undoes env mgr d steps⟩,
    rollbackTo_undoes env mgr d, ?_⟩
  · rw [List.length_take, hperm.length_eq]
  · intro target env' hok hold hnew hinverse
    exact rollbackTo_after_migrate hok hold hnew hinverse env'

end MigrationManager

end SoulCoreKit.Orm
