import SoulCoreKit.Lib.Run
import SoulCoreKit.Orm.Migration
import Mathlib.Data.List.Sort

/-!
# Migrations are applied one by one, or not at all

A migration runs in a transaction of its own, so the durable database moves only where a commit
succeeds, and then by the effect of one script and its row of the history. A run over the pending
migrations therefore leaves the effects of the first ones, up to the one that failed.
-/

namespace SoulCoreKit.Orm

variable {S : Type}

/-! ### What a run should do -/

def Database.rows (db : Database S) : List MigrationRecord := db.history.getD []

def Database.versions (db : Database S) : List QString := db.rows.map MigrationRecord.version

/-- The scripts, each run at a call of the driver, lead from the one schema to the other, and none of
them failed. -/
def ScriptsLead (before : S) : List (IMigration S × Nat) → S → Prop
  | [], after => before = after
  | (m, calls) :: rest, after =>
      (m.up calls before).1 = .ok () ∧ ScriptsLead (m.up calls before).2 rest after

/-- The history and the schema are the old ones and those of the migrations, no others. -/
structure Advanced (before : Database S) (migrations : List (IMigration S)) (after : Database S) :
    Prop where
  history : ∃ rows, after.rows = before.rows ++ rows ∧
    rows.map (fun row => (row.version, row.description)) =
      migrations.map fun m => (m.version, m.description)
  schema : ∃ moments : List Nat, moments.length = migrations.length ∧
    ScriptsLead before.schema (migrations.zip moments) after.schema

theorem advanced_refl (db : Database S) : Advanced db [] db :=
  ⟨⟨[], by simp, rfl⟩, [], rfl, rfl⟩

theorem Advanced.cons {before after : Database S} {migrations : List (IMigration S)} {m : IMigration S}
    {calls : Nat} {row : MigrationRecord} {rows : List MigrationRecord} (hversion : row.version = m.version)
    (hdescription : row.description = m.description) (hhistory : before.history = some rows)
    (hup : (m.up calls before.schema).1 = .ok ())
    (hrest : Advanced ⟨(m.up calls before.schema).2, some (rows ++ [row])⟩ migrations after) :
    Advanced before (m :: migrations) after := by
  obtain ⟨⟨later, hrows, hlater⟩, moments, hlength, hscripts⟩ := hrest
  refine ⟨⟨row :: later, ?_, ?_⟩, calls :: moments, by simp [hlength], hup, hscripts⟩
  · rw [hrows]
    simp [Database.rows, hhistory]
  · rw [List.map_cons, List.map_cons, hversion, hdescription, hlater]

theorem Advanced.congr {before before' after : Database S} {migrations : List (IMigration S)}
    (hadvanced : Advanced before migrations after) (hrows : before'.rows = before.rows)
    (hschema : before'.schema = before.schema) : Advanced before' migrations after := by
  refine ⟨?_, ?_⟩
  · rw [hrows]
    exact hadvanced.history
  · rw [hschema]
    exact hadvanced.schema

theorem Advanced.versions {before after : Database S} {migrations : List (IMigration S)}
    (hadvanced : Advanced before migrations after) :
    after.versions = before.versions ++ migrations.map IMigration.version := by
  obtain ⟨⟨rows, hrows, hmigrations⟩, _⟩ := hadvanced
  have hversions := congrArg (List.map Prod.fst) hmigrations
  rw [List.map_map, List.map_map] at hversions
  rw [Database.versions, hrows, List.map_append]
  exact congrArg (_ ++ ·) hversions

/-- No step of the migration fails: no transaction is open, the driver refuses neither the beginning
of one nor the record nor the commit, and the script ends without an error. -/
structure Succeeds (env : Environment) (d : Driver S) (m : IMigration S) : Prop where
  idle : d.transaction = none
  begun : env.refusal d.calls = none
  scripted : (m.up (d.calls + 1) d.durable.schema).1 = .ok ()
  recorded : env.refusal (d.calls + 2) = none
  committed : env.refusal (d.calls + 3) = none

/-- The driver after it: the schema of the script, a row at the end of the history, four calls. -/
def Driver.migrated (env : Environment) (d : Driver S) (m : IMigration S) : Driver S where
  durable :=
    { schema := (m.up (d.calls + 1) d.durable.schema).2
      history := some
        (d.durable.rows ++ [⟨m.version, m.description, env.currentDateTimeUtc (d.calls + 2)⟩]) }
  calls := d.calls + 4
  executed := d.executed ++ [m.version]

/-- Nothing fails before the first migration: the driver is connected, the table is created or known to
be there, and the applied versions are read. -/
structure ReachesLoop (env : Environment) (mgr : MigrationManager S) (d : Driver S) : Prop where
  isConnected : env.isConnected d.calls = true
  tableThere : mgr.mTableEnsured = true → d.view.history.isSome = true
  firstCall : env.refusal d.calls = none
  secondCall : mgr.mTableEnsured = false → env.refusal (d.calls + 1) = none

/-- The driver at that moment. -/
def Driver.atLoop (mgr : MigrationManager S) (d : Driver S) : Driver S :=
  if mgr.mTableEnsured then d.called
  else (d.write { d.view with history := some d.view.rows }).called.called

/-! ### The order of versions -/

theorem versionLess_irrefl (a : QString) : versionLess a a = false := by
  induction a with
  | nil => rfl
  | cons c rest ih => simp [versionLess, ih]

theorem versionLess_trans {a b c : QString} (hab : versionLess a b = true)
    (hbc : versionLess b c = true) : versionLess a c = true := by
  induction a generalizing b c with
  | nil =>
      cases c with
      | nil => cases b <;> simp [versionLess] at hbc
      | cons z c => rfl
  | cons x a ih =>
      cases b with
      | nil => simp [versionLess] at hab
      | cons y b =>
          cases c with
          | nil => simp [versionLess] at hbc
          | cons z c =>
              rw [versionLess] at hab hbc ⊢
              by_cases hxy : x.toNat = y.toNat
              · rw [if_pos hxy] at hab
                by_cases hyz : y.toNat = z.toNat
                · rw [if_pos hyz] at hbc
                  rw [if_pos (hxy.trans hyz)]
                  exact ih hab hbc
                · rw [if_neg hyz, decide_eq_true_eq] at hbc
                  rw [if_neg (by omega), decide_eq_true_eq]
                  omega
              · rw [if_neg hxy, decide_eq_true_eq] at hab
                by_cases hyz : y.toNat = z.toNat
                · rw [if_neg (by omega), decide_eq_true_eq]
                  omega
                · rw [if_neg hyz, decide_eq_true_eq] at hbc
                  rw [if_neg (by omega), decide_eq_true_eq]
                  omega

theorem versionLess_total {a b : QString} (hne : a ≠ b) :
    versionLess a b = true ∨ versionLess b a = true := by
  induction a generalizing b with
  | nil =>
      cases b with
      | nil => contradiction
      | cons y b => exact Or.inl rfl
  | cons x a ih =>
      cases b with
      | nil => exact Or.inr rfl
      | cons y b =>
          rw [versionLess, versionLess]
          by_cases hxy : x.toNat = y.toNat
          · rw [if_pos hxy, if_pos hxy.symm]
            apply ih
            rintro rfl
            exact hne (congrArg (· :: a) (UInt16.toNat_inj.mp hxy))
          · rw [if_neg hxy, if_neg (fun heq => hxy heq.symm), decide_eq_true_eq, decide_eq_true_eq]
            omega

theorem versionLess_antisymm {a b : QString} (hab : versionLess a b = false)
    (hba : versionLess b a = false) : a = b := by
  by_contra hne
  obtain hlt | hlt := versionLess_total hne
  · rw [hab] at hlt
    contradiction
  · rw [hba] at hlt
    contradiction

theorem versionLess_asymm {a b : QString} (hab : versionLess a b = true) : versionLess b a = false := by
  by_contra hba
  rw [Bool.not_eq_false] at hba
  have hself := versionLess_trans hab hba
  rw [versionLess_irrefl] at hself
  contradiction

theorem versionLess_of_less_of_not_less {a b c : QString} (hab : versionLess a b = true)
    (hcb : versionLess c b = false) : versionLess a c = true := by
  by_cases heq : c = b
  · rw [heq]
    exact hab
  · have hbc := (versionLess_total heq).resolve_left (by rw [hcb]; exact Bool.false_ne_true)
    exact versionLess_trans hab hbc

theorem not_versionLess_trans {a b c : QString} (hba : versionLess b a = false)
    (hcb : versionLess c b = false) : versionLess c a = false := by
  by_contra hca
  rw [Bool.not_eq_false] at hca
  rw [versionLess_of_less_of_not_less hca hba] at hcb
  contradiction

/-! ### The pending migrations -/

namespace MigrationManager

variable {mgr : MigrationManager S} {applied : List QString}

theorem mem_pending_iff {m : IMigration S} :
    m ∈ mgr.pending applied ↔ m ∈ mgr.mMigrations ∧ m.version ∉ applied := by
  simp [pending]

theorem nodup_pending : ((mgr.pending applied).map IMigration.version).Nodup := by
  have hperm := (List.mergeSort_perm (mgr.mMigrations.filter fun m => m.version ∉ applied)
    fun a b => !versionLess b.version a.version).map IMigration.version
  rw [pending, hperm.nodup_iff]
  exact (List.filter_sublist.map IMigration.version).nodup mgr.distinct

theorem sorted_pending :
    ((mgr.pending applied).map IMigration.version).Pairwise fun a b => versionLess a b = true := by
  have hsorted : (mgr.pending applied).Pairwise fun a b =>
      (!versionLess b.version a.version) = true := by
    apply List.pairwise_mergeSort
    · intro a b c hab hbc
      rw [Bool.not_eq_true'] at hab hbc ⊢
      exact not_versionLess_trans hab hbc
    · intro a b
      cases hba : versionLess b.version a.version with
      | false => rfl
      | true => rw [versionLess_asymm hba]; rfl
  have hdistinct : (mgr.pending applied).Pairwise fun a b => a.version ≠ b.version :=
    List.pairwise_map.mp nodup_pending
  apply List.pairwise_map.mpr
  apply (hsorted.and hdistinct).imp
  rintro a b ⟨hle, hne⟩
  rw [Bool.not_eq_true'] at hle
  exact (versionLess_total hne).resolve_right (by rw [hle]; exact Bool.false_ne_true)

end MigrationManager

/-! ### The driver -/

namespace Driver

variable {env : Environment} {d : Driver S}

theorem beginTransaction_ok (hok : (d.beginTransaction env).1 = .ok ()) :
    env.refusal d.calls = none ∧ d.transaction = none ∧
      (d.beginTransaction env).2 = { d with transaction := some d.durable }.called := by
  unfold beginTransaction at hok ⊢
  cases hrefusal : env.refusal d.calls with
  | some error => simp [hrefusal] at hok
  | none =>
      cases htransaction : d.transaction with
      | some db => simp [hrefusal, htransaction] at hok
      | none => exact ⟨rfl, rfl, rfl⟩

theorem beginTransaction_error {error : Error} (herror : (d.beginTransaction env).1 = .error error) :
    (d.beginTransaction env).2 = d.called := by
  unfold beginTransaction at herror ⊢
  cases hrefusal : env.refusal d.calls with
  | some refused => rfl
  | none =>
      cases htransaction : d.transaction with
      | some db => rfl
      | none => simp [hrefusal, htransaction] at herror

theorem commit_ok (hok : (d.commit env).1 = .ok ()) :
    env.refusal d.calls = none ∧ ∃ db, d.transaction = some db ∧
      (d.commit env).2 = { d with durable := db, transaction := none }.called := by
  unfold commit at hok ⊢
  cases hrefusal : env.refusal d.calls with
  | some error => simp [hrefusal] at hok
  | none =>
      cases htransaction : d.transaction with
      | some db => exact ⟨rfl, db, rfl, rfl⟩
      | none => simp [hrefusal, htransaction] at hok

theorem commit_error {error : Error} (herror : (d.commit env).1 = .error error) :
    (d.commit env).2 = d.called := by
  unfold commit at herror ⊢
  cases hrefusal : env.refusal d.calls with
  | some refused => rfl
  | none =>
      cases htransaction : d.transaction with
      | some db => simp [hrefusal, htransaction] at herror
      | none => rfl

theorem rollback_frame :
    (d.rollback env).2.durable = d.durable ∧ (d.rollback env).2.executed = d.executed := by
  unfold rollback
  cases env.refusal d.calls <;> cases d.transaction <;> exact ⟨rfl, rfl⟩

theorem executeUpdate_error {statement : Database S → Option (Database S)} {error : Error}
    (herror : (d.executeUpdate env statement).1 = .error error) :
    (d.executeUpdate env statement).2 = d.called := by
  unfold executeUpdate at herror ⊢
  cases hrefusal : env.refusal d.calls with
  | some refused => rfl
  | none =>
      cases hstatement : statement d.view with
      | none => rfl
      | some db => simp [hrefusal, hstatement] at herror

theorem executeUpdate_ok {statement : Database S → Option (Database S)}
    (hok : (d.executeUpdate env statement).1 = .ok ()) :
    env.refusal d.calls = none ∧ ∃ db, statement d.view = some db ∧
      (d.executeUpdate env statement).2 = (d.write db).called := by
  unfold executeUpdate at hok ⊢
  cases hrefusal : env.refusal d.calls with
  | some error => simp [hrefusal] at hok
  | none =>
      cases hstatement : statement d.view with
      | none => simp [hrefusal, hstatement] at hok
      | some db => exact ⟨rfl, db, rfl, rfl⟩

theorem executeQuery_ok {R : Type} {query : Database S → Option R} {rows : R}
    (hok : (d.executeQuery env query).1 = .ok rows) : query d.view = some rows := by
  unfold executeQuery at hok
  cases hrefusal : env.refusal d.calls with
  | some error => simp [hrefusal] at hok
  | none =>
      cases hquery : query d.view with
      | none => simp [hrefusal, hquery] at hok
      | some found =>
          rw [hrefusal, hquery] at hok
          exact congrArg some (Except.ok.inj hok)

theorem executeQuery_snd {R : Type} (query : Database S → Option R) :
    (d.executeQuery env query).2 = d.called := by
  unfold executeQuery
  cases env.refusal d.calls with
  | some error => rfl
  | none => cases query d.view <;> rfl

end Driver

/-! ### One migration -/

namespace MigrationManager

variable {env : Environment} {d : Driver S} {m : IMigration S}

theorem insertRecord_some {row : MigrationRecord} {db db' : Database S}
    (hinsert : insertRecord row db = some db') :
    ∃ rows, db.history = some rows ∧ db' = { db with history := some (rows ++ [row]) } := by
  unfold insertRecord at hinsert
  cases hhistory : db.history with
  | none => simp [hhistory] at hinsert
  | some rows =>
      simp only [hhistory] at hinsert
      split at hinsert
      · contradiction
      · exact ⟨rows, rfl, (Option.some_inj.mp hinsert).symm⟩

/-- The driver after the transaction was opened and the script was run in it. -/
def scripted (d : Driver S) (m : IMigration S) : Driver S where
  durable := d.durable
  transaction := some ⟨(m.up (d.calls + 1) d.durable.schema).2, d.durable.history⟩
  calls := d.calls + 2
  executed := d.executed ++ [m.version]

theorem runScript_begun (d : Driver S) (m : IMigration S) :
    { d with transaction := some d.durable }.called.runScript m.version m.up =
      ((m.up (d.calls + 1) d.durable.schema).1, scripted d m) := rfl

/-- The migration with the script that is run in the place of `up`. -/
def oriented (m : IMigration S) (isUp : Bool) : IMigration S :=
  { m with up := if isUp then m.up else m.down }

/-- The statement that a migration makes on the history. -/
def recordStatement (env : Environment) (m : IMigration S) (isUp : Bool) (calls : Nat) :
    Database S → Option (Database S) :=
  if isUp then insertRecord ⟨m.version, m.description, env.currentDateTimeUtc calls⟩
  else deleteRecord m.version

theorem record_eq (env : Environment) (d : Driver S) (m : IMigration S) (isUp : Bool) :
    (if isUp then recordMigration env d m.version m.description
      else removeMigrationRecord env d m.version) =
      d.executeUpdate env (recordStatement env m isUp d.calls) := by
  cases isUp <;> rfl

/-- Where a migration ends: at the transaction, in the script, at the record, or in the commit. -/
theorem applyMigration_stages (env : Environment) (d : Driver S) (m : IMigration S) (isUp : Bool) :
    (∃ error, applyMigration env d m isUp = (.error error, d.called)) ∨
    (∃ error, applyMigration env d m isUp =
      (.error error, ((scripted d (oriented m isUp)).rollback env).2)) ∨
    (∃ error, applyMigration env d m isUp =
      (.error error, ((scripted d (oriented m isUp)).called.rollback env).2)) ∨
    d.transaction = none ∧ env.refusal d.calls = none ∧
      ((oriented m isUp).up (d.calls + 1) d.durable.schema).1 = .ok () ∧
      env.refusal (d.calls + 2) = none ∧
      ∃ db, recordStatement env m isUp (d.calls + 2)
          ⟨((oriented m isUp).up (d.calls + 1) d.durable.schema).2, d.durable.history⟩ = some db ∧
        applyMigration env d m isUp =
          ({ scripted d (oriented m isUp) with transaction := some db }.called).commit env := by
  set script := oriented m isUp with hscript
  cases hbegun : d.beginTransaction env with
  | mk result begun =>
  cases result with
  | error error =>
      have hsame := Driver.beginTransaction_error (congrArg Prod.fst hbegun)
      rw [hbegun] at hsame
      change begun = d.called at hsame
      subst hsame
      exact Or.inl ⟨error, by simp only [applyMigration, hbegun]⟩
  | ok value =>
  right
  obtain ⟨hrefusal, hidle, hopened⟩ := Driver.beginTransaction_ok (congrArg Prod.fst hbegun)
  rw [hbegun] at hopened
  change begun = _ at hopened
  subst hopened
  have hscripted : { d with transaction := some d.durable }.called.runScript m.version
      (if isUp then m.up else m.down) = ((script.up (d.calls + 1) d.durable.schema).1, scripted d script) :=
    runScript_begun d script
  cases hup : (script.up (d.calls + 1) d.durable.schema).1 with
  | error error => exact Or.inl ⟨error, by simp only [applyMigration, hbegun, hscripted, hup]⟩
  | ok value =>
  right
  cases hrecorded : (scripted d script).executeUpdate env
      (recordStatement env m isUp (scripted d script).calls) with
  | mk result recorded =>
  cases result with
  | error error =>
      have hsame := Driver.executeUpdate_error (congrArg Prod.fst hrecorded)
      rw [hrecorded] at hsame
      change recorded = _ at hsame
      subst hsame
      exact Or.inl ⟨error, by simp only [applyMigration, hbegun, hscripted, hup, record_eq, hrecorded]⟩
  | ok value =>
      obtain ⟨hrecord, db, hstatement, hwritten⟩ := Driver.executeUpdate_ok (congrArg Prod.fst hrecorded)
      rw [hrecorded] at hwritten
      change recorded = _ at hwritten
      subst hwritten
      refine Or.inr ⟨hidle, hrefusal, rfl, hrecord, db, hstatement, ?_⟩
      change _ = (((scripted d script).write db).called).commit env
      simp only [applyMigration, hbegun, hscripted, hup, record_eq, hrecorded]

/-- A migration that fails, up or down, leaves the durable database as it was; one that succeeds adds
the effect of its script and of its statement on the history. -/
theorem applyMigration_spec (env : Environment) (d : Driver S) (m : IMigration S) (isUp : Bool) :
    (∃ error, (applyMigration env d m isUp).1 = .error error ∧
      (applyMigration env d m isUp).2.durable = d.durable ∧
      ((applyMigration env d m isUp).2.executed = d.executed ∨
        (applyMigration env d m isUp).2.executed = d.executed ++ [m.version])) ∨
    ((applyMigration env d m isUp).1 = .ok () ∧ d.transaction = none ∧
      (applyMigration env d m isUp).2.transaction = none ∧
      (applyMigration env d m isUp).2.executed = d.executed ++ [m.version] ∧
      ∃ calls db, ((oriented m isUp).up calls d.durable.schema).1 = .ok () ∧
        recordStatement env m isUp (calls + 1)
          ⟨((oriented m isUp).up calls d.durable.schema).2, d.durable.history⟩ = some db ∧
        (applyMigration env d m isUp).2.durable = db) := by
  obtain ⟨error, heq⟩ | ⟨error, heq⟩ | ⟨error, heq⟩ | ⟨hidle, -, hup, -, db, hstatement, heq⟩ :=
    applyMigration_stages env d m isUp
  · rw [heq]
    exact Or.inl ⟨error, rfl, rfl, Or.inl rfl⟩
  · obtain ⟨hdurable, hexecuted⟩ := @Driver.rollback_frame S env (scripted d (oriented m isUp))
    rw [heq]
    exact Or.inl ⟨error, rfl, hdurable, Or.inr hexecuted⟩
  · obtain ⟨hdurable, hexecuted⟩ := @Driver.rollback_frame S env (scripted d (oriented m isUp)).called
    rw [heq]
    exact Or.inl ⟨error, rfl, hdurable, Or.inr hexecuted⟩
  · rw [heq]
    cases hcommit : ({ scripted d (oriented m isUp) with transaction := some db }.called.commit env).1 with
    | error error =>
        rw [Driver.commit_error hcommit]
        exact Or.inl ⟨error, rfl, rfl, Or.inr rfl⟩
    | ok value =>
        obtain ⟨-, committed, hworking, hdone⟩ := Driver.commit_ok hcommit
        rw [hdone]
        exact Or.inr ⟨rfl, hidle, rfl, rfl, d.calls + 1, db, hup, hstatement,
          (Option.some_inj.mp hworking).symm⟩

theorem applyMigration_cases (env : Environment) (d : Driver S) (m : IMigration S) :
    (∃ error, (applyMigration env d m true).1 = .error error ∧
      (applyMigration env d m true).2.durable = d.durable ∧
      ((applyMigration env d m true).2.executed = d.executed ∨
        (applyMigration env d m true).2.executed = d.executed ++ [m.version])) ∨
    ((applyMigration env d m true).1 = .ok () ∧ d.transaction = none ∧
      (applyMigration env d m true).2.transaction = none ∧
      (applyMigration env d m true).2.executed = d.executed ++ [m.version] ∧
      ∃ row rows calls, row.version = m.version ∧ row.description = m.description ∧
        d.durable.history = some rows ∧ (m.up calls d.durable.schema).1 = .ok () ∧
        (applyMigration env d m true).2.durable =
          ⟨(m.up calls d.durable.schema).2, some (rows ++ [row])⟩) := by
  apply (applyMigration_spec env d m true).imp_right
  rintro ⟨hok, hidle, hclosed, hexecuted, calls, db, hup, hstatement, hdurable⟩
  obtain ⟨rows, hhistory, rfl⟩ := insertRecord_some hstatement
  exact ⟨hok, hidle, hclosed, hexecuted, _, rows, calls, rfl, rfl, hhistory, hup, hdurable⟩

/-! ### The loop -/

theorem applyAll_ok {migrations : List (IMigration S)}
    (hok : (applyAll env d migrations).1 = .ok ()) :
    Advanced d.durable migrations (applyAll env d migrations).2.durable ∧
      (applyAll env d migrations).2.executed =
        d.executed ++ migrations.map IMigration.version ∧
      (applyAll env d migrations = (.ok (), d) ∨
        d.transaction = none ∧ (applyAll env d migrations).2.transaction = none) := by
  induction migrations generalizing d with
  | nil => exact ⟨advanced_refl _, by simp [applyAll], Or.inl rfl⟩
  | cons m rest ih =>
      rw [applyAll] at hok ⊢
      cases happly : applyMigration env d m true with
      | mk result after =>
      have hcases := applyMigration_cases env d m
      rw [happly] at hok hcases
      obtain ⟨error, herror, _⟩ | ⟨hresult, hidle, hclosed, hexecuted, row, rows, calls, hversion,
        hdescription, hhistory, hup, hdurable⟩ := hcases
      · change result = .error error at herror
        subst herror
        contradiction
      · change result = .ok () at hresult
        subst hresult
        change after.durable = _ at hdurable
        obtain ⟨hadvanced, hrestExecuted, htransaction⟩ := ih hok
        rw [hdurable] at hadvanced
        refine ⟨Advanced.cons hversion hdescription hhistory hup hadvanced, ?_, Or.inr ⟨hidle, ?_⟩⟩
        · rw [hrestExecuted]
          change after.executed = _ at hexecuted
          rw [hexecuted, List.append_assoc]
          rfl
        · obtain hsame | ⟨_, hnone⟩ := htransaction
          · change (applyAll env after rest).2.transaction = none
            rw [hsame]
            exact hclosed
          · exact hnone

/-- A migration that was applied, up or down, met no failure on its way. -/
theorem succeeds_of_applied {isUp : Bool} (hok : (applyMigration env d m isUp).1 = .ok ()) :
    Succeeds env d (oriented m isUp) := by
  obtain ⟨error, heq⟩ | ⟨error, heq⟩ | ⟨error, heq⟩ |
    ⟨hidle, hbegun, hup, hrecord, db, -, heq⟩ := applyMigration_stages env d m isUp
  · rw [heq] at hok
    contradiction
  · rw [heq] at hok
    contradiction
  · rw [heq] at hok
    contradiction
  · rw [heq] at hok
    exact ⟨hidle, hbegun, hup, hrecord, (Driver.commit_ok hok).1⟩

theorem applyMigration_of_statement {isUp : Bool} {db : Database S}
    (hsucceeds : Succeeds env d (oriented m isUp))
    (hstatement : recordStatement env m isUp (d.calls + 2)
      ⟨((oriented m isUp).up (d.calls + 1) d.durable.schema).2, d.durable.history⟩ = some db) :
    applyMigration env d m isUp =
      (.ok (), { durable := db, calls := d.calls + 4, executed := d.executed ++ [m.version] }) := by
  obtain ⟨hidle, hbegun, hup, hrecord, hcommit⟩ := hsucceeds
  have hopened : d.beginTransaction env = (.ok (), { d with transaction := some d.durable }.called) := by
    simp only [Driver.beginTransaction, hbegun, hidle]
  have hscripted : { d with transaction := some d.durable }.called.runScript m.version
      (if isUp then m.up else m.down) = (.ok (), scripted d (oriented m isUp)) := by
    rw [← hup]
    exact runScript_begun d (oriented m isUp)
  have hrecorded : (scripted d (oriented m isUp)).executeUpdate env
      (recordStatement env m isUp (scripted d (oriented m isUp)).calls) =
      (.ok (), { scripted d (oriented m isUp) with transaction := some db }.called) := by
    simp only [scripted] at hstatement ⊢
    simp only [Driver.executeUpdate, hrecord, Driver.view, Option.getD_some, hstatement, Driver.write]
  have hdone : ({ scripted d (oriented m isUp) with transaction := some db }.called).commit env =
      (.ok (), { durable := db, calls := d.calls + 4, executed := d.executed ++ [m.version] }) := by
    simp only [Driver.commit, Driver.called, scripted, hcommit]
    rfl
  simp only [applyMigration, hopened, hscripted, record_eq, hrecorded, hdone]

theorem applyMigration_of_succeeds (hsucceeds : Succeeds env d m)
    (hhistory : d.durable.history.isSome = true) (hnew : m.version ∉ d.durable.versions) :
    applyMigration env d m true = (.ok (), d.migrated env m) := by
  obtain ⟨rows, hrows⟩ := Option.isSome_iff_exists.mp hhistory
  have hrows' : d.durable.rows = rows := by simp [Database.rows, hrows]
  have hnew' : m.version ∉ rows.map MigrationRecord.version := by rwa [Database.versions, hrows'] at hnew
  apply applyMigration_of_statement hsucceeds
  simp only [recordStatement, if_true, insertRecord, hrows, hnew', if_false, hrows']
  rfl

/-- The history can take the rows of the migrations. -/
structure Takes (d : Driver S) (migrations : List (IMigration S)) : Prop where
  history : d.transaction = none → d.durable.history.isSome = true
  nodup : (migrations.map IMigration.version).Nodup
  new : d.transaction = none → ∀ m ∈ migrations, m.version ∉ d.durable.versions

theorem Takes.apply {rest : List (IMigration S)} (htakes : Takes d (m :: rest))
    (hsucceeds : Succeeds env d m) :
    applyMigration env d m true = (.ok (), d.migrated env m) ∧ Takes (d.migrated env m) rest := by
  have hidle := hsucceeds.idle
  obtain ⟨hfirst, hrest⟩ := List.nodup_cons.mp htakes.nodup
  refine ⟨applyMigration_of_succeeds hsucceeds (htakes.history hidle)
    (htakes.new hidle m List.mem_cons_self), fun _ => rfl, hrest, ?_⟩
  intro _ later hlater hmem
  have hversions : (d.migrated env m).durable.versions = d.durable.versions ++ [m.version] := by
    simp [Driver.migrated, Database.versions, Database.rows]
  rw [hversions, List.mem_append, List.mem_singleton] at hmem
  rcases hmem with hmem | hsame
  · exact htakes.new hidle later (List.mem_cons_of_mem m hlater) hmem
  · exact hfirst (hsame ▸ List.mem_map_of_mem hlater)

/-- The loop goes through the migrations that succeed. -/
theorem applyAll_append {prior rest : List (IMigration S)} (htakes : Takes d (prior ++ rest))
    (hprior : Along (Driver.migrated env) (Succeeds env) d prior) :
    applyAll env d (prior ++ rest) = applyAll env (run (Driver.migrated env) d prior) rest := by
  induction prior generalizing d with
  | nil => rfl
  | cons m prior ih =>
      obtain ⟨happly, hnext⟩ := htakes.apply hprior.1
      rw [List.cons_append, applyAll, happly]
      exact ih hnext hprior.2

theorem applyAll_ok_iff {migrations : List (IMigration S)} (htakes : Takes d migrations) :
    (applyAll env d migrations).1 = .ok () ↔
      Along (Driver.migrated env) (Succeeds env) d migrations := by
  induction migrations generalizing d with
  | nil => exact iff_of_true rfl trivial
  | cons m rest ih =>
      constructor
      · intro hok
        have happlied : (applyMigration env d m true).1 = .ok () := by
          unfold applyAll at hok
          cases happly : applyMigration env d m true with
          | mk result after =>
          rw [happly] at hok
          cases result with
          | error error => contradiction
          | ok value => rfl
        have hsucceeds : Succeeds env d m := @succeeds_of_applied _ _ _ _ true happlied
        obtain ⟨happly, hnext⟩ := htakes.apply hsucceeds
        rw [applyAll, happly] at hok
        exact ⟨hsucceeds, (ih hnext).mp hok⟩
      · intro hall
        obtain ⟨happly, hnext⟩ := htakes.apply hall.1
        rw [applyAll, happly]
        exact (ih hnext).mpr hall.2

/-- The loop stops at the first migration that fails, with the effects of those before it. -/
theorem applyAll_stops {prior later : List (IMigration S)} (htakes : Takes d (prior ++ m :: later))
    (hprior : Along (Driver.migrated env) (Succeeds env) d prior)
    (hfails : ¬ Succeeds env (run (Driver.migrated env) d prior) m) :
    Advanced d.durable prior (applyAll env d (prior ++ m :: later)).2.durable ∧
      ∃ tried, (tried = [] ∨ tried = [m.version]) ∧
        (applyAll env d (prior ++ m :: later)).2.executed =
          d.executed ++ prior.map IMigration.version ++ tried := by
  have htakesPrior : Takes d prior :=
    { history := htakes.history
      nodup := (htakes.nodup.sublist ((List.sublist_append_left prior _).map _))
      new := fun hidle earlier hearlier => htakes.new hidle earlier (List.mem_append_left _ hearlier) }
  have hrun := @applyAll_append _ _ _ prior [] (by rwa [List.append_nil]) hprior
  rw [List.append_nil] at hrun
  obtain ⟨hadvanced, hexecuted, -⟩ := applyAll_ok ((applyAll_ok_iff htakesPrior).mpr hprior)
  rw [hrun] at hadvanced hexecuted
  change Advanced d.durable prior (run (Driver.migrated env) d prior).durable at hadvanced
  change (run (Driver.migrated env) d prior).executed = _ at hexecuted
  rw [applyAll_append htakes hprior, applyAll]
  have hcases := applyMigration_cases env (run (Driver.migrated env) d prior) m
  cases happly : applyMigration env (run (Driver.migrated env) d prior) m true with
  | mk result after =>
  rw [happly] at hcases
  obtain ⟨error, herror, hdurable, htried⟩ | ⟨hok, -⟩ := hcases
  · change result = .error error at herror
    subst herror
    change after.durable = _ at hdurable
    refine ⟨hdurable ▸ hadvanced, ?_⟩
    rcases htried with hnone | hone
    · exact ⟨[], Or.inl rfl, by rw [List.append_nil, ← hexecuted]; exact hnone⟩
    · exact ⟨[m.version], Or.inr rfl, by rw [← hexecuted]; exact hone⟩
  · exact absurd (@succeeds_of_applied _ _ _ _ true ((congrArg Prod.fst happly).trans hok)) hfails

/-! ### The whole run -/

/-- Nothing but the presence of the table and the number of calls has changed. -/
structure SameData (d d' : Driver S) : Prop where
  schema : d'.durable.schema = d.durable.schema
  rows : d'.durable.rows = d.durable.rows
  viewRows : d'.view.rows = d.view.rows
  executed : d'.executed = d.executed
  transaction : d'.transaction = none ↔ d.transaction = none

theorem sameData_called (d : Driver S) : SameData d d.called := ⟨rfl, rfl, rfl, rfl, Iff.rfl⟩

theorem sameData_createTable {db : Database S} (hcreate : createTable d.view = some db) :
    SameData d (d.write db).called := by
  obtain rfl := Option.some_inj.mp hcreate
  cases htransaction : d.transaction with
  | none =>
      simp only [Driver.write, Driver.view, htransaction, Driver.called]
      refine ⟨rfl, ?_, ?_, rfl, by simp [htransaction]⟩
      · simp [Database.rows]
      · simp [Database.rows, Driver.view, htransaction]
  | some working =>
      simp only [Driver.write, Driver.view, htransaction, Driver.called]
      refine ⟨rfl, rfl, ?_, rfl, by simp [htransaction]⟩
      simp [Database.rows, Driver.view, htransaction]

theorem ensureMigrationsTable_spec (env : Environment) (mgr : MigrationManager S) (d : Driver S) :
    (ensureMigrationsTable env mgr d).2.1.mMigrations = mgr.mMigrations ∧
      SameData d (ensureMigrationsTable env mgr d).2.2 := by
  unfold ensureMigrationsTable
  split
  · exact ⟨rfl, rfl, rfl, rfl, rfl, Iff.rfl⟩
  · cases hupdate : d.executeUpdate env createTable with
    | mk result after =>
    cases result with
    | error error =>
        have hsame := Driver.executeUpdate_error (congrArg Prod.fst hupdate)
        rw [hupdate] at hsame
        change after = _ at hsame
        subst hsame
        exact ⟨rfl, sameData_called d⟩
    | ok value =>
        obtain ⟨-, db, hcreate, hsame⟩ := Driver.executeUpdate_ok (congrArg Prod.fst hupdate)
        rw [hupdate] at hsame
        change after = _ at hsame
        subst hsame
        exact ⟨rfl, sameData_createTable hcreate⟩

/-- What `migrate`, `rollback` and `rollbackTo` have in common: a loop, once the table is there and the
applied versions are known. -/
def withApplied (env : Environment) (mgr : MigrationManager S) (d : Driver S)
    (loop : MigrationManager S → Driver S → List QString → Result Unit × Driver S) :
    Result Unit × MigrationManager S × Driver S :=
  match ensureMigrationsTable env mgr d with
  | (.error error, mgr, d) => (.error error, mgr, d)
  | (.ok _, mgr, d) =>
      match appliedVersions env d with
      | (.error error, d) => (.error error, mgr, d)
      | (.ok applied, d) => ((loop mgr d applied).1, mgr, (loop mgr d applied).2)

/-- Either the run stops before the loop, with the data as it was, or it is the loop, from a driver with
the same data. -/
theorem withApplied_cases (env : Environment) (mgr : MigrationManager S) (d : Driver S) :
    (∃ error ensured after, SameData d after ∧
      ∀ loop, withApplied env mgr d loop = (.error error, ensured, after)) ∨
    ∃ ensured ready, SameData d ready ∧ ready.view.history.isSome = true ∧
      ensured.mMigrations = mgr.mMigrations ∧
      ∀ loop, withApplied env mgr d loop =
        ((loop ensured ready d.view.versions).1, ensured, (loop ensured ready d.view.versions).2) := by
  unfold withApplied
  have hensured := ensureMigrationsTable_spec env mgr d
  cases hensure : ensureMigrationsTable env mgr d with
  | mk result rest =>
  obtain ⟨ensured, after⟩ := rest
  rw [hensure] at hensured
  obtain ⟨hmigrations, hsame⟩ := hensured
  change ensured.mMigrations = _ at hmigrations
  change SameData d after at hsame
  cases result with
  | error error => exact Or.inl ⟨error, ensured, after, hsame, fun _ => rfl⟩
  | ok value =>
      have hquery := @Driver.executeQuery_snd S env after _ selectVersions
      cases happlied : after.executeQuery env selectVersions with
      | mk result queried =>
      rw [happlied] at hquery
      change queried = _ at hquery
      subst hquery
      have hsame' : SameData d after.called :=
        ⟨hsame.schema, hsame.rows, hsame.viewRows, hsame.executed, hsame.transaction⟩
      cases result with
      | error error =>
          simp only [appliedVersions, happlied]
          exact Or.inl ⟨error, ensured, after.called, hsame', fun _ => rfl⟩
      | ok applied =>
          have hselected := Driver.executeQuery_ok (congrArg Prod.fst happlied)
          obtain ⟨rows, hrows, rfl⟩ := Option.map_eq_some_iff.mp hselected
          have hversions : rows.map MigrationRecord.version = d.view.versions := by
            rw [Database.versions, ← hsame.viewRows]
            simp [Database.rows, hrows]
          simp only [appliedVersions, happlied, hversions]
          exact Or.inr ⟨ensured, after.called, hsame', Option.isSome_of_eq_some hrows, hmigrations,
            fun _ => rfl⟩

theorem migrate_eq (env : Environment) (mgr : MigrationManager S) (d : Driver S) :
    mgr.migrate env d =
      if ¬ env.isConnected d.calls then
        (.error ⟨.notConnected, "MigrationManager::migrate: driver not connected"⟩, mgr, d)
      else
        withApplied env mgr d fun mgr d applied => applyAll env d (mgr.pending applied) := rfl

/-- A run of `migrate` either stops before the loop, with the data as it was, or is the loop over what
is pending, from a driver with the same data. -/
theorem migrate_cases (env : Environment) (mgr : MigrationManager S) (d : Driver S) :
    (∃ error, (mgr.migrate env d).1 = .error error ∧ SameData d (mgr.migrate env d).2.2) ∨
    ∃ ready, SameData d ready ∧
      (mgr.migrate env d).2.1.mMigrations = mgr.mMigrations ∧
      (mgr.migrate env d).1 = (applyAll env ready (mgr.pending d.view.versions)).1 ∧
      (mgr.migrate env d).2.2 = (applyAll env ready (mgr.pending d.view.versions)).2 := by
  rw [migrate_eq]
  split
  · exact Or.inl ⟨_, rfl, rfl, rfl, rfl, rfl, Iff.rfl⟩
  · obtain ⟨error, ensured, after, hsame, heq⟩ | ⟨ensured, ready, hsame, _, hmigrations, heq⟩ :=
      withApplied_cases env mgr d
    · rw [heq]
      exact Or.inl ⟨error, rfl, hsame⟩
    · have hpending : ensured.pending d.view.versions = mgr.pending d.view.versions := by
        rw [pending, pending, hmigrations]
      rw [heq, hpending]
      exact Or.inr ⟨ready, hsame, hmigrations, rfl, rfl⟩

theorem view_of_idle (hidle : d.transaction = none) : d.view = d.durable := by
  simp [Driver.view, hidle]

/-- After the loop has ended well, the connection sees every pending version in the history. -/
theorem versions_of_applyAll_ok {migrations : List (IMigration S)}
    (hok : (applyAll env d migrations).1 = .ok ()) :
    (applyAll env d migrations).2.view.versions =
      d.view.versions ++ migrations.map IMigration.version := by
  obtain ⟨hadvanced, hexecuted, hsame | ⟨hidle, hclosed⟩⟩ := applyAll_ok hok
  · rw [hsame] at hexecuted ⊢
    have hnil : migrations.map IMigration.version = [] := List.self_eq_append_right.mp hexecuted
    rw [hnil, List.append_nil]
  · rw [view_of_idle hidle, view_of_idle hclosed]
    exact hadvanced.versions

theorem pending_eq_nil {mgr : MigrationManager S} {applied : List QString}
    (hall : ∀ m ∈ mgr.mMigrations, m.version ∈ applied) : mgr.pending applied = [] := by
  rw [List.eq_nil_iff_forall_not_mem]
  intro m hm
  obtain ⟨hregistered, hnew⟩ := mem_pending_iff.mp hm
  exact hnew (hall m hregistered)

theorem executed_of_nothing_pending {mgr : MigrationManager S}
    (hnothing : mgr.pending d.view.versions = []) (env : Environment) :
    (mgr.migrate env d).2.2.executed = d.executed := by
  obtain ⟨_, _, hsame⟩ | ⟨ready, hsame, _, _, hafter⟩ := migrate_cases env mgr d
  · exact hsame.executed
  · rw [hafter, hnothing]
    exact hsame.executed

theorem nothing_pending_after_ok {mgr : MigrationManager S} (hok : (mgr.migrate env d).1 = .ok ()) :
    (mgr.migrate env d).2.1.pending (mgr.migrate env d).2.2.view.versions = [] := by
  obtain ⟨error, herror, _⟩ | ⟨ready, hsame, hmigrations, hresult, hafter⟩ := migrate_cases env mgr d
  · rw [herror] at hok
    contradiction
  · rw [hresult] at hok
    apply pending_eq_nil
    intro m hm
    rw [hafter, versions_of_applyAll_ok hok, List.mem_append]
    rw [hmigrations] at hm
    have hversions : ready.view.versions = d.view.versions := by
      rw [Database.versions, hsame.viewRows, Database.versions]
    by_cases happlied : m.version ∈ d.view.versions
    · exact Or.inl (hversions ▸ happlied)
    · exact Or.inr (List.mem_map_of_mem (mem_pending_iff.mpr ⟨hm, happlied⟩))

theorem view_write (d : Driver S) (db : Database S) : (d.write db).view = db := by
  unfold Driver.write Driver.view
  cases htransaction : d.transaction with
  | none => simp
  | some working => rfl

theorem calls_write (d : Driver S) (db : Database S) : (d.write db).calls = d.calls := by
  unfold Driver.write
  cases d.transaction <;> rfl

theorem appliedVersions_of_rows {rows : List MigrationRecord} (hrefusal : env.refusal d.calls = none)
    (hrows : d.view.history = some rows) :
    appliedVersions env d = (.ok d.view.versions, d.called) := by
  simp [appliedVersions, Driver.executeQuery, hrefusal, selectVersions, hrows, Database.versions,
    Database.rows]

theorem withApplied_of_reachesLoop {mgr : MigrationManager S} (hreaches : ReachesLoop env mgr d) :
    ∃ ensured : MigrationManager S, ensured.mMigrations = mgr.mMigrations ∧ ∀ loop,
      withApplied env mgr d loop =
        ((loop ensured (d.atLoop mgr) d.view.versions).1, ensured,
          (loop ensured (d.atLoop mgr) d.view.versions).2) := by
  unfold withApplied ensureMigrationsTable Driver.atLoop
  by_cases hensured : mgr.mTableEnsured = true
  · obtain ⟨rows, hrows⟩ := Option.isSome_iff_exists.mp (hreaches.tableThere hensured)
    rw [if_pos hensured, if_pos hensured]
    simp only [appliedVersions_of_rows hreaches.firstCall hrows]
    exact ⟨mgr, rfl, fun _ => rfl⟩
  · have hcreate : d.executeUpdate env createTable =
        (.ok (), (d.write { d.view with history := some d.view.rows }).called) := by
      simp only [Driver.executeUpdate, hreaches.firstCall, createTable]
      rfl
    have hview := view_write d { d.view with history := some d.view.rows }
    have hsecond : env.refusal (d.write { d.view with history := some d.view.rows }).called.calls =
        none := by
      simp only [Driver.called, calls_write]
      exact hreaches.secondCall (Bool.eq_false_iff.mpr hensured)
    have hrows : (d.write { d.view with history := some d.view.rows }).called.view.history =
        some d.view.rows := congrArg Database.history hview
    have hversions : (d.write { d.view with history := some d.view.rows }).called.view.versions =
        d.view.versions := by
      change (d.write { d.view with history := some d.view.rows }).view.versions = _
      rw [hview]
      simp [Database.versions, Database.rows]
    rw [if_neg hensured, if_neg hensured, hcreate]
    simp only [appliedVersions_of_rows hsecond hrows, hversions]
    exact ⟨{ mgr with mTableEnsured := true }, rfl, fun _ => rfl⟩

theorem reachesLoop_of_ok {mgr : MigrationManager S}
    {loop : MigrationManager S → Driver S → List QString → Result Unit × Driver S}
    (hconnected : env.isConnected d.calls = true) (hok : (withApplied env mgr d loop).1 = .ok ()) :
    ReachesLoop env mgr d := by
  unfold withApplied ensureMigrationsTable at hok
  by_cases hensured : mgr.mTableEnsured = true
  · simp only [hensured, if_true, appliedVersions, Driver.executeQuery] at hok
    cases hrefusal : env.refusal d.calls with
    | some error => simp [hrefusal] at hok
    | none =>
        cases hhistory : d.view.history with
        | none => simp [hrefusal, selectVersions, hhistory] at hok
        | some rows =>
            exact ⟨hconnected, fun _ => by rw [hhistory]; rfl, hrefusal,
              fun hnot => absurd (hensured.symm.trans hnot) (by simp)⟩
  · rw [if_neg hensured] at hok
    cases hrefusal : env.refusal d.calls with
    | some error => simp [Driver.executeUpdate, hrefusal] at hok
    | none =>
        cases hsecond : env.refusal (d.calls + 1) with
        | none => exact ⟨hconnected, fun hthere => absurd hthere hensured, hrefusal, fun _ => hsecond⟩
        | some error =>
            simp [Driver.executeUpdate, hrefusal, createTable, appliedVersions, Driver.executeQuery,
              Driver.called, calls_write, hsecond] at hok

/-- A run of `migrate` that reaches the loop is the loop. -/
theorem migrate_of_reachesLoop {mgr : MigrationManager S} (hreaches : ReachesLoop env mgr d) :
    (mgr.migrate env d).1 = (applyAll env (d.atLoop mgr) (mgr.pending d.view.versions)).1 ∧
      (mgr.migrate env d).2.1.mMigrations = mgr.mMigrations ∧
      (mgr.migrate env d).2.2 = (applyAll env (d.atLoop mgr) (mgr.pending d.view.versions)).2 := by
  obtain ⟨ensured, hmigrations, heq⟩ := withApplied_of_reachesLoop hreaches
  have hpending : ensured.pending d.view.versions = mgr.pending d.view.versions := by
    rw [pending, pending, hmigrations]
  rw [migrate_eq, if_neg (not_not.mpr hreaches.isConnected), heq, hpending]
  exact ⟨rfl, hmigrations, rfl⟩

/-- A run that does not reach the loop leaves the data as it was. -/
theorem withApplied_of_not_reachesLoop {mgr : MigrationManager S}
    (hconnected : env.isConnected d.calls = true) (hnot : ¬ ReachesLoop env mgr d) :
    ∃ error ensured after, SameData d after ∧
      ∀ loop, withApplied env mgr d loop = (.error error, ensured, after) := by
  obtain hstops | ⟨ensured, ready, -, -, -, heq⟩ := withApplied_cases env mgr d
  · exact hstops
  · have hok := congrArg Prod.fst (heq fun _ d _ => (.ok (), d))
    exact absurd (reachesLoop_of_ok hconnected hok) hnot

theorem migrate_of_not_reachesLoop {mgr : MigrationManager S} (hnot : ¬ ReachesLoop env mgr d) :
    ∃ error, (mgr.migrate env d).1 = .error error ∧ SameData d (mgr.migrate env d).2.2 := by
  rw [migrate_eq]
  by_cases hconnected : env.isConnected d.calls = true
  · obtain ⟨error, ensured, after, hsame, heq⟩ := withApplied_of_not_reachesLoop hconnected hnot
    rw [if_neg (not_not.mpr hconnected), heq]
    exact ⟨error, rfl, hsame⟩
  · rw [if_pos hconnected]
    exact ⟨_, rfl, rfl, rfl, rfl, rfl, Iff.rfl⟩

theorem sameData_atLoop (mgr : MigrationManager S) (d : Driver S) : SameData d (d.atLoop mgr) := by
  unfold Driver.atLoop
  split_ifs
  · exact sameData_called d
  · obtain ⟨hschema, hrows, hviewRows, hexecuted, htransaction⟩ :=
      @sameData_createTable S d { d.view with history := some d.view.rows } rfl
    exact ⟨hschema, hrows, hviewRows, hexecuted, htransaction⟩

/-- The table is there when the loop begins. -/
theorem view_history_atLoop {mgr : MigrationManager S} (hreaches : ReachesLoop env mgr d) :
    (d.atLoop mgr).view.history.isSome = true := by
  unfold Driver.atLoop
  split_ifs with hensured
  · exact hreaches.tableThere hensured
  · change (d.write _).view.history.isSome = true
    rw [view_write]
    rfl

theorem history_atLoop {mgr : MigrationManager S} (hreaches : ReachesLoop env mgr d)
    (hidle : (d.atLoop mgr).transaction = none) : (d.atLoop mgr).durable.history.isSome = true := by
  rw [← view_of_idle hidle]
  exact view_history_atLoop hreaches

/-- The history can take the rows of what is pending. -/
theorem takes_pending {mgr : MigrationManager S} (hreaches : ReachesLoop env mgr d) :
    Takes (d.atLoop mgr) (mgr.pending d.view.versions) := by
  have hsame := sameData_atLoop mgr d
  refine ⟨history_atLoop hreaches, nodup_pending, fun hidle m hm => ?_⟩
  have hnew := (mem_pending_iff.mp hm).2
  rwa [view_of_idle (hsame.transaction.mp hidle), Database.versions, ← hsame.rows] at hnew

/-! ### The parts of the result -/

theorem reachesLoop_of_migrate_ok {mgr : MigrationManager S} (hok : (mgr.migrate env d).1 = .ok ()) :
    ReachesLoop env mgr d := by
  by_contra hnot
  obtain ⟨error, herror, -⟩ := migrate_of_not_reachesLoop hnot
  rw [herror] at hok
  contradiction

theorem migrate_ok_iff {mgr : MigrationManager S} :
    (mgr.migrate env d).1 = .ok () ↔ ReachesLoop env mgr d ∧
      Along (Driver.migrated env) (Succeeds env) (d.atLoop mgr) (mgr.pending d.view.versions) := by
  constructor
  · intro hok
    have hreaches := reachesLoop_of_migrate_ok hok
    rw [(migrate_of_reachesLoop hreaches).1] at hok
    exact ⟨hreaches, (applyAll_ok_iff (takes_pending hreaches)).mp hok⟩
  · rintro ⟨hreaches, hall⟩
    rw [(migrate_of_reachesLoop hreaches).1]
    exact (applyAll_ok_iff (takes_pending hreaches)).mpr hall

theorem advanced_of_migrate_ok {mgr : MigrationManager S} (hok : (mgr.migrate env d).1 = .ok ()) :
    Advanced d.durable (mgr.pending d.view.versions) (mgr.migrate env d).2.2.durable ∧
      (mgr.migrate env d).2.2.executed =
        d.executed ++ (mgr.pending d.view.versions).map IMigration.version := by
  have hsame := sameData_atLoop mgr d
  obtain ⟨hresult, -, hafter⟩ := migrate_of_reachesLoop (reachesLoop_of_migrate_ok hok)
  rw [hresult] at hok
  obtain ⟨hadvanced, hexecuted, -⟩ := applyAll_ok hok
  rw [← hafter] at hadvanced hexecuted
  rw [hsame.executed] at hexecuted
  exact ⟨hadvanced.congr hsame.rows.symm hsame.schema.symm, hexecuted⟩

theorem migrate_stops {mgr : MigrationManager S} {prior later : List (IMigration S)}
    (hsplit : mgr.pending d.view.versions = prior ++ m :: later) (hreaches : ReachesLoop env mgr d)
    (hprior : Along (Driver.migrated env) (Succeeds env) (d.atLoop mgr) prior)
    (hfails : ¬ Succeeds env (run (Driver.migrated env) (d.atLoop mgr) prior) m) :
    Advanced d.durable prior (mgr.migrate env d).2.2.durable ∧
      ∃ tried, (tried = [] ∨ tried = [m.version]) ∧
        (mgr.migrate env d).2.2.executed = d.executed ++ prior.map IMigration.version ++ tried := by
  have hsame := sameData_atLoop mgr d
  have hafter := (migrate_of_reachesLoop hreaches).2.2
  have htakes := takes_pending hreaches
  rw [hsplit] at htakes hafter
  obtain ⟨hadvanced, hexecuted⟩ := applyAll_stops htakes hprior hfails
  rw [← hafter] at hadvanced hexecuted
  rw [hsame.executed] at hexecuted
  exact ⟨hadvanced.congr hsame.rows.symm hsame.schema.symm, hexecuted⟩

/-- The pending migrations are the registered ones that the history lacks, in ascending order. A run
ends well exactly when nothing fails, before the first of them or in one of them, and has then applied
all of them. A run in which one of them fails leaves the durable database with those before it only,
having run no script but theirs and perhaps its own; a run that fails before the first leaves
everything as it was. After a run that ended well another one runs no script. -/
theorem migrate_applies_prefix (env : Environment) (mgr : MigrationManager S) (d : Driver S) :
    let todo := mgr.pending d.view.versions
    let after := (mgr.migrate env d).2.2
    ((todo.map IMigration.version).Pairwise fun a b => versionLess a b = true) ∧
    (∀ m, m ∈ todo ↔ m ∈ mgr.mMigrations ∧ m.version ∉ d.view.versions) ∧
    ((mgr.migrate env d).1 = .ok () ↔
      ReachesLoop env mgr d ∧ Along (Driver.migrated env) (Succeeds env) (d.atLoop mgr) todo) ∧
    ((mgr.migrate env d).1 = .ok () →
      Advanced d.durable todo after.durable ∧
      after.executed = d.executed ++ todo.map IMigration.version) ∧
    (∀ prior m later, todo = prior ++ m :: later → ReachesLoop env mgr d →
      Along (Driver.migrated env) (Succeeds env) (d.atLoop mgr) prior →
      ¬ Succeeds env (run (Driver.migrated env) (d.atLoop mgr) prior) m →
      Advanced d.durable prior after.durable ∧
      ∃ tried, (tried = [] ∨ tried = [m.version]) ∧
        after.executed = d.executed ++ prior.map IMigration.version ++ tried) ∧
    (¬ ReachesLoop env mgr d →
      Advanced d.durable [] after.durable ∧ after.executed = d.executed) ∧
    ((mgr.migrate env d).1 = .ok () →
      ∀ env', ((mgr.migrate env d).2.1.migrate env' after).2.2.executed = after.executed) := by
  intro todo after
  refine ⟨sorted_pending, fun m => mem_pending_iff, migrate_ok_iff, advanced_of_migrate_ok, ?_, ?_, ?_⟩
  · intro prior m later hsplit hreaches hprior hfails
    exact migrate_stops hsplit hreaches hprior hfails
  · intro hnot
    obtain ⟨error, -, hunchanged⟩ := migrate_of_not_reachesLoop hnot
    exact ⟨(advanced_refl _).congr hunchanged.rows.symm hunchanged.schema.symm, hunchanged.executed⟩
  · intro hok env'
    exact executed_of_nothing_pending (nothing_pending_after_ok hok) env'

/-- A server that refuses nothing. -/
def calm : Environment where
  isConnected _ := true
  refusal _ := none
  lastError _ := ""
  currentDateTimeUtc _ := ""

def addOne : IMigration Nat where
  version := [49]
  description := "add one"
  up _ schema := (.ok (), schema + 1)
  down _ schema := (.ok (), schema - 1)

/-- The script changes the schema and fails, up to the tenth call of the driver. -/
def addTwo : IMigration Nat where
  version := [50]
  description := "add two"
  up calls schema := if calls < 10 then (.error ⟨.queryFailed, ""⟩, schema + 100) else (.ok (), schema + 2)
  down _ schema := (.ok (), schema - 2)

def twoMigrations : MigrationManager Nat where
  mMigrations := [addTwo, addOne]
  distinct := by decide

/-- Early on the second migration fails and leaves the first; later the same run ends well. -/
theorem migrate_applies_prefix_twoMigrations :
    let early := twoMigrations.migrate calm { durable := ⟨0, none⟩ }
    let late := twoMigrations.migrate calm { durable := ⟨0, none⟩, calls := 10 }
    (early.2.2.durable.schema = 1 ∧ early.2.2.durable.versions = [[49]]) ∧
      late.1 = .ok () ∧ late.2.2.durable.versions = [[49], [50]] := by
  intro early late
  have hpending : twoMigrations.pending [] = [addOne] ++ addTwo :: [] := by
    simp [pending, twoMigrations, List.mergeSort, List.MergeSort.Internal.splitInTwo, addOne, addTwo,
      versionLess]
  constructor
  · obtain ⟨-, -, -, -, hstops, -⟩ := migrate_applies_prefix calm twoMigrations { durable := ⟨0, none⟩ }
    have hreaches : ReachesLoop calm twoMigrations { durable := ⟨0, none⟩ } :=
      ⟨rfl, fun hthere => absurd hthere (by decide), rfl, fun _ => rfl⟩
    have hfails : ¬ Succeeds calm
        (run (Driver.migrated calm) (Driver.atLoop twoMigrations { durable := ⟨0, none⟩ }) [addOne])
        addTwo := by
      intro hsucceeds
      have herror : (.error ⟨.queryFailed, ""⟩ : Result Unit) = .ok () := hsucceeds.scripted
      contradiction
    obtain ⟨hadvanced, -⟩ := hstops [addOne] addTwo [] hpending hreaches
      ⟨⟨rfl, rfl, rfl, rfl, rfl⟩, trivial⟩ hfails
    refine ⟨?_, hadvanced.versions⟩
    obtain ⟨moments, hlength, hlead⟩ := hadvanced.schema
    obtain ⟨moment, rfl⟩ := List.length_eq_one_iff.mp hlength
    exact hlead.2.symm
  · obtain ⟨-, -, hiff, hok, -⟩ :=
      migrate_applies_prefix calm twoMigrations { durable := ⟨0, none⟩, calls := 10 }
    have hreaches : ReachesLoop calm twoMigrations { durable := ⟨0, none⟩, calls := 10 } :=
      ⟨rfl, fun hthere => absurd hthere (by decide), rfl, fun _ => rfl⟩
    have hlate : late.1 = .ok () := by
      refine hiff.mpr ⟨hreaches, ?_⟩
      change Along _ _ _ (twoMigrations.pending [])
      rw [hpending]
      exact ⟨⟨rfl, rfl, rfl, rfl, rfl⟩, ⟨rfl, rfl, rfl, rfl, rfl⟩, trivial⟩
    refine ⟨hlate, (hok hlate).1.versions.trans ?_⟩
    change _ ++ (twoMigrations.pending []).map IMigration.version = _
    rw [hpending]
    rfl

end MigrationManager

end SoulCoreKit.Orm
