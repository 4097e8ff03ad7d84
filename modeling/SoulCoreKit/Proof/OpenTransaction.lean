import SoulCoreKit.Lib.Run
import SoulCoreKit.Orm.Migration

/-!
# Transactions that are left open

After an error the transaction that `applyMigration` or `withTransaction` began should not be open any
more, and after a success it should have been committed once. All exits see to it but two: neither
function rolls back when the commit returns an error, and `applyMigration` lets the exception of a script
pass. A `TransactionScope` rolls back in both cases.
-/

namespace SoulCoreKit.Data

/-- What is known of a transaction in a state: whether it is open, and how often it was committed. -/
structure Tracking (D : Type) where
  inside : D → Prop
  commits : D → Nat

namespace Tracking

variable {D : Type} (t : Tracking D)

/-- A success is a transaction committed once, and after a failure it is not open. -/
def Settled (succeeded : Prop) (d : D) : Prop :=
  (succeeded → t.commits d = 1) ∧ (¬ succeeded → ¬ t.inside d)

/-- A commit ends the transaction if it is the one that is open, and leaves it open if it fails. A rollback
succeeds. -/
structure Lawful (commit : D → Exit Unit × D) (rollback : D → Result Unit × D) : Prop where
  uncommitted : ∀ d, t.inside d → t.commits d = 0
  committed : ∀ d, t.inside d → (commit d).1 = .returns (.ok ()) →
    ¬ t.inside (commit d).2 ∧ t.commits (commit d).2 = t.commits d + 1
  failed : ∀ d, t.inside d → (commit d).1 ≠ .returns (.ok ()) → t.inside (commit d).2
  unrelated : ∀ d, ¬ t.inside d → ¬ t.inside (commit d).2 ∧ t.commits (commit d).2 = t.commits d
  rolledBack : ∀ d, ¬ t.inside (rollback d).2

/-- The commit does not return an error if the transaction is open. If the work has ended the transaction,
and the commit ends another one, then the work has committed it. -/
def CommitsAt (commit : D → Exit Unit × D) (d : D) : Prop :=
  (t.inside d → ∀ error, (commit d).1 ≠ .returns (.error error)) ∧
    (¬ t.inside d → (commit d).1 = .returns (.ok ()) → t.commits d = 1)

variable {t} {commit : D → Exit Unit × D} {rollback : D → Result Unit × D}

theorem settled_of_outside {succeeded : Prop} {d : D} (hfailed : ¬ succeeded) (houtside : ¬ t.inside d) :
    t.Settled succeeded d :=
  ⟨fun hsucceeded => absurd hsucceeded hfailed, fun _ => houtside⟩

theorem settled_failed_iff {succeeded : Prop} {d : D} (hfailed : ¬ succeeded) :
    t.Settled succeeded d ↔ ¬ t.inside d :=
  ⟨fun hsettled => hsettled.2 hfailed, settled_of_outside hfailed⟩

theorem settled_succeeded_iff {succeeded : Prop} {d : D} (hsucceeded : succeeded) :
    t.Settled succeeded d ↔ t.commits d = 1 :=
  ⟨fun hsettled => hsettled.1 hsucceeded,
    fun hcommits => ⟨fun _ => hcommits, fun hfailed => absurd hsucceeded hfailed⟩⟩

theorem Lawful.not_inside_of_committed (hlawful : t.Lawful commit rollback) {d : D}
    (hok : (commit d).1 = .returns (.ok ())) : ¬ t.inside (commit d).2 := by
  by_cases hinside : t.inside d
  · exact (hlawful.committed d hinside hok).1
  · exact (hlawful.unrelated d hinside).1

/-- After a commit that succeeded. -/
theorem commits_commit_iff (hlawful : t.Lawful commit rollback) {d : D}
    (hok : (commit d).1 = .returns (.ok ())) :
    t.commits (commit d).2 = 1 ↔ t.CommitsAt commit d := by
  unfold CommitsAt
  by_cases hinside : t.inside d
  · rw [(hlawful.committed d hinside hok).2, hlawful.uncommitted d hinside]
    simp [hinside, hok]
  · rw [(hlawful.unrelated d hinside).2]
    simp [hinside, hok]

/-- After a commit that returned an error. -/
theorem not_inside_commit_iff (hlawful : t.Lawful commit rollback) {d : D} {error : Error}
    (herror : (commit d).1 = .returns (.error error)) :
    ¬ t.inside (commit d).2 ↔ t.CommitsAt commit d := by
  unfold CommitsAt
  by_cases hinside : t.inside d
  · have hfailed := hlawful.failed d hinside (by simp [herror])
    simp [hinside, hfailed, herror]
  · have houtside := (hlawful.unrelated d hinside).1
    simp [hinside, houtside, herror]

theorem commitsAt_of_throws {d : D} {what : Option String} (hthrows : (commit d).1 = .throws what) :
    t.CommitsAt commit d := by
  unfold CommitsAt
  simp [hthrows]

end Tracking

/-! ### `withTransaction` -/

namespace ITransactionManager

variable {D Tx T : Type} (manager : ITransactionManager D Tx) (track : Tx → Tracking D)
  (operation : D → Exit T × D) (d : D)

/-- The transactions of the manager behave. -/
def Lawful : Prop := ∀ tx, (track tx).Lawful (manager.commit tx) (manager.rollback tx)

/-- The operation after the transaction was begun. -/
def operated : Exit T × D := operation (manager.beginTransaction d).2

/-- Nothing succeeds without a transaction, and the transaction is settled. -/
def Settles : Prop :=
  ((manager.withTransaction operation d).1.isOk = true → (manager.beginTransaction d).1 ≠ none) ∧
    ∀ tx, (manager.beginTransaction d).1 = some tx →
      (track tx).Settled ((manager.withTransaction operation d).1.isOk = true)
        (manager.withTransaction operation d).2

/-- The commit after an operation that succeeded does its work. -/
def CommitsOperation : Prop :=
  ∀ tx, (manager.beginTransaction d).1 = some tx →
    ∀ value, (manager.operated operation d).1 = .returns (.ok value) →
      (track tx).CommitsAt (manager.commit tx) (manager.operated operation d).2

variable {manager track operation d}

theorem settled_withTransaction_iff (hlawful : manager.Lawful track) {tx : Tx}
    (hbegun : (manager.beginTransaction d).1 = some tx) :
    (track tx).Settled ((manager.withTransaction operation d).1.isOk = true)
        (manager.withTransaction operation d).2 ↔
      ∀ value, (manager.operated operation d).1 = .returns (.ok value) →
        (track tx).CommitsAt (manager.commit tx) (manager.operated operation d).2 := by
  unfold withTransaction operated
  rcases hbegin : manager.beginTransaction d with ⟨_, begun⟩
  rw [hbegin] at hbegun
  obtain rfl : _ = some tx := hbegun
  dsimp only
  rcases hoperation : operation begun with ⟨(error | value) | what, operated⟩
  · -- the operation failed
    simp only [Exit.returns.injEq, reduceCtorEq, false_imp_iff, implies_true, iff_true]
    exact Tracking.settled_of_outside Bool.false_ne_true ((hlawful tx).rolledBack operated)
  · rcases hcommit : manager.commit tx operated with ⟨(error | _) | what, committed⟩
    · have hiff := Tracking.not_inside_commit_iff (hlawful tx) (congrArg Prod.fst hcommit)
      rw [hcommit] at hiff
      simp only [Exit.returns.injEq, Except.ok.injEq, forall_eq', hcommit]
      exact (Tracking.settled_failed_iff Bool.false_ne_true).trans hiff
    · have hiff := Tracking.commits_commit_iff (hlawful tx) (congrArg Prod.fst hcommit)
      rw [hcommit] at hiff
      simp only [Exit.returns.injEq, Except.ok.injEq, forall_eq', hcommit]
      exact (Tracking.settled_succeeded_iff rfl).trans hiff
    · -- the exception of the commit is caught
      have hcommits := @Tracking.commitsAt_of_throws D (track tx) (manager.commit tx) operated what
        (congrArg Prod.fst hcommit)
      simp only [Exit.returns.injEq, Except.ok.injEq, forall_eq', hcommit, hcommits, iff_true]
      exact Tracking.settled_of_outside Bool.false_ne_true ((hlawful tx).rolledBack committed)
  · simp only [reduceCtorEq, false_imp_iff, implies_true, iff_true]
    exact Tracking.settled_of_outside Bool.false_ne_true ((hlawful tx).rolledBack operated)

theorem settles_iff (hlawful : manager.Lawful track) :
    manager.Settles track operation d ↔ manager.CommitsOperation track operation d := by
  have hbegins : (manager.withTransaction operation d).1.isOk = true →
      (manager.beginTransaction d).1 ≠ none := by
    unfold withTransaction
    intro hok hnone
    rcases hbegin : manager.beginTransaction d with ⟨_, begun⟩
    rw [hbegin] at hok hnone
    obtain rfl : _ = none := hnone
    exact Bool.false_ne_true hok
  constructor
  · intro hsettles tx hbegun
    exact (settled_withTransaction_iff hlawful hbegun).mp (hsettles.2 tx hbegun)
  · intro hcommits
    refine ⟨hbegins, ?_⟩
    intro tx hbegun
    exact (settled_withTransaction_iff hlawful hbegun).mpr (hcommits tx hbegun)

end ITransactionManager

/-! ### `TransactionScope` -/

/-- What a block with a scope does. -/
inductive ScopeCall (D : Type) where
  | work (f : D → D)
  | commit
  | rollback

namespace TransactionScope

variable {D Tx : Type} {manager : ITransactionManager D Tx} {t : Tracking D} {tx : Tx}

def step (manager : ITransactionManager D Tx) (s : TransactionScope Tx × D) :
    ScopeCall D → TransactionScope Tx × D
  | .work f => (s.1, f s.2)
  | .commit => (s.1.commit manager s.2).2
  | .rollback => (s.1.rollback manager s.2).2

/-- The work does not bring back a transaction that has ended. -/
def KeepsEnded (t : Tracking D) : ScopeCall D → Prop
  | .work f => ∀ d, ¬ t.inside d → ¬ t.inside (f d)
  | _ => True

/-- A scope that is not active any more has ended its transaction. -/
def Guards (t : Tracking D) (tx : Tx) (s : TransactionScope Tx × D) : Prop :=
  s.1.mTx = some tx ∧ (s.1.mCommitted = true ∨ s.1.mRolledBack = true → ¬ t.inside s.2)

theorem active_eq_ok {scope : TransactionScope Tx} {other : Tx} (hactive : scope.active = .ok other) :
    scope.mTx = some other ∧ scope.mCommitted = false ∧ scope.mRolledBack = false := by
  unfold active at hactive
  split at hactive
  · contradiction
  · rename_i hother
    split at hactive
    · contradiction
    · rename_i hcommitted
      split at hactive
      · contradiction
      · rename_i hrolledBack
        rw [hother, Except.ok.inj hactive]
        exact ⟨rfl, Bool.eq_false_of_not_eq_true hcommitted, Bool.eq_false_of_not_eq_true hrolledBack⟩

theorem Guards.of_active {s : TransactionScope Tx × D} (hguards : Guards t tx s) {other : Tx}
    (hactive : s.1.active = .ok other) (d : D) :
    other = tx ∧ Guards t tx (s.1, d) := by
  obtain ⟨hother, hcommitted, hrolledBack⟩ := active_eq_ok hactive
  refine ⟨Option.some.inj (hother.symm.trans hguards.1), hguards.1, ?_⟩
  rw [hcommitted, hrolledBack]
  rintro (hended | hended) <;> contradiction

theorem guards_step (hlawful : t.Lawful (manager.commit tx) (manager.rollback tx))
    {s : TransactionScope Tx × D} {call : ScopeCall D} (hguards : Guards t tx s)
    (hkeeps : KeepsEnded t call) : Guards t tx (step manager s call) := by
  obtain ⟨scope, d⟩ := s
  cases call with
  | work f => exact ⟨hguards.1, fun hended => hkeeps d (hguards.2 hended)⟩
  | commit =>
      change Guards t tx (scope.commit manager d).2
      unfold commit
      split
      · exact hguards
      · rename_i other hactive
        obtain ⟨rfl, hactiveGuards⟩ := hguards.of_active hactive (manager.commit other d).2
        split
        · rename_i committed hcommit
          have hended := hlawful.not_inside_of_committed (congrArg Prod.fst hcommit)
          rw [hcommit] at hended
          exact ⟨hguards.1, fun _ => hended⟩
        · rename_i exit committed _ hcommit
          rwa [hcommit] at hactiveGuards
  | rollback =>
      change Guards t tx (scope.rollback manager d).2
      unfold rollback
      split
      · exact hguards
      · rename_i other hactive
        obtain ⟨rfl, hactiveGuards⟩ := hguards.of_active hactive (manager.rollback other d).2
        have hended := hlawful.rolledBack d
        split
        · rename_i rolledBack hrollback
          rw [hrollback] at hended
          exact ⟨hguards.1, fun _ => hended⟩
        · rename_i error rolledBack hrollback
          rwa [hrollback] at hactiveGuards

theorem not_inside_destroy (hlawful : t.Lawful (manager.commit tx) (manager.rollback tx))
    {s : TransactionScope Tx × D} (hguards : Guards t tx s) : ¬ t.inside (s.1.destroy manager s.2) := by
  unfold destroy
  rw [hguards.1]
  dsimp only
  split
  · exact hlawful.rolledBack s.2
  · rename_i hended
    apply hguards.2
    by_contra hactive
    exact hended (not_or.mp hactive)

/-- Whatever a block does with a scope, its transaction is not open when the scope is gone. -/
theorem not_inside_run (hlawful : t.Lawful (manager.commit tx) (manager.rollback tx)) (d : D)
    {calls : List (ScopeCall D)}
    (hkeeps : Along (step manager) (fun _ => KeepsEnded t) ({ mTx := some tx }, d) calls) :
    ¬ t.inside ((run (step manager) ({ mTx := some tx }, d) calls).1.destroy manager
      (run (step manager) ({ mTx := some tx }, d) calls).2) := by
  have hguards : Guards t tx (run (step manager) ({ mTx := some tx }, d) calls) :=
    hkeeps.induction ⟨rfl, by simp⟩ fun s call hguards hcall => guards_step hlawful hguards hcall
  exact not_inside_destroy hlawful hguards

end TransactionScope

/-! ### The driver -/

/-- A method that does not throw. -/
def returning {D T : Type} (method : D → Result T × D) (d : D) : Exit T × D :=
  (.returns (method d).1, (method d).2)

namespace Connection

theorem current_commitCurrent (c : Connection) : c.commitCurrent.current = none := by
  unfold commitCurrent
  split
  · assumption
  · rfl

theorem committed_commitCurrent {c : Connection} {tx : Nat} (hcurrent : c.current = some tx) :
    c.commitCurrent.committed = tx :: c.committed := by
  unfold commitCurrent
  split
  · rename_i hnone
    rw [hcurrent] at hnone
    contradiction
  · rename_i other hother
    rw [hcurrent] at hother
    rw [Option.some.inj hother]

theorem isOpen_of_current {c : Connection} {tx : Nat} (hcurrent : c.current = some tx) :
    c.isOpen = true := by
  by_contra hclosed
  have hnone := c.closed (Bool.eq_false_of_not_eq_true hclosed)
  rw [hcurrent] at hnone
  contradiction

end Connection

namespace BaseSqlDriver

variable {server : Server} {d : BaseSqlDriver} {tx : Nat}

/-- The transaction with this number. -/
def tracking (tx : Nat) : Tracking BaseSqlDriver where
  inside d := d.mDb.current = some tx
  commits d := d.mDb.committed.count tx

/-- A commit changes nothing, or ends the transaction that is open. -/
theorem commit_cases (server : Server) (d : BaseSqlDriver) :
    ((d.commit server).1 ≠ .ok () ∧ (d.commit server).2.mDb = d.mDb) ∨
      ∃ tx, d.mDb.current = some tx ∧ (d.commit server).1 = .ok () ∧
        (d.commit server).2.mDb = d.mDb.commitCurrent := by
  unfold commit
  split
  · exact Or.inl ⟨nofun, rfl⟩
  · split
    · exact Or.inl ⟨nofun, rfl⟩
    · rename_i hanswer
      obtain ⟨tx, hcurrent⟩ := Option.isSome_iff_exists.mp (not_not.mp hanswer).2
      exact Or.inr ⟨tx, hcurrent, rfl, rfl⟩

theorem current_rollback (hrollback : ∀ n, server.rollback n = true) :
    (d.rollback server).2.mDb.current = none := by
  unfold rollback
  split
  · rename_i hclosed
    exact d.mDb.closed (Bool.eq_false_of_not_eq_true hclosed)
  · split
    · rename_i hrefused
      rw [not_and] at hrefused
      exact Option.not_isSome_iff_eq_none.mp (hrefused (hrollback d.calls))
    · rfl

theorem lawful_tracking (hrollback : ∀ n, server.rollback n = true) (tx : Nat) :
    (tracking tx).Lawful (returning (commit server)) (rollback server) := by
  constructor
  · intro d hinside
    exact List.count_eq_zero.mpr (d.mDb.uncommitted tx hinside).2
  · intro d hinside hok
    obtain ⟨hfailed, _⟩ | ⟨other, _, _, hdb⟩ := commit_cases server d
    · exact absurd (Exit.returns.inj hok) hfailed
    · change ¬ (d.commit server).2.mDb.current = some tx ∧
        (d.commit server).2.mDb.committed.count tx = d.mDb.committed.count tx + 1
      rw [hdb, Connection.current_commitCurrent, Connection.committed_commitCurrent hinside,
        List.count_cons_self]
      exact ⟨nofun, rfl⟩
  · intro d hinside hfailed
    obtain ⟨_, hdb⟩ | ⟨_, _, hok, _⟩ := commit_cases server d
    · exact (congrArg Connection.current hdb).trans hinside
    · exact absurd (congrArg Exit.returns hok) hfailed
  · intro d houtside
    change ¬ (d.commit server).2.mDb.current = some tx ∧
      (d.commit server).2.mDb.committed.count tx = d.mDb.committed.count tx
    obtain ⟨_, hdb⟩ | ⟨other, hcurrent, _, hdb⟩ := commit_cases server d
    · rw [hdb]
      exact ⟨houtside, rfl⟩
    · have hne : other ≠ tx := by
        rintro rfl
        exact houtside hcurrent
      rw [hdb, Connection.current_commitCurrent, Connection.committed_commitCurrent hcurrent,
        List.count_cons_of_ne hne]
      exact ⟨nofun, rfl⟩
  · intro d hinside
    have hnone := @current_rollback server d hrollback
    rw [hinside] at hnone
    contradiction

/-- The manager whose transactions are those of a driver. -/
def manager (server : Server) : ITransactionManager BaseSqlDriver Nat where
  beginTransaction d :=
    ((d.beginTransaction server).1.toOption.map fun _ => d.mDb.begun, (d.beginTransaction server).2)
  commit _ := returning (commit server)
  rollback _ := rollback server

/-- A transaction that is refused changes nothing. -/
theorem mDb_beginTransaction_of_refused (hrefused : (d.beginTransaction server).1 ≠ .ok ()) :
    (d.beginTransaction server).2.mDb = d.mDb := by
  unfold beginTransaction at hrefused ⊢
  split
  · rfl
  · split
    · rfl
    · simp_all

end BaseSqlDriver

end SoulCoreKit.Data

namespace SoulCoreKit.Orm

open Data

/-! ### `applyMigration` -/

section ApplyScript

variable {D : Type} {t : Tracking D} {driver : IDatabaseDriver D} {exec : D → Exit Unit × D}
  {record : D → Result Unit × D} {d : D}

/-- The commit after a script that succeeded and was recorded does its work, and a script does not throw
out of the transaction. -/
def CommitsScript (t : Tracking D) (driver : IDatabaseDriver D) (exec : D → Exit Unit × D)
    (record : D → Result Unit × D) (d : D) : Prop :=
  (driver.beginTransaction d).1 = .ok () →
    (∀ what, (exec (driver.beginTransaction d).2).1 = .throws what →
      ¬ t.inside (exec (driver.beginTransaction d).2).2) ∧
    ((exec (driver.beginTransaction d).2).1 = .returns (.ok ()) →
      (record (exec (driver.beginTransaction d).2).2).1 = .ok () →
        t.CommitsAt (returning driver.commit) (record (exec (driver.beginTransaction d).2).2).2)

theorem settled_applyScript_iff (hlawful : t.Lawful (returning driver.commit) driver.rollback)
    (hrefused : (driver.beginTransaction d).1 ≠ .ok () → ¬ t.inside (driver.beginTransaction d).2) :
    t.Settled ((applyScript driver exec record d).1 = .returns (.ok ()))
        (applyScript driver exec record d).2 ↔ CommitsScript t driver exec record d := by
  unfold applyScript CommitsScript
  rcases hbegin : driver.beginTransaction d with ⟨error | _, begun⟩
  · rw [hbegin] at hrefused
    simp only [reduceCtorEq, false_imp_iff, iff_true]
    exact Tracking.settled_of_outside (by simp) (hrefused (by simp))
  dsimp only
  rcases exec begun with ⟨(error | _) | what, scripted⟩
  · simp only [Exit.returns.injEq, reduceCtorEq, false_imp_iff, implies_true, and_self, iff_true]
    exact Tracking.settled_of_outside (by simp) (hlawful.rolledBack scripted)
  · dsimp only
    rcases record scripted with ⟨error | _, recorded⟩
    · simp only [reduceCtorEq, false_imp_iff, implies_true, and_self, iff_true]
      exact Tracking.settled_of_outside (by simp) (hlawful.rolledBack recorded)
    · simp only [reduceCtorEq, false_imp_iff, implies_true, true_and, forall_const]
      rcases hcommit : driver.commit recorded with ⟨error | _, committed⟩
      · have hiff := @Tracking.not_inside_commit_iff D t _ _ hlawful recorded error
          (by simp [returning, hcommit])
        simp only [returning, hcommit] at hiff ⊢
        exact (Tracking.settled_failed_iff (by simp)).trans hiff
      · have hiff := @Tracking.commits_commit_iff D t _ _ hlawful recorded (by simp [returning, hcommit])
        simp only [returning, hcommit] at hiff ⊢
        exact (Tracking.settled_succeeded_iff trivial).trans hiff
  · -- the exception passes
    simp only [Exit.throws.injEq, forall_eq', reduceCtorEq, false_imp_iff, and_true, forall_const]
    exact Tracking.settled_failed_iff (by simp)

end ApplyScript

namespace Sql

variable (server : Server) (m : IMigration) (isUp : Bool) (d : BaseSqlDriver)

/-- The transaction that the migration begins is settled. It gets the next number. -/
def Settles : Prop :=
  (BaseSqlDriver.tracking d.mDb.begun).Settled
    ((applyMigration server m isUp d).1 = .returns (.ok ())) (applyMigration server m isUp d).2

def Commits : Prop :=
  CommitsScript (BaseSqlDriver.tracking d.mDb.begun) (BaseSqlDriver.driver server) (exec m isUp)
    (record server m isUp) d

variable {server m isUp d}

theorem settles_iff (hrollback : ∀ n, server.rollback n = true) :
    Settles server m isUp d ↔ Commits server m isUp d := by
  apply settled_applyScript_iff (BaseSqlDriver.lawful_tracking hrollback d.mDb.begun)
  intro hrefused hinside
  -- the next number is not in use yet
  have hcurrent : d.mDb.current = some d.mDb.begun :=
    (congrArg Connection.current (BaseSqlDriver.mDb_beginTransaction_of_refused hrefused)).symm.trans
      hinside
  exact Nat.lt_irrefl _ (d.mDb.uncommitted _ hcurrent).1

/-- A transaction left open refuses the next migration, and stays open. -/
theorem refused_of_inside {tx : Nat} (hinside : d.mDb.current = some tx) :
    (∃ error, (applyMigration server m isUp d).1 = .returns (.error error)) ∧
      (applyMigration server m isUp d).2.mDb = d.mDb := by
  have hbegin : d.beginTransaction server =
      (.error ⟨.databaseError, "Failed to begin transaction"⟩, d.called) := by
    unfold BaseSqlDriver.beginTransaction BaseSqlDriver.isConnected
    rw [if_neg (not_not.mpr (Connection.isOpen_of_current hinside)), if_pos]
    rintro ⟨_, hnone⟩
    rw [hinside] at hnone
    contradiction
  have happly : applyMigration server m isUp d =
      (.returns (.error ⟨.databaseError, "Failed to begin transaction"⟩), d.called) := by
    unfold applyMigration applyScript BaseSqlDriver.driver
    dsimp only
    rw [hbegin]
  rw [happly]
  exact ⟨⟨_, rfl⟩, rfl⟩

end Sql

/-- No transaction is left open after an error, and success is a transaction committed once: for a
migration exactly if its script does not throw out of the transaction, and for a migration and an operation
exactly if the commit at the end of their work does not fail. -/
theorem nothingLeftOpen_iff {D Tx T : Type} {server : Server} (hrollback : ∀ n, server.rollback n = true)
    (m : Sql.IMigration) (isUp : Bool) (d : BaseSqlDriver) {manager : ITransactionManager D Tx}
    {track : Tx → Tracking D} (hlawful : manager.Lawful track) (operation : D → Exit T × D) (s : D) :
    (Sql.Settles server m isUp d ↔ Sql.Commits server m isUp d) ∧
      (manager.Settles track operation s ↔ manager.CommitsOperation track operation s) :=
  ⟨Sql.settles_iff hrollback, ITransactionManager.settles_iff hlawful⟩

def createUsers (server : Server) : BaseSqlDriver → Exit Unit × BaseSqlDriver :=
  returning fun d => Sql.withoutRows server d ⟨"CREATE TABLE users (id TEXT PRIMARY KEY, name TEXT)", []⟩

def dropUsers (server : Server) : BaseSqlDriver → Exit Unit × BaseSqlDriver :=
  returning fun d => Sql.withoutRows server d ⟨"DROP TABLE users", []⟩

def createUsersTable (server : Server) : Sql.IMigration :=
  ⟨"001", "Create users table", createUsers server, dropUsers server⟩

open BaseSqlDriver in
theorem settles_createUsers :
    Sql.Settles {} (createUsersTable {}) true opened ∧
      (manager {}).Settles tracking (createUsers {}) opened := by
  obtain ⟨hmigration, hoperation⟩ := @nothingLeftOpen_iff BaseSqlDriver Nat Unit {} (fun _ => rfl)
    (createUsersTable {}) true opened (manager {}) tracking (lawful_tracking fun _ => rfl)
    (createUsers {}) opened
  refine ⟨hmigration.mpr ?_, hoperation.mpr ?_⟩
  · intro _
    refine ⟨?_, fun _ _ => ⟨?_, ?_⟩⟩
    · intro what hthrows
      cases hthrows
    · intro _ error herror
      cases herror
    · intro houtside
      exact absurd rfl houtside
  · intro tx hbegun value _
    cases hbegun
    constructor
    · intro _ error herror
      cases herror
    · intro houtside
      exact absurd rfl houtside

open BaseSqlDriver in
/-- The commit fails, or the script throws, and the first transaction of the driver is still open. -/
theorem left_open :
    ¬ Sql.Settles { commit := fun _ => false } (createUsersTable {}) true opened ∧
      ¬ (manager { commit := fun _ => false }).Settles tracking (createUsers {}) opened ∧
      ¬ Sql.Settles {} ⟨"001", "Create users table", fun d => (.throws none, d), dropUsers {}⟩ true
        opened := by
  refine ⟨?_, ?_, ?_⟩
  · intro hsettles
    exact hsettles.2 (by decide) rfl
  · intro hsettles
    exact (hsettles.2 0 rfl).2 (by decide) rfl
  · intro hsettles
    exact hsettles.2 (by decide) rfl

end SoulCoreKit.Orm
