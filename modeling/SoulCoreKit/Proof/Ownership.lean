import Mathlib.Data.Multiset.OrderedMonoid
import Mathlib.Tactic.Abel
import SoulCoreKit.Di.Container

/-!
# Who deletes the objects of the container

Every object the container ever kept is held in one place, or was passed to a deleter, or was left
behind by a scope: as multisets, kept = held + deleted + leaked, in every state and whatever is called.
Nothing is held after `clear`, so the objects are all deleted exactly once if nothing was left behind,
and only then.
-/

namespace SoulCoreKit.Di

variable {Ty : Type} [DecidableEq Ty]

/-- A registration that can produce is owned, and an object in it belongs to the caller or will be
deleted with it. -/
structure RegistrationInfo.Sane (info : RegistrationInfo Ty) : Prop where
  owned : info.hasCreator = true → info.owned = true
  singleton : ∀ object, info.singletonInstance = some object →
    object ∈ info.ownedSingleton ∨ ∃ instance_, object = .given instance_

namespace Container

open UnorderedMap

variable {c : Container Ty} {type : Ty} {name : String} {object : Object Ty}
  {info : RegistrationInfo Ty}

def scopeObjects (scope : UnorderedMap Ty (Object Ty)) : Multiset (Object Ty) :=
  total (fun _ object => {object}) scope

/-- The objects the container holds and owns. -/
def held (c : Container Ty) : Multiset (Object Ty) :=
  total (fun _ info => info.ownedSingleton) c.registrations +
    total (fun _ info => info.ownedSingleton) c.namedRegistrations +
    total (fun _ scope => scopeObjects scope) c.scopes

/-- Some later resolution can return the object. -/
def Caches (c : Container Ty) (object : Object Ty) : Prop :=
  (∃ type info, c.registrations.lookup type = some info ∧ info.singletonInstance = some object) ∨
    (∃ key info, c.namedRegistrations.lookup key = some info ∧ info.singletonInstance = some object) ∨
    ∃ id scope type, c.scopes.lookup id = some scope ∧ scope.lookup type = some object

structure Conserved (c : Container Ty) : Prop where
  kept_eq : c.kept = c.held + c.deleted + c.leaked
  kept_nodup : c.kept.Nodup
  kept_created : ∀ object ∈ c.kept, ∃ serial producer,
    object = .created serial producer ∧ serial < c.nextObject
  unnamed_sane : ∀ type info, c.registrations.lookup type = some info → info.Sane
  named_sane : ∀ key info, c.namedRegistrations.lookup key = some info → info.Sane
  scopes_lt : ∀ id ∈ c.scopes, id < c.nextScopeId
  current_lt : c.currentScopeId < c.nextScopeId

theorem conserved_start : ({} : Container Ty).Conserved where
  kept_eq := rfl
  kept_nodup := Multiset.nodup_zero
  kept_created := fun _ hobject => absurd hobject (Multiset.notMem_zero _)
  unnamed_sane := fun _ _ hlookup => absurd hlookup (by simp)
  named_sane := fun _ _ hlookup => absurd hlookup (by simp)
  scopes_lt := fun _ hid => absurd hid Finmap.notMem_empty
  current_lt := Nat.zero_lt_one

/-! ### Writing registrations -/

omit [DecidableEq Ty] in
theorem ownedSingleton_of_none (hnone : info.singletonInstance = none) : info.ownedSingleton = 0 := by
  unfold RegistrationInfo.ownedSingleton
  rw [hnone]

omit [DecidableEq Ty] in
theorem sane_of_none (howned : info.hasCreator = true → info.owned = true)
    (hnone : info.singletonInstance = none) : info.Sane := by
  refine ⟨howned, ?_⟩
  intro object hobject
  exact absurd (hnone.symm.trans hobject) (by simp)

omit [DecidableEq Ty] in
theorem sane_given (id : RegistrationId Ty) (instance_ : Option Nat) :
    ({ id, lifetime := .singleton, hasCreator := false, singletonInstance := instance_.map .given
       initialized := true, owned := false } : RegistrationInfo Ty).Sane := by
  refine ⟨fun hcreator => absurd hcreator (by simp), ?_⟩
  intro object hobject
  obtain ⟨given, -, rfl⟩ := Option.map_eq_some_iff.mp hobject
  exact Or.inr ⟨given, rfl⟩

theorem Conserved.register (hconserved : c.Conserved) (type : Ty)
    {make : RegistrationId Ty → RegistrationInfo Ty} (hsane : ∀ id, (make id).Sane)
    (hempty : ∀ id, (make id).ownedSingleton = 0) : (c.register type make).2.Conserved := by
  unfold Container.register
  split
  case isTrue => exact hconserved
  case isFalse hfresh =>
    have htotal := @total_insert_of_notMem Ty (RegistrationInfo Ty) _ _ _
      (make ⟨type, c.nextRegistration⟩) _ _ (fun _ info => info.ownedSingleton) hfresh
    rw [hempty, zero_add] at htotal
    exact
      { hconserved with
        kept_eq := by
          rw [hconserved.kept_eq]
          unfold held
          rw [htotal]
        unnamed_sane := forall_lookup_insert hconserved.unnamed_sane (hsane _) }

theorem Conserved.bind (hconserved : c.Conserved) (type : Ty) (lifetime : Lifetime) :
    (c.bind type lifetime).2.Conserved :=
  hconserved.register type (fun _ => sane_of_none (fun _ => rfl) rfl)
    (fun _ => ownedSingleton_of_none rfl)

theorem Conserved.bindInstance (hconserved : c.Conserved) (type : Ty) (instance_ : Option Nat) :
    (c.bindInstance type instance_).2.Conserved := by
  refine hconserved.register type (fun id => sane_given id instance_) ?_
  intro id
  unfold RegistrationInfo.ownedSingleton
  cases instance_ with
  | none => rfl
  | some given => simp

theorem Conserved.bindNamed (hconserved : c.Conserved) (type : Ty) (name : String)
    (lifetime : Lifetime) : (c.bindNamed type name lifetime).2.Conserved := by
  unfold Container.bindNamed
  split
  · exact hconserved
  · split
    case isTrue => exact hconserved
    case isFalse hfresh =>
      have htotal := @total_insert_of_notMem (Ty × String) (RegistrationInfo Ty) _ _ _
        { id := ⟨type, c.nextRegistration⟩, lifetime } _ _ (fun _ info => info.ownedSingleton) hfresh
      rw [ownedSingleton_of_none rfl, zero_add] at htotal
      exact
        { hconserved with
          kept_eq := by
            rw [hconserved.kept_eq]
            unfold held
            rw [htotal]
          named_sane := forall_lookup_insert hconserved.named_sane
            (sane_of_none (fun _ => rfl) rfl) }

/-! ### Scopes -/

theorem deletable_add_stranded (c : Container Ty) (scope : UnorderedMap Ty (Object Ty)) :
    c.deletable scope + c.stranded scope = scopeObjects scope := by
  unfold deletable stranded scopeObjects
  rw [← total_add]
  congr 1
  funext type object
  cases c.hasDeleter type with
  | true => simp
  | false => simp

theorem Conserved.createScope (hconserved : c.Conserved) : c.createScope.2.Conserved := by
  have hfresh : c.nextScopeId ∉ c.scopes := fun hmem =>
    Nat.lt_irrefl _ (hconserved.scopes_lt _ hmem)
  have htotal := @total_insert_of_notMem ScopeId (UnorderedMap Ty (Object Ty)) _ _ _ ∅ _ _
    (fun _ scope => scopeObjects scope) hfresh
  have hempty : scopeObjects (∅ : UnorderedMap Ty (Object Ty)) = 0 := rfl
  rw [hempty, zero_add] at htotal
  unfold Container.createScope
  exact
    { hconserved with
      kept_eq := by
        rw [hconserved.kept_eq]
        unfold held
        rw [htotal]
      scopes_lt := by
        intro id hid
        rcases Finmap.mem_insert.mp hid with rfl | hold
        · exact Nat.lt_succ_self _
        · exact Nat.lt_succ_of_lt (hconserved.scopes_lt id hold)
      current_lt := Nat.lt_succ_self _ }

theorem Conserved.disposeScope (hconserved : c.Conserved) (scopeId : ScopeId) :
    (c.disposeScope scopeId).Conserved := by
  unfold Container.disposeScope
  cases hlookup : c.scopes.lookup scopeId with
  | none => exact hconserved
  | some scope =>
      have htotal := total_eq_add_erase (fun _ scope => scopeObjects scope) hlookup
      have hsplit := c.deletable_add_stranded scope
      exact
        { hconserved with
          kept_eq := by
            rw [hconserved.kept_eq]
            unfold held
            rw [htotal, ← hsplit]
            dsimp only
            abel
          scopes_lt := by
            intro id hid
            exact hconserved.scopes_lt id (Finmap.mem_erase.mp hid).2
          current_lt := by
            dsimp only
            split
            · exact Nat.zero_lt_of_lt hconserved.current_lt
            · exact hconserved.current_lt }

/-! ### Resolutions -/

theorem Conserved.keep (hconserved : c.Conserved) (info : RegistrationInfo Ty) {d : Container Ty}
    (hheld : d.held = c.held + {(c.produced info).1}) (hdeleted : d.deleted = c.deleted)
    (hleaked : d.leaked = c.leaked) (hkept : d.kept = c.kept + {(c.produced info).1})
    (hnext : d.nextObject = c.nextObject + 1)
    (hunnamed : ∀ type info, d.registrations.lookup type = some info → info.Sane)
    (hnamed : ∀ key info, d.namedRegistrations.lookup key = some info → info.Sane)
    (hscopes : ∀ id ∈ d.scopes, id < d.nextScopeId) (hcurrent : d.currentScopeId < d.nextScopeId) :
    d.Conserved where
  kept_eq := by
    rw [hkept, hheld, hdeleted, hleaked, hconserved.kept_eq]
    abel
  kept_nodup := by
    have hfresh : (c.produced info).1 ∉ c.kept := by
      intro hmem
      obtain ⟨serial, producer, heq, hlt⟩ := hconserved.kept_created _ hmem
      injection heq with hserial
      omega
    rw [hkept, add_comm, Multiset.singleton_add, Multiset.nodup_cons]
    exact ⟨hfresh, hconserved.kept_nodup⟩
  kept_created := by
    intro object hobject
    rw [hkept, Multiset.mem_add, Multiset.mem_singleton] at hobject
    rw [hnext]
    rcases hobject with hold | rfl
    · obtain ⟨serial, producer, heq, hlt⟩ := hconserved.kept_created object hold
      exact ⟨serial, producer, heq, Nat.lt_succ_of_lt hlt⟩
    · exact ⟨c.nextObject, info.id, rfl, Nat.lt_succ_self _⟩
  unnamed_sane := hunnamed
  named_sane := hnamed
  scopes_lt := hscopes
  current_lt := hcurrent

theorem Conserved.produced (hconserved : c.Conserved) (info : RegistrationInfo Ty) :
    (c.produced info).2.Conserved :=
  { hconserved with
    kept_created := by
      intro object hobject
      obtain ⟨serial, producer, heq, hlt⟩ := hconserved.kept_created object hobject
      exact ⟨serial, producer, heq, Nat.lt_succ_of_lt hlt⟩ }

/-- The registration after its singleton was made. -/
def filled (info : RegistrationInfo Ty) (object : Object Ty) : RegistrationInfo Ty :=
  { info with singletonInstance := some object, initialized := true }

omit [DecidableEq Ty] in
theorem ownedSingleton_of_empty (hempty : info.initialized = false ∨ info.singletonInstance = none) :
    info.ownedSingleton = 0 := by
  unfold RegistrationInfo.ownedSingleton
  rcases hempty with hinitialized | hnone
  · cases info.singletonInstance with
    | none => rfl
    | some object => simp [hinitialized]
  · rw [hnone]

omit [DecidableEq Ty] in
theorem ownedSingleton_filled (hlifetime : info.lifetime = .singleton) (howned : info.owned = true)
    (object : Object Ty) : (filled info object).ownedSingleton = {object} := by
  unfold RegistrationInfo.ownedSingleton filled
  simp [hlifetime, howned]

omit [DecidableEq Ty] in
theorem sane_filled (hsane : info.Sane) (hlifetime : info.lifetime = .singleton)
    (hcreator : info.hasCreator = true) (object : Object Ty) : (filled info object).Sane := by
  have howned := ownedSingleton_filled hlifetime (hsane.owned hcreator) object
  refine ⟨hsane.owned, ?_⟩
  intro other hother
  left
  rw [howned, Multiset.mem_singleton]
  exact (Option.some.inj hother).symm

omit [DecidableEq Ty] in
theorem total_filled {K : Type} [DecidableEq K] {m : UnorderedMap K (RegistrationInfo Ty)} {key : K}
    (hlookup : m.lookup key = some info) (hsane : info.Sane) (hlifetime : info.lifetime = .singleton)
    (hcreator : info.hasCreator = true)
    (hempty : info.initialized = false ∨ info.singletonInstance = none) (object : Object Ty) :
    total (fun _ info => info.ownedSingleton) (m.insert key (filled info object)) =
      total (fun _ info => info.ownedSingleton) m + {object} := by
  rw [total_insert, total_eq_add_erase _ hlookup, ownedSingleton_of_empty hempty,
    ownedSingleton_filled hlifetime (hsane.owned hcreator), zero_add, add_comm]

theorem total_keepInScope (hempty : c.scopeInstance type = none) (hscope : c.currentScopeId ≠ 0)
    (object : Object Ty) :
    total (fun _ scope => scopeObjects scope) (c.keepInScope type object).scopes =
      total (fun _ scope => scopeObjects scope) c.scopes + {object} := by
  unfold scopeInstance at hempty
  rw [if_neg hscope] at hempty
  have hfresh : ∀ scope : UnorderedMap Ty (Object Ty), scope.lookup type = none →
      scopeObjects (scope.insert type object) = {object} + scopeObjects scope := fun scope hnone =>
    total_insert_of_notMem _ (Finmap.lookup_eq_none.mp hnone)
  unfold keepInScope
  dsimp only
  rw [total_insert]
  cases hlookup : c.scopes.lookup c.currentScopeId with
  | none =>
      rw [erase_of_lookup_none hlookup, Option.getD_none, hfresh ∅ (Finmap.lookup_empty type)]
      have hnothing : scopeObjects (∅ : UnorderedMap Ty (Object Ty)) = 0 := rfl
      rw [hnothing, add_zero, add_comm]
  | some scope =>
      rw [hlookup, Option.bind_some] at hempty
      rw [Option.getD_some, hfresh scope hempty, total_eq_add_erase _ hlookup]
      abel

theorem Conserved.keepInScope (hconserved : c.Conserved) (hempty : c.scopeInstance type = none)
    (hscope : c.currentScopeId ≠ 0) (info : RegistrationInfo Ty) :
    ((c.produced info).2.keepInScope type (c.produced info).1).Conserved := by
  have htotal := @total_keepInScope Ty _ (c.produced info).2 type hempty hscope (c.produced info).1
  apply hconserved.keep info
  · unfold held
    rw [htotal]
    change total _ c.registrations + total _ c.namedRegistrations + (total _ c.scopes + _) = _
    abel
  · rfl
  · rfl
  · rfl
  · rfl
  · exact hconserved.unnamed_sane
  · exact hconserved.named_sane
  · intro id hid
    rcases Finmap.mem_insert.mp hid with rfl | hold
    · exact hconserved.current_lt
    · exact hconserved.scopes_lt id hold
  · exact hconserved.current_lt

theorem Conserved.outcome {store : Container Ty → RegistrationInfo Ty → Container Ty}
    {result : Result (Object Ty)} {d : Container Ty} (hconserved : c.Conserved)
    (houtcome : Outcome store c type info result d)
    (hstore : info.lifetime = .singleton → info.hasCreator = true →
      (info.initialized = false ∨ info.singletonInstance = none) →
      (store { (c.produced info).2 with kept := c.kept + {(c.produced info).1} }
        (filled info (c.produced info).1)).Conserved) : d.Conserved := by
  cases houtcome with
  | failed error => exact hconserved
  | singleton hlifetime hinstance => exact hconserved
  | firstSingleton hlifetime hcreator hempty => exact hstore hlifetime hcreator hempty
  | fromScope hlifetime hinstance => exact hconserved
  | firstScoped hlifetime hempty hscope => exact hconserved.keepInScope hempty hscope info
  | unkept hscope hlifetime => exact hconserved.produced info

theorem Conserved.resolveNamed (hconserved : c.Conserved) (type : Ty) (name : String)
    (produces : Bool) : (c.resolveNamed type name produces).2.Conserved := by
  unfold Container.resolveNamed
  cases hlookup : c.namedRegistrations.lookup (type, name) with
  | none => exact hconserved
  | some info =>
      apply hconserved.outcome (resolveInfo_outcome _ _ c type info produces)
      intro hlifetime hcreator hempty
      have hsane := hconserved.named_sane _ _ hlookup
      have htotal := total_filled hlookup hsane hlifetime hcreator hempty (c.produced info).1
      apply hconserved.keep info
      · change total _ c.registrations + total _ (c.namedRegistrations.insert (type, name) _) +
          total _ c.scopes = _
        rw [htotal]
        unfold held
        abel
      · rfl
      · rfl
      · rfl
      · rfl
      · exact hconserved.unnamed_sane
      · exact forall_lookup_insert hconserved.named_sane (sane_filled hsane hlifetime hcreator _)
      · exact hconserved.scopes_lt
      · exact hconserved.current_lt

theorem Conserved.resolve (hconserved : c.Conserved) (typeName : Ty → String) (type : Ty)
    (produces : Bool) : (c.resolve typeName type produces).2.Conserved := by
  unfold Container.resolve
  cases hlookup : c.registrations.lookup type with
  | none =>
      cases hprimary : c.primaryImpls.lookup type with
      | none => exact hconserved
      | some name => exact hconserved.resolveNamed type name produces
  | some info =>
      apply hconserved.outcome (resolveInfo_outcome _ _ c type info produces)
      intro hlifetime hcreator hempty
      have hsane := hconserved.unnamed_sane _ _ hlookup
      have htotal := total_filled hlookup hsane hlifetime hcreator hempty (c.produced info).1
      apply hconserved.keep info
      · change total _ (c.registrations.insert type _) + total _ c.namedRegistrations +
          total _ c.scopes = _
        rw [htotal]
        unfold held
        abel
      · rfl
      · rfl
      · rfl
      · rfl
      · exact forall_lookup_insert hconserved.unnamed_sane (sane_filled hsane hlifetime hcreator _)
      · exact hconserved.named_sane
      · exact hconserved.scopes_lt
      · exact hconserved.current_lt

/-! ### Removals -/

theorem Conserved.unregister (hconserved : c.Conserved) (type : Ty) :
    (c.unregister type).Conserved := by
  unfold Container.unregister
  cases hlookup : c.registrations.lookup type with
  | none => exact hconserved
  | some info =>
      have htotal := total_eq_add_erase (fun _ info => info.ownedSingleton) hlookup
      exact
        { hconserved with
          kept_eq := by
            rw [hconserved.kept_eq]
            unfold held
            rw [htotal]
            dsimp only
            abel
          unnamed_sane := fun other found hother =>
            hconserved.unnamed_sane other found (lookup_of_lookup_erase hother) }

theorem held_clear (c : Container Ty) : c.clear.held = 0 := rfl

theorem Conserved.clear (hconserved : c.Conserved) : c.clear.Conserved := by
  have hscopes : total (fun _ scope => scopeObjects scope) c.scopes =
      total (fun _ scope => c.deletable scope) c.scopes +
        total (fun _ scope => c.stranded scope) c.scopes := by
    rw [← total_add]
    congr 1
    funext id scope
    exact (c.deletable_add_stranded scope).symm
  refine
    { hconserved with
      kept_eq := ?_
      unnamed_sane := fun _ _ hlookup => absurd hlookup (by simp [Container.clear])
      named_sane := fun _ _ hlookup => absurd hlookup (by simp [Container.clear])
      scopes_lt := fun _ hid => absurd hid Finmap.notMem_empty
      current_lt := Nat.zero_lt_of_lt hconserved.current_lt }
  change c.kept = 0 + (c.deleted + _ + _ + _) + (c.leaked + _)
  rw [hconserved.kept_eq]
  unfold held
  rw [hscopes]
  abel

theorem Conserved.step (hconserved : c.Conserved) (typeName : Ty → String) (call : Call Ty) :
    (c.step typeName call).Conserved := by
  cases call with
  | bind type lifetime => exact hconserved.bind type lifetime
  | bindInstance type instance_ => exact hconserved.bindInstance type instance_
  | bindSingleton type => exact hconserved.bind type .singleton
  | bindScoped type => exact hconserved.bind type .scoped
  | bindTransient type => exact hconserved.bind type .transient
  | bindNamed type name lifetime => exact hconserved.bindNamed type name lifetime
  | setPrimary type name =>
      change (c.setPrimary type name).2.Conserved
      unfold Container.setPrimary
      split
      · exact hconserved
      · exact { hconserved with }
  | createScope => exact hconserved.createScope
  | disposeScope scopeId => exact hconserved.disposeScope scopeId
  | resolve type produces => exact hconserved.resolve typeName type produces
  | resolveNamed type name produces => exact hconserved.resolveNamed type name produces
  | unregister type => exact hconserved.unregister type
  | clear => exact hconserved.clear

theorem conserved_run (typeName : Ty → String) (calls : List (Call Ty)) :
    (run (step typeName) {} calls).Conserved :=
  run_induction conserved_start (fun _ call hconserved => hconserved.step typeName call) calls

/-! ### What a scope leaves behind -/

/-- Every object of the scope is of a type with a deleter: an unnamed registration that is owned, or any
named one. -/
def AllDeletable (c : Container Ty) (scope : UnorderedMap Ty (Object Ty)) : Prop :=
  ∀ type object, scope.lookup type = some object → c.hasDeleter type = true

/-- The scopes a call ends leave nothing behind. -/
def DisposesAll (c : Container Ty) : Call Ty → Prop
  | .disposeScope scopeId => ∀ scope, c.scopes.lookup scopeId = some scope → c.AllDeletable scope
  | .clear => ∀ id scope, c.scopes.lookup id = some scope → c.AllDeletable scope
  | _ => True

def strandedBy (c : Container Ty) : Call Ty → Multiset (Object Ty)
  | .disposeScope scopeId => ((c.scopes.lookup scopeId).map c.stranded).getD 0
  | .clear => total (fun _ scope => c.stranded scope) c.scopes
  | _ => 0

theorem stranded_eq_zero_iff (scope : UnorderedMap Ty (Object Ty)) :
    c.stranded scope = 0 ↔ c.AllDeletable scope := by
  unfold stranded AllDeletable
  rw [total_eq_zero_iff]
  apply forall_congr'
  intro type
  apply forall_congr'
  intro object
  apply imp_congr_right
  intro _
  cases c.hasDeleter type with
  | true => simp
  | false => simp

theorem strandedBy_eq_zero_iff (call : Call Ty) : c.strandedBy call = 0 ↔ c.DisposesAll call := by
  cases call with
  | disposeScope scopeId =>
      unfold strandedBy DisposesAll
      cases hlookup : c.scopes.lookup scopeId with
      | none => simp [hlookup]
      | some scope => simp [hlookup, stranded_eq_zero_iff]
  | clear =>
      unfold strandedBy DisposesAll
      rw [total_eq_zero_iff]
      simp only [stranded_eq_zero_iff]
  | _ => exact iff_of_true rfl trivial

theorem outcome_leaked {store : Container Ty → RegistrationInfo Ty → Container Ty}
    {result : Result (Object Ty)} {d : Container Ty} (houtcome : Outcome store c type info result d)
    (hstore : ∀ c info, (store c info).leaked = c.leaked) : d.leaked = c.leaked := by
  cases houtcome with
  | firstSingleton hlifetime hcreator hempty => rw [hstore, produced]
  | _ => rfl

theorem resolveNamed_leaked (c : Container Ty) (type : Ty) (name : String) (produces : Bool) :
    (c.resolveNamed type name produces).2.leaked = c.leaked := by
  unfold Container.resolveNamed
  cases c.namedRegistrations.lookup (type, name) with
  | none => rfl
  | some info => exact outcome_leaked (resolveInfo_outcome _ _ c type info produces) (fun _ _ => rfl)

theorem resolve_leaked (typeName : Ty → String) (c : Container Ty) (type : Ty) (produces : Bool) :
    (c.resolve typeName type produces).2.leaked = c.leaked := by
  unfold Container.resolve
  cases c.registrations.lookup type with
  | none =>
      cases c.primaryImpls.lookup type with
      | none => rfl
      | some name => exact resolveNamed_leaked c type name produces
  | some info => exact outcome_leaked (resolveInfo_outcome _ _ c type info produces) (fun _ _ => rfl)

theorem register_leaked (c : Container Ty) (type : Ty) (make : RegistrationId Ty → RegistrationInfo Ty) :
    (c.register type make).2.leaked = c.leaked := by
  unfold Container.register
  split <;> rfl

theorem bind_leaked (c : Container Ty) (type : Ty) (lifetime : Lifetime) :
    (c.bind type lifetime).2.leaked = c.leaked :=
  register_leaked c type _

theorem leaked_step (typeName : Ty → String) (c : Container Ty) (call : Call Ty) :
    (c.step typeName call).leaked = c.leaked + c.strandedBy call := by
  cases call with
  | disposeScope scopeId =>
      change (c.disposeScope scopeId).leaked = _
      unfold Container.disposeScope strandedBy
      cases hlookup : c.scopes.lookup scopeId with
      | none => simp [hlookup]
      | some scope => simp [hlookup]
  | clear => rfl
  | resolve type produces =>
      refine Eq.trans ?_ (add_zero c.leaked).symm
      exact resolve_leaked typeName c type produces
  | resolveNamed type name produces =>
      refine Eq.trans ?_ (add_zero c.leaked).symm
      exact resolveNamed_leaked c type name produces
  | unregister type =>
      refine Eq.trans ?_ (add_zero c.leaked).symm
      change (c.unregister type).leaked = c.leaked
      unfold Container.unregister
      cases c.registrations.lookup type with
      | none => rfl
      | some info => rfl
  | setPrimary type name =>
      refine Eq.trans ?_ (add_zero c.leaked).symm
      change (c.setPrimary type name).2.leaked = c.leaked
      unfold Container.setPrimary
      split <;> rfl
  | bindNamed type name lifetime =>
      refine Eq.trans ?_ (add_zero c.leaked).symm
      change (c.bindNamed type name lifetime).2.leaked = c.leaked
      unfold Container.bindNamed
      split
      · rfl
      · split <;> rfl
  | createScope =>
      refine Eq.trans ?_ (add_zero c.leaked).symm
      rfl
  | bind type lifetime =>
      exact (c.bind_leaked type lifetime).trans (add_zero c.leaked).symm
  | bindSingleton type => exact (c.bind_leaked type .singleton).trans (add_zero c.leaked).symm
  | bindScoped type => exact (c.bind_leaked type .scoped).trans (add_zero c.leaked).symm
  | bindTransient type => exact (c.bind_leaked type .transient).trans (add_zero c.leaked).symm
  | bindInstance type instance_ =>
      refine Eq.trans ?_ (add_zero c.leaked).symm
      change (c.bindInstance type instance_).2.leaked = c.leaked
      exact register_leaked c type _

theorem leaked_eq_zero_iff (typeName : Ty → String) (calls : List (Call Ty)) :
    (run (step typeName) {} calls).leaked = 0 ↔ Along (step typeName) DisposesAll {} calls := by
  induction calls using List.reverseRecOn with
  | nil => exact iff_of_true rfl trivial
  | append_singleton calls call ih =>
      rw [run_concat, leaked_step, along_concat, add_eq_zero, ih, strandedBy_eq_zero_iff]

/-! ### Exactly once -/

/-- Nothing that was deleted can be returned by a later resolution. -/
theorem Conserved.not_caches (hconserved : c.Conserved) (hdeleted : object ∈ c.deleted) :
    ¬ c.Caches object := by
  have hmem : object ∈ c.kept := by
    rw [hconserved.kept_eq]
    simp [hdeleted]
  have hcount := Multiset.nodup_iff_count_le_one.mp hconserved.kept_nodup object
  have hdeleted' : 1 ≤ c.deleted.count object := Multiset.one_le_count_iff_mem.mpr hdeleted
  have hheld : object ∉ c.held := by
    intro hheld
    have hheld' : 1 ≤ c.held.count object := Multiset.one_le_count_iff_mem.mpr hheld
    rw [hconserved.kept_eq, Multiset.count_add, Multiset.count_add] at hcount
    omega
  obtain ⟨serial, producer, rfl, -⟩ := hconserved.kept_created object hmem
  have hslot : ∀ info : RegistrationInfo Ty, info.Sane →
      info.singletonInstance = some (.created serial producer) →
      .created serial producer ∈ info.ownedSingleton := by
    intro info hsane hinstance
    rcases hsane.singleton _ hinstance with howned | ⟨instance_, hgiven⟩
    · exact howned
    · exact absurd hgiven (by simp)
  apply mt _ hheld
  unfold held
  rw [Multiset.mem_add, Multiset.mem_add]
  rintro (⟨type, info, hlookup, hinstance⟩ | ⟨key, info, hlookup, hinstance⟩ |
    ⟨id, scope, type, hscope, hlookup⟩)
  · left; left
    rw [total_eq_add_erase _ hlookup, Multiset.mem_add]
    exact Or.inl (hslot info (hconserved.unnamed_sane _ _ hlookup) hinstance)
  · left; right
    rw [total_eq_add_erase _ hlookup, Multiset.mem_add]
    exact Or.inl (hslot info (hconserved.named_sane _ _ hlookup) hinstance)
  · right
    rw [total_eq_add_erase _ hscope, Multiset.mem_add]
    left
    unfold scopeObjects
    rw [total_eq_add_erase _ hlookup, Multiset.mem_add]
    exact Or.inl (Multiset.mem_singleton_self _)

theorem Conserved.given_not_deleted (hconserved : c.Conserved) (instance_ : Nat) :
    .given instance_ ∉ c.deleted := by
  intro hdeleted
  have hmem : .given instance_ ∈ c.kept := by
    rw [hconserved.kept_eq]
    simp [hdeleted]
  obtain ⟨serial, producer, heq, -⟩ := hconserved.kept_created _ hmem
  exact absurd heq (by simp)

/-- Where nothing is held, the objects kept are deleted exactly once each if and only if none was left
behind. -/
theorem Conserved.deleted_once_iff (hconserved : c.Conserved) (hheld : c.held = 0) :
    (∀ object ∈ c.kept, c.deleted.count object = 1) ↔ c.leaked = 0 := by
  have hkept := hconserved.kept_eq
  rw [hheld, zero_add] at hkept
  have hcount := Multiset.nodup_iff_count_le_one.mp hconserved.kept_nodup
  constructor
  · intro honce
    rw [Multiset.eq_zero_iff_forall_notMem]
    intro object hobject
    have hmem : object ∈ c.kept := by
      rw [hkept]
      simp [hobject]
    have hbound := hcount object
    have hleaked : 1 ≤ c.leaked.count object := Multiset.one_le_count_iff_mem.mpr hobject
    have hdeleted := honce object hmem
    rw [hkept, Multiset.count_add] at hbound
    omega
  · intro hnone object hmem
    rw [hnone, add_zero] at hkept
    rw [← hkept]
    exact Multiset.count_eq_one_of_mem hconserved.kept_nodup hmem

/-- What the container should do with the objects in a run that ends with `clear`. -/
structure DeletesOnce (typeName : Ty → String) (calls : List (Call Ty)) : Prop where
  once : ∀ object ∈ (run (step typeName) {} calls).kept,
    (run (step typeName) {} calls).deleted.count object = 1
  not_cached : ∀ n object, object ∈ (run (step typeName) {} (calls.take n)).deleted →
    ¬ (run (step typeName) {} (calls.take n)).Caches object
  instances : ∀ instance_, .given instance_ ∉ (run (step typeName) {} calls).deleted

/-- In a run that ends with `clear`, this is so exactly if every scope that is ended, by
`disposeScope` or by `clear`, holds only objects of types with a deleter. -/
theorem deletesOnce_iff_disposesAll (typeName : Ty → String) (calls : List (Call Ty)) :
    DeletesOnce typeName (calls ++ [.clear]) ↔
      Along (step typeName) DisposesAll {} (calls ++ [.clear]) := by
  have hconserved := conserved_run typeName (calls ++ [.clear])
  have hheld : (run (step typeName) {} (calls ++ [.clear])).held = 0 := by
    rw [run_concat]
    exact held_clear _
  rw [← leaked_eq_zero_iff, ← hconserved.deleted_once_iff hheld]
  constructor
  · intro hdeletes
    exact hdeletes.once
  · intro honce
    exact ⟨honce, fun n object hdeleted => (conserved_run typeName _).not_caches hdeleted,
      hconserved.given_not_deleted⟩

/-! ### A registration removed too early -/

/-- A scoped object is resolved, its registration removed, its scope disposed. -/
def removedEarly : List (Call Nat) :=
  [.bindScoped 0, .createScope, .resolve 0 true, .unregister 0, .disposeScope 1]

theorem scoped_object_never_deleted : ¬ DeletesOnce (fun _ => "T") (removedEarly ++ [.clear]) := by
  intro hdeletes
  have hkept : .created 0 ⟨0, 0⟩ ∈ (run (step fun _ => "T") {} (removedEarly ++ [.clear])).kept := by
    decide
  have honce := hdeletes.once _ hkept
  have hnever : (run (step fun _ => "T") {} (removedEarly ++ [.clear])).deleted.count
      (.created 0 ⟨0, 0⟩) = 0 := by
    decide
  omega

end Container

end SoulCoreKit.Di
