import SoulCoreKit.Core.Result
import SoulCoreKit.Lib.Run
import SoulCoreKit.Lib.UnorderedMap

/-!
# The dependency injection container

`di::Container`, whose calls hold one mutex and are atomic. A creator makes a fresh object each time, or
returns null, and does not call the container. Every registration carries the bind call that made it,
and every object the registration that produced it; an object given to `bindInstance` belongs to the
caller. No branch reads either. The deleter of an owned registration deletes an object of its type;
that of an instance does nothing, but the registration is not owned and its deleter never called.

Three multisets record what became of the objects: those the container kept, those it passed to a
deleter, and those of a scope for which `tryDeleteScopeInstance` found none. The counter of scopes is a
natural number: it would wrap after 2^64 calls of `createScope`. `m_resolvedInstances` is written but
passed only to creators, which ignore it, and is left out.
-/

namespace SoulCoreKit.Di

inductive Lifetime where
  | transient
  | singleton
  | scoped
  deriving DecidableEq, Repr

/-- The bind call that made a registration: its type and its number. -/
structure RegistrationId (Ty : Type) where
  type : Ty
  serial : Nat
  deriving DecidableEq, Repr

inductive Object (Ty : Type) where
  | created (serial : Nat) (producer : RegistrationId Ty)
  | given (instance_ : Nat)
  deriving DecidableEq, Repr

structure RegistrationInfo (Ty : Type) where
  id : RegistrationId Ty
  lifetime : Lifetime := .transient
  hasCreator : Bool := true
  singletonInstance : Option (Object Ty) := none
  initialized : Bool := false
  owned : Bool := true

abbrev ScopeId := Nat

structure Container (Ty : Type) where
  registrations : UnorderedMap Ty (RegistrationInfo Ty) := ∅
  namedRegistrations : UnorderedMap (Ty × String) (RegistrationInfo Ty) := ∅
  scopes : UnorderedMap ScopeId (UnorderedMap Ty (Object Ty)) := ∅
  primaryImpls : UnorderedMap Ty String := ∅
  currentScopeId : ScopeId := 0
  nextScopeId : ScopeId := 1
  nextRegistration : Nat := 0
  nextObject : Nat := 0
  kept : Multiset (Object Ty) := 0
  deleted : Multiset (Object Ty) := 0
  leaked : Multiset (Object Ty) := 0

variable {Ty : Type} [DecidableEq Ty]

/-- The object `unregister` and `clear` pass to the deleter of a registration. -/
def RegistrationInfo.ownedSingleton (info : RegistrationInfo Ty) : Multiset (Object Ty) :=
  match info.singletonInstance with
  | some object => if info.lifetime = .singleton ∧ info.initialized ∧ info.owned then {object} else 0
  | none => 0

namespace Container

open UnorderedMap

def createScope (c : Container Ty) : ScopeId × Container Ty :=
  let id := c.nextScopeId
  (id, { c with nextScopeId := id + 1, scopes := c.scopes.insert id ∅, currentScopeId := id })

/-- `tryDeleteScopeInstance` finds a deleter for the type. -/
def hasDeleter (c : Container Ty) (type : Ty) : Bool :=
  (c.registrations.lookup type).any (·.owned) ||
    decide (∃ key ∈ c.namedRegistrations.keys, key.1 = type ∧
      (c.namedRegistrations.lookup key).any (·.owned))

/-- The objects of a scope that are passed to a deleter, and those that are not. -/
def deletable (c : Container Ty) (scope : UnorderedMap Ty (Object Ty)) : Multiset (Object Ty) :=
  total (fun type object => if c.hasDeleter type then {object} else 0) scope

def stranded (c : Container Ty) (scope : UnorderedMap Ty (Object Ty)) : Multiset (Object Ty) :=
  total (fun type object => if c.hasDeleter type then 0 else {object}) scope

def disposeScope (c : Container Ty) (scopeId : ScopeId) : Container Ty :=
  match c.scopes.lookup scopeId with
  | none => c
  | some scope =>
      { c with
        deleted := c.deleted + c.deletable scope
        leaked := c.leaked + c.stranded scope
        scopes := c.scopes.erase scopeId
        currentScopeId := if c.currentScopeId = scopeId then 0 else c.currentScopeId }

/-- The part all unnamed registrations share. -/
def register (c : Container Ty) (type : Ty) (info : RegistrationId Ty → RegistrationInfo Ty) :
    Result Unit × Container Ty :=
  if type ∈ c.registrations then
    (.error ⟨.alreadyExists, "DI: type already registered"⟩, c)
  else
    (.ok (), { c with
      registrations := c.registrations.insert type (info ⟨type, c.nextRegistration⟩)
      nextRegistration := c.nextRegistration + 1 })

def bind (c : Container Ty) (type : Ty) (lifetime : Lifetime) : Result Unit × Container Ty :=
  c.register type fun id => { id, lifetime }

/-- The pointer may be null. -/
def bindInstance (c : Container Ty) (type : Ty) (instance_ : Option Nat) :
    Result Unit × Container Ty :=
  c.register type fun id =>
    { id, lifetime := .singleton, hasCreator := false, singletonInstance := instance_.map .given
      initialized := true, owned := false }

def bindSingleton (c : Container Ty) (type : Ty) : Result Unit × Container Ty := c.bind type .singleton

def bindScoped (c : Container Ty) (type : Ty) : Result Unit × Container Ty := c.bind type .scoped

def bindTransient (c : Container Ty) (type : Ty) : Result Unit × Container Ty := c.bind type .transient

def bindNamed (c : Container Ty) (type : Ty) (name : String) (lifetime : Lifetime) :
    Result Unit × Container Ty :=
  if name = "" then
    (.error ⟨.invalidArgument, "DI: qualifier name cannot be empty"⟩, c)
  else if (type, name) ∈ c.namedRegistrations then
    (.error ⟨.alreadyExists, "DI: named type already registered"⟩, c)
  else
    (.ok (), { c with
      namedRegistrations := c.namedRegistrations.insert (type, name)
        { id := ⟨type, c.nextRegistration⟩, lifetime }
      nextRegistration := c.nextRegistration + 1 })

/-- A call of the creator: a fresh object, or null. -/
def create (c : Container Ty) (info : RegistrationInfo Ty) (kind : String) (produces : Bool) :
    Result (Object Ty) × Container Ty :=
  if ¬ info.hasCreator then
    (.error ⟨.invalidArgument, "Creator not set for " ++ kind⟩, c)
  else if ¬ produces then
    (.error ⟨.internalError, "Creator returned null"⟩, c)
  else
    (.ok (.created c.nextObject info.id), { c with nextObject := c.nextObject + 1 })

/-- The object of the type in the current scope. -/
def scopeInstance (c : Container Ty) (type : Ty) : Option (Object Ty) :=
  if c.currentScopeId = 0 then
    none
  else
    (c.scopes.lookup c.currentScopeId).bind (·.lookup type)

def keepInScope (c : Container Ty) (type : Ty) (object : Object Ty) : Container Ty :=
  let scope := (c.scopes.lookup c.currentScopeId).getD ∅
  { c with
    scopes := c.scopes.insert c.currentScopeId (scope.insert type object)
    kept := c.kept + {object} }

/-- The body `resolve` and `resolveNamed` share once the registration is found. `store` writes it back;
`named` is part of the texts of the errors. -/
def resolveInfo (named : String)
    (store : Container Ty → RegistrationInfo Ty → Container Ty) (c : Container Ty) (type : Ty)
    (info : RegistrationInfo Ty) (produces : Bool) : Result (Object Ty) × Container Ty :=
  match info.lifetime with
  | .singleton =>
      match info.initialized, info.singletonInstance with
      | true, some object => (.ok object, c)
      | _, _ =>
          match c.create info (named ++ "singleton") produces with
          | (.error error, c) => (.error error, c)
          | (.ok object, c) =>
              (.ok object, store { c with kept := c.kept + {object} }
                { info with singletonInstance := some object, initialized := true })
  | .scoped =>
      match c.scopeInstance type with
      | some object => (.ok object, c)
      | none =>
          match c.create info (named ++ "scoped") produces with
          | (.error error, c) => (.error error, c)
          | (.ok object, c) =>
              if c.currentScopeId ≠ 0 then
                (.ok object, c.keepInScope type object)
              else
                (.ok object, c)
  | .transient => c.create info (named ++ "transient") produces

/-- The state and the object after a creator was called. -/
def produced (c : Container Ty) (info : RegistrationInfo Ty) : Object Ty × Container Ty :=
  (.created c.nextObject info.id, { c with nextObject := c.nextObject + 1 })

/-- Everything a resolution can do. -/
inductive Outcome (store : Container Ty → RegistrationInfo Ty → Container Ty) (c : Container Ty)
    (type : Ty) (info : RegistrationInfo Ty) : Result (Object Ty) → Container Ty → Prop
  | failed (error : Error) : Outcome store c type info (.error error) c
  | singleton {object : Object Ty} (hlifetime : info.lifetime = .singleton)
      (hinstance : info.singletonInstance = some object) : Outcome store c type info (.ok object) c
  | firstSingleton (hlifetime : info.lifetime = .singleton) (hcreator : info.hasCreator = true)
      (hempty : info.initialized = false ∨ info.singletonInstance = none) :
      Outcome store c type info (.ok (c.produced info).1)
        (store { (c.produced info).2 with kept := c.kept + {(c.produced info).1} }
          { info with singletonInstance := some (c.produced info).1, initialized := true })
  | fromScope {object : Object Ty} (hlifetime : info.lifetime = .scoped)
      (hinstance : c.scopeInstance type = some object) : Outcome store c type info (.ok object) c
  | firstScoped (hlifetime : info.lifetime = .scoped) (hempty : c.scopeInstance type = none)
      (hscope : c.currentScopeId ≠ 0) :
      Outcome store c type info (.ok (c.produced info).1)
        ((c.produced info).2.keepInScope type (c.produced info).1)
  | unkept (hscope : info.lifetime = .scoped → c.currentScopeId = 0)
      (hlifetime : info.lifetime ≠ .singleton) :
      Outcome store c type info (.ok (c.produced info).1) (c.produced info).2

omit [DecidableEq Ty] in
theorem create_cases (c : Container Ty) (info : RegistrationInfo Ty) (kind : String) (produces : Bool) :
    (∃ error, c.create info kind produces = (.error error, c)) ∨
      (info.hasCreator = true ∧
        c.create info kind produces = (.ok (c.produced info).1, (c.produced info).2)) := by
  unfold create produced
  cases hcreator : info.hasCreator with
  | false => exact Or.inl ⟨_, rfl⟩
  | true =>
      cases produces with
      | false => exact Or.inl ⟨_, rfl⟩
      | true => exact Or.inr ⟨rfl, rfl⟩

theorem resolveInfo_outcome (named : String) (store : Container Ty → RegistrationInfo Ty → Container Ty)
    (c : Container Ty) (type : Ty) (info : RegistrationInfo Ty) (produces : Bool) :
    Outcome store c type info (resolveInfo named store c type info produces).1
      (resolveInfo named store c type info produces).2 := by
  unfold resolveInfo
  split
  case h_1 hlifetime =>
    split
    case h_1 object hinitialized hinstance => exact .singleton hlifetime hinstance
    case h_2 hempty =>
      have hfirst : info.initialized = false ∨ info.singletonInstance = none := by
        cases hinitialized : info.initialized with
        | false => exact Or.inl rfl
        | true =>
            cases hinstance : info.singletonInstance with
            | none => exact Or.inr rfl
            | some object => exact absurd hinstance (hempty object hinitialized)
      obtain ⟨error, hcreate⟩ | ⟨hcreator, hcreate⟩ := c.create_cases info (named ++ "singleton") produces
      · rw [hcreate]
        exact .failed error
      · rw [hcreate]
        exact .firstSingleton hlifetime hcreator hfirst
  case h_2 hlifetime =>
    split
    case h_1 object hinstance => exact .fromScope hlifetime hinstance
    case h_2 hinstance =>
      obtain ⟨error, hcreate⟩ | ⟨-, hcreate⟩ := c.create_cases info (named ++ "scoped") produces
      · rw [hcreate]
        exact .failed error
      · rw [hcreate]
        dsimp only
        split
        case isTrue hscope => exact .firstScoped hlifetime hinstance hscope
        case isFalse hscope =>
          exact .unkept (fun _ => by simpa [produced] using hscope) (by simp [hlifetime])
  case h_3 hlifetime =>
    obtain ⟨error, hcreate⟩ | ⟨-, hcreate⟩ := c.create_cases info (named ++ "transient") produces
    · rw [hcreate]
      exact .failed error
    · rw [hcreate]
      exact .unkept (fun hscoped => absurd (hlifetime.symm.trans hscoped) (by simp)) (by simp [hlifetime])

def storeNamed (type : Ty) (name : String) (c : Container Ty) (info : RegistrationInfo Ty) :
    Container Ty :=
  { c with namedRegistrations := c.namedRegistrations.insert (type, name) info }

def storeUnnamed (type : Ty) (c : Container Ty) (info : RegistrationInfo Ty) : Container Ty :=
  { c with registrations := c.registrations.insert type info }

def resolveNamed (c : Container Ty) (type : Ty) (name : String) (produces : Bool) :
    Result (Object Ty) × Container Ty :=
  match c.namedRegistrations.lookup (type, name) with
  | none => (.error ⟨.notFound, "Named type not registered: " ++ name⟩, c)
  | some info => resolveInfo "named " (storeNamed type name) c type info produces

def setPrimary (c : Container Ty) (type : Ty) (name : String) : Result Unit × Container Ty :=
  if (type, name) ∉ c.namedRegistrations then
    (.error ⟨.notFound, "DI: cannot set primary, named registration not found"⟩, c)
  else
    (.ok (), { c with primaryImpls := c.primaryImpls.insert type name })

def resolve (typeName : Ty → String) (c : Container Ty) (type : Ty) (produces : Bool) :
    Result (Object Ty) × Container Ty :=
  match c.registrations.lookup type with
  | none =>
      match c.primaryImpls.lookup type with
      | some name => c.resolveNamed type name produces
      | none => (.error ⟨.notFound, "Type not registered: " ++ typeName type⟩, c)
  | some info => resolveInfo "" (storeUnnamed type) c type info produces

def unregister (c : Container Ty) (type : Ty) : Container Ty :=
  match c.registrations.lookup type with
  | none => c
  | some info =>
      { c with
        deleted := c.deleted + info.ownedSingleton
        registrations := c.registrations.erase type }

def clear (c : Container Ty) : Container Ty :=
  { c with
    deleted := c.deleted + total (fun _ scope => c.deletable scope) c.scopes +
      total (fun _ info => info.ownedSingleton) c.registrations +
      total (fun _ info => info.ownedSingleton) c.namedRegistrations
    leaked := c.leaked + total (fun _ scope => c.stranded scope) c.scopes
    scopes := ∅
    currentScopeId := 0
    registrations := ∅
    namedRegistrations := ∅
    primaryImpls := ∅ }

inductive Call (Ty : Type) where
  | bind (type : Ty) (lifetime : Lifetime)
  | bindInstance (type : Ty) (instance_ : Option Nat)
  | bindSingleton (type : Ty)
  | bindScoped (type : Ty)
  | bindTransient (type : Ty)
  | bindNamed (type : Ty) (name : String) (lifetime : Lifetime)
  | setPrimary (type : Ty) (name : String)
  | createScope
  | disposeScope (scopeId : ScopeId)
  | resolve (type : Ty) (produces : Bool)
  | resolveNamed (type : Ty) (name : String) (produces : Bool)
  | unregister (type : Ty)
  | clear

inductive Reply (Ty : Type) where
  | done (result : Result Unit)
  | object (result : Result (Object Ty))
  | scope (id : ScopeId)
  | nothing

def exec (typeName : Ty → String) (c : Container Ty) : Call Ty → Reply Ty × Container Ty
  | .bind type lifetime => (c.bind type lifetime).map .done id
  | .bindInstance type instance_ => (c.bindInstance type instance_).map .done id
  | .bindSingleton type => (c.bindSingleton type).map .done id
  | .bindScoped type => (c.bindScoped type).map .done id
  | .bindTransient type => (c.bindTransient type).map .done id
  | .bindNamed type name lifetime => (c.bindNamed type name lifetime).map .done id
  | .setPrimary type name => (c.setPrimary type name).map .done id
  | .createScope => c.createScope.map .scope id
  | .disposeScope scopeId => (.nothing, c.disposeScope scopeId)
  | .resolve type produces => (c.resolve typeName type produces).map .object id
  | .resolveNamed type name produces => (c.resolveNamed type name produces).map .object id
  | .unregister type => (.nothing, c.unregister type)
  | .clear => (.nothing, c.clear)

def step (typeName : Ty → String) (c : Container Ty) (call : Call Ty) : Container Ty :=
  (c.exec typeName call).2

end Container

end SoulCoreKit.Di
