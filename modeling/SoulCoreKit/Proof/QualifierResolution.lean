import SoulCoreKit.Proof.Ownership

/-!
# Which registration an object comes from

The scopes cache objects by type alone. So a resolution of a scoped registration returns what the scope
holds for the type, whichever registration of the type it came from. The replies are right exactly in
the runs where what it holds came from the registration that is asked; there, a scoped registration has
one object per scope.
-/

namespace SoulCoreKit.Di

variable {Ty : Type} [DecidableEq Ty]

/-- The object was made by the creator of the registration, or is the instance it was given. -/
def RegistrationInfo.Produced (info : RegistrationInfo Ty) : Object Ty → Prop
  | .created _ producer => producer = info.id
  | .given instance_ => info.hasCreator = false ∧ info.singletonInstance = some (.given instance_)

namespace Container

open UnorderedMap

variable {c : Container Ty} {type : Ty} {name : String} {object : Object Ty}
  {info : RegistrationInfo Ty} {call : Call Ty} {typeName : Ty → String}

/-- The registration a resolution should go to: the one under the name; without a name, the unnamed one
or, if there is none, the primary one. -/
def asked (c : Container Ty) : Call Ty → Option (Ty × RegistrationInfo Ty)
  | .resolve type _ =>
      match c.registrations.lookup type with
      | some info => some (type, info)
      | none =>
          (c.primaryImpls.lookup type).bind fun name =>
            (c.namedRegistrations.lookup (type, name)).map fun info => (type, info)
  | .resolveNamed type name _ =>
      (c.namedRegistrations.lookup (type, name)).map fun info => (type, info)
  | _ => none

/-- An object that is returned comes from the registration that was asked. -/
def RightReply (typeName : Ty → String) (c : Container Ty) (call : Call Ty) : Prop :=
  ∀ object, (c.exec typeName call).1 = .object (.ok object) →
    ∃ type info, c.asked call = some (type, info) ∧ info.Produced object

/-- A scoped registration is asked only where the current scope holds nothing of its type, or an object
it produced itself. -/
def ScopeMatches (c : Container Ty) (call : Call Ty) : Prop :=
  ∀ type info object, c.asked call = some (type, info) → info.lifetime = .scoped →
    c.scopeInstance type = some object → info.Produced object

/-! ### Resolutions -/

/-- Writing a registration back leaves everything else alone. -/
structure StoreFrame (store : Container Ty → RegistrationInfo Ty → Container Ty) : Prop where
  scopes : ∀ c info, (store c info).scopes = c.scopes
  currentScopeId : ∀ c info, (store c info).currentScopeId = c.currentScopeId
  nextScopeId : ∀ c info, (store c info).nextScopeId = c.nextScopeId

theorem storeUnnamed_frame (type : Ty) : StoreFrame (storeUnnamed type) :=
  ⟨fun _ _ => rfl, fun _ _ => rfl, fun _ _ => rfl⟩

theorem storeNamed_frame (type : Ty) (name : String) : StoreFrame (storeNamed type name) :=
  ⟨fun _ _ => rfl, fun _ _ => rfl, fun _ _ => rfl⟩

theorem exec_resolve (typeName : Ty → String) (c : Container Ty) (type : Ty) (produces : Bool) :
    c.exec typeName (.resolve type produces) = (c.resolve typeName type produces).map .object id := rfl

theorem exec_resolveNamed (typeName : Ty → String) (c : Container Ty) (type : Ty) (name : String)
    (produces : Bool) :
    c.exec typeName (.resolveNamed type name produces) =
      (c.resolveNamed type name produces).map .object id := rfl

theorem resolveNamed_of_lookup {name : String}
    (hfound : c.namedRegistrations.lookup (type, name) = some info) (produces : Bool) :
    c.resolveNamed type name produces =
      resolveInfo "named " (storeNamed type name) c type info produces := by
  unfold Container.resolveNamed
  rw [hfound]

theorem resolveNamed_of_lookup_none {name : String}
    (hnone : c.namedRegistrations.lookup (type, name) = none) (produces : Bool) :
    c.resolveNamed type name produces =
      (.error ⟨.notFound, "Named type not registered: " ++ name⟩, c) := by
  unfold Container.resolveNamed
  rw [hnone]

theorem exec_of_asked (typeName : Ty → String) (hasked : c.asked call = some (type, info)) :
    ∃ named store produces, StoreFrame store ∧
      c.exec typeName call = (resolveInfo named store c type info produces).map .object id := by
  cases call with
  | resolve asked produces =>
      rw [exec_resolve]
      unfold Container.asked at hasked
      unfold Container.resolve
      cases hlookup : c.registrations.lookup asked with
      | some found =>
          simp only [hlookup, Option.some.injEq, Prod.mk.injEq] at hasked
          obtain ⟨rfl, rfl⟩ := hasked
          exact ⟨"", storeUnnamed asked, produces, storeUnnamed_frame asked, rfl⟩
      | none =>
          simp only [hlookup] at hasked
          obtain ⟨name, hprimary, hnamed⟩ := Option.bind_eq_some_iff.mp hasked
          obtain ⟨found, hfound, heq⟩ := Option.map_eq_some_iff.mp hnamed
          injection heq with htype hinfo
          subst htype hinfo
          refine ⟨"named ", storeNamed asked name, produces, storeNamed_frame asked name, ?_⟩
          simp only [hprimary]
          rw [resolveNamed_of_lookup hfound]
  | resolveNamed asked name produces =>
      obtain ⟨found, hfound, heq⟩ := Option.map_eq_some_iff.mp hasked
      injection heq with htype hinfo
      subst htype hinfo
      refine ⟨"named ", storeNamed asked name, produces, storeNamed_frame asked name, ?_⟩
      rw [exec_resolveNamed, resolveNamed_of_lookup hfound]
  | _ => exact absurd hasked (by simp [Container.asked])

/-- Without a registration to go to, no object is returned and a resolution changes nothing. -/
theorem exec_of_not_asked (typeName : Ty → String) (hasked : c.asked call = none) :
    ∀ object, (c.exec typeName call).1 ≠ .object (.ok object) := by
  intro object
  cases call with
  | resolve asked produces =>
      rw [exec_resolve]
      unfold Container.asked at hasked
      unfold Container.resolve
      cases hlookup : c.registrations.lookup asked with
      | some found => simp [hlookup] at hasked
      | none =>
          simp only [hlookup] at hasked
          cases hprimary : c.primaryImpls.lookup asked with
          | none => simp
          | some name =>
              rw [hprimary, Option.bind_some, Option.map_eq_none_iff] at hasked
              simp [resolveNamed_of_lookup_none hasked]
  | resolveNamed asked name produces =>
      have hnone : c.namedRegistrations.lookup (asked, name) = none := Option.map_eq_none_iff.mp hasked
      rw [exec_resolveNamed, resolveNamed_of_lookup_none hnone]
      simp
  | createScope => exact fun h => absurd h (by simp [exec])
  | _ => exact fun h => absurd h (by simp [exec])

theorem resolveInfo_of_scopeInstance (named : String)
    (store : Container Ty → RegistrationInfo Ty → Container Ty) (hlifetime : info.lifetime = .scoped)
    (hinstance : c.scopeInstance type = some object) (produces : Bool) :
    resolveInfo named store c type info produces = (.ok object, c) := by
  unfold resolveInfo
  rw [hlifetime]
  simp only [hinstance]

/-! ### Registrations know what they hold -/

def Own (info : RegistrationInfo Ty) : Prop :=
  ∀ object, info.singletonInstance = some object → info.Produced object

structure Honest (c : Container Ty) : Prop where
  unnamed : ∀ type info, c.registrations.lookup type = some info → info.id.type = type ∧ Own info
  named : ∀ key info, c.namedRegistrations.lookup key = some info → info.id.type = key.1 ∧ Own info
  current : c.currentScopeId ≠ 0 → c.currentScopeId ∈ c.scopes

theorem honest_start : ({} : Container Ty).Honest where
  unnamed := fun _ _ hlookup => absurd hlookup (by simp)
  named := fun _ _ hlookup => absurd hlookup (by simp)
  current := fun hne => absurd rfl hne

omit [DecidableEq Ty] in
theorem own_of_none (hnone : info.singletonInstance = none) : Own info := by
  intro object hobject
  exact absurd (hnone.symm.trans hobject) (by simp)

omit [DecidableEq Ty] in
theorem own_filled (info : RegistrationInfo Ty) (serial : Nat) :
    Own (filled info (.created serial info.id)) := by
  intro object hobject
  rw [← Option.some.inj hobject]
  rfl

theorem Honest.register (hhonest : c.Honest) (type : Ty)
    {make : RegistrationId Ty → RegistrationInfo Ty} (hid : ∀ id, (make id).id = id)
    (hown : ∀ id, Own (make id)) : (c.register type make).2.Honest := by
  unfold Container.register
  split
  · exact hhonest
  · exact
      { hhonest with
        unnamed := forall_lookup_insert hhonest.unnamed ⟨by rw [hid], hown _⟩ }

theorem Honest.bind (hhonest : c.Honest) (type : Ty) (lifetime : Lifetime) :
    (c.bind type lifetime).2.Honest :=
  hhonest.register type (fun _ => rfl) (fun _ => own_of_none rfl)

theorem Honest.bindInstance (hhonest : c.Honest) (type : Ty) (instance_ : Option Nat) :
    (c.bindInstance type instance_).2.Honest := by
  refine hhonest.register type (fun _ => rfl) ?_
  intro id object hobject
  obtain ⟨given, hgiven, rfl⟩ := Option.map_eq_some_iff.mp hobject
  exact ⟨rfl, hobject⟩

theorem Honest.bindNamed (hhonest : c.Honest) (type : Ty) (name : String) (lifetime : Lifetime) :
    (c.bindNamed type name lifetime).2.Honest := by
  unfold Container.bindNamed
  split
  · exact hhonest
  · split
    · exact hhonest
    · exact
        { hhonest with
          named := forall_lookup_insert
            (P := fun (key : Ty × String) (info : RegistrationInfo Ty) => info.id.type = key.1 ∧ Own info)
            hhonest.named ⟨rfl, own_of_none rfl⟩ }

theorem Honest.outcome {store : Container Ty → RegistrationInfo Ty → Container Ty}
    {result : Result (Object Ty)} {d : Container Ty} (hhonest : c.Honest)
    (houtcome : Outcome store c type info result d)
    (hstore : (store { (c.produced info).2 with kept := c.kept + {(c.produced info).1} }
      (filled info (c.produced info).1)).Honest) : d.Honest := by
  cases houtcome with
  | firstSingleton hlifetime hcreator hempty => exact hstore
  | firstScoped hlifetime hempty hscope =>
      exact { hhonest with current := fun _ => Finmap.mem_insert.mpr (Or.inl rfl) }
  | unkept hscope hlifetime => exact { hhonest with }
  | _ => exact hhonest

theorem Honest.resolveNamed (hhonest : c.Honest) (type : Ty) (name : String) (produces : Bool) :
    (c.resolveNamed type name produces).2.Honest := by
  unfold Container.resolveNamed
  cases hlookup : c.namedRegistrations.lookup (type, name) with
  | none => exact hhonest
  | some info =>
      apply hhonest.outcome (resolveInfo_outcome _ _ c type info produces)
      exact
        { hhonest with
          named := forall_lookup_insert
            (P := fun (key : Ty × String) (info : RegistrationInfo Ty) => info.id.type = key.1 ∧ Own info)
            hhonest.named
            ⟨(hhonest.named _ _ hlookup).1, own_filled info _⟩ }

theorem Honest.resolve (hhonest : c.Honest) (typeName : Ty → String) (type : Ty) (produces : Bool) :
    (c.resolve typeName type produces).2.Honest := by
  unfold Container.resolve
  cases hlookup : c.registrations.lookup type with
  | none =>
      cases c.primaryImpls.lookup type with
      | none => exact hhonest
      | some name => exact hhonest.resolveNamed type name produces
  | some info =>
      apply hhonest.outcome (resolveInfo_outcome _ _ c type info produces)
      exact
        { hhonest with
          unnamed := forall_lookup_insert (P := fun type info => info.id.type = type ∧ Own info)
            hhonest.unnamed
            ⟨(hhonest.unnamed _ _ hlookup).1, own_filled info _⟩ }

theorem Honest.disposeScope (hhonest : c.Honest) (scopeId : ScopeId) :
    (c.disposeScope scopeId).Honest := by
  unfold Container.disposeScope
  split
  · exact hhonest
  · refine { hhonest with current := ?_ }
    intro hne
    dsimp only at hne ⊢
    split at hne
    · exact absurd rfl hne
    case isFalse hother =>
      rw [if_neg hother, Finmap.mem_erase]
      exact ⟨hother, hhonest.current hne⟩

theorem Honest.unregister (hhonest : c.Honest) (type : Ty) : (c.unregister type).Honest := by
  unfold Container.unregister
  split
  · exact hhonest
  · exact
      { hhonest with
        unnamed := fun other found hother =>
          hhonest.unnamed other found (lookup_of_lookup_erase hother) }

theorem Honest.step (hhonest : c.Honest) (typeName : Ty → String) (call : Call Ty) :
    (c.step typeName call).Honest := by
  cases call with
  | bind type lifetime => exact hhonest.bind type lifetime
  | bindInstance type instance_ => exact hhonest.bindInstance type instance_
  | bindSingleton type => exact hhonest.bind type .singleton
  | bindScoped type => exact hhonest.bind type .scoped
  | bindTransient type => exact hhonest.bind type .transient
  | bindNamed type name lifetime => exact hhonest.bindNamed type name lifetime
  | setPrimary type name =>
      change (c.setPrimary type name).2.Honest
      unfold Container.setPrimary
      split
      · exact hhonest
      · exact { hhonest with }
  | createScope => exact { hhonest with current := fun _ => Finmap.mem_insert.mpr (Or.inl rfl) }
  | disposeScope scopeId => exact hhonest.disposeScope scopeId
  | resolve type produces => exact hhonest.resolve typeName type produces
  | resolveNamed type name produces => exact hhonest.resolveNamed type name produces
  | unregister type => exact hhonest.unregister type
  | clear =>
      exact
        { unnamed := fun _ _ hlookup => absurd hlookup (by simp [Container.step, exec, Container.clear])
          named := fun _ _ hlookup => absurd hlookup (by simp [Container.step, exec, Container.clear])
          current := fun hne => absurd rfl hne }

theorem honest_run (typeName : Ty → String) (calls : List (Call Ty)) :
    (run (step typeName) {} calls).Honest :=
  run_induction honest_start (fun _ call hhonest => hhonest.step typeName call) calls

/-! ### Replies -/

theorem Honest.asked (hhonest : c.Honest) (hasked : c.asked call = some (type, info)) :
    info.id.type = type ∧ Own info := by
  cases call with
  | resolve wanted produces =>
      unfold Container.asked at hasked
      cases hlookup : c.registrations.lookup wanted with
      | some found =>
          simp only [hlookup, Option.some.injEq, Prod.mk.injEq] at hasked
          obtain ⟨rfl, rfl⟩ := hasked
          exact hhonest.unnamed _ _ hlookup
      | none =>
          simp only [hlookup] at hasked
          obtain ⟨name, -, hnamed⟩ := Option.bind_eq_some_iff.mp hasked
          obtain ⟨found, hfound, heq⟩ := Option.map_eq_some_iff.mp hnamed
          injection heq with htype hinfo
          subst htype hinfo
          exact hhonest.named _ _ hfound
  | resolveNamed wanted name produces =>
      obtain ⟨found, hfound, heq⟩ := Option.map_eq_some_iff.mp hasked
      injection heq with htype hinfo
      subst htype hinfo
      exact hhonest.named _ _ hfound
  | _ => exact absurd hasked (by simp [Container.asked])

theorem outcome_of_reply (hasked : c.asked call = some (type, info))
    (hreply : (c.exec typeName call).1 = .object (.ok object)) :
    ∃ store next, StoreFrame store ∧ c.step typeName call = next ∧
      Outcome store c type info (.ok object) next := by
  obtain ⟨named, store, produces, hframe, hexec⟩ := exec_of_asked typeName hasked
  have houtcome := resolveInfo_outcome named store c type info produces
  have hresult : (resolveInfo named store c type info produces).1 = .ok object := by
    rw [hexec] at hreply
    exact Reply.object.inj hreply
  have hstep : c.step typeName call = (resolveInfo named store c type info produces).2 := by
    unfold Container.step
    rw [hexec]
    rfl
  rw [hresult] at houtcome
  exact ⟨store, _, hframe, hstep, houtcome⟩

theorem Honest.produced_of_reply (hhonest : c.Honest) (hmatches : c.ScopeMatches call)
    (hasked : c.asked call = some (type, info))
    (hreply : (c.exec typeName call).1 = .object (.ok object)) : info.Produced object := by
  obtain ⟨store, next, -, -, houtcome⟩ := outcome_of_reply hasked hreply
  cases houtcome with
  | singleton hlifetime hinstance => exact (hhonest.asked hasked).2 object hinstance
  | firstSingleton hlifetime hcreator hempty => exact rfl
  | fromScope hlifetime hinstance => exact hmatches type info object hasked hlifetime hinstance
  | firstScoped hlifetime hempty hscope => exact rfl
  | unkept hscope hlifetime => exact rfl

/-- The scope is the only place a foreign object can come from. -/
theorem Honest.rightReply_iff (hhonest : c.Honest) (typeName : Ty → String) (call : Call Ty) :
    RightReply typeName c call ↔ c.ScopeMatches call := by
  constructor
  · intro hright type info object hasked hlifetime hinstance
    obtain ⟨named, store, produces, -, hexec⟩ := exec_of_asked typeName hasked
    have hreply : (c.exec typeName call).1 = .object (.ok object) := by
      rw [hexec, resolveInfo_of_scopeInstance named store hlifetime hinstance]
      rfl
    obtain ⟨type', info', hasked', hproduced⟩ := hright object hreply
    rw [hasked] at hasked'
    injection hasked' with heq
    injection heq with htype hinfo
    rw [hinfo]
    exact hproduced
  · intro hmatches object hreply
    cases hasked : c.asked call with
    | none => exact absurd hreply (exec_of_not_asked typeName hasked object)
    | some pair => exact ⟨pair.1, pair.2, rfl, hhonest.produced_of_reply hmatches hasked hreply⟩

/-! ### The resolutions inside a scope -/

/-- An object returned in a scope, and the registration that was asked for it. -/
structure Resolution (Ty : Type) where
  scope : ScopeId
  registration : RegistrationId Ty
  lifetime : Lifetime
  object : Object Ty

def resolution (typeName : Ty → String) (c : Container Ty) (call : Call Ty) : Option (Resolution Ty) :=
  match c.asked call, (c.exec typeName call).1 with
  | some (_, info), .object (.ok object) =>
      if c.currentScopeId = 0 then none else some ⟨c.currentScopeId, info.id, info.lifetime, object⟩
  | _, _ => none

def resolutions (typeName : Ty → String) : Container Ty → List (Call Ty) → List (Resolution Ty)
  | _, [] => []
  | c, call :: calls =>
      (resolution typeName c call).toList ++ resolutions typeName (c.step typeName call) calls

/-- In one scope, a scoped registration gives one object, and different registrations give different
objects, apart from the instances of callers. -/
def OnePerScope (log : List (Resolution Ty)) : Prop :=
  ∀ first ∈ log, ∀ second ∈ log, first.scope = second.scope →
    (first.registration = second.registration → first.lifetime = .scoped → second.lifetime = .scoped →
        first.object = second.object) ∧
      (first.registration ≠ second.registration → first.object = second.object →
        ∃ instance_, first.object = .given instance_)

theorem resolutions_concat (typeName : Ty → String) (start : Container Ty) (calls : List (Call Ty))
    (call : Call Ty) :
    resolutions typeName start (calls ++ [call]) =
      resolutions typeName start calls ++
        (resolution typeName (run (step typeName) start calls) call).toList := by
  induction calls generalizing start with
  | nil => simp [resolutions]
  | cons first calls ih =>
      rw [List.cons_append, resolutions, ih, resolutions, List.append_assoc]
      rfl

theorem resolution_eq_some {entry : Resolution Ty} (hentry : resolution typeName c call = some entry) :
    ∃ type info object, c.asked call = some (type, info) ∧
      (c.exec typeName call).1 = .object (.ok object) ∧ c.currentScopeId ≠ 0 ∧
      entry = ⟨c.currentScopeId, info.id, info.lifetime, object⟩ := by
  unfold resolution at hentry
  split at hentry
  case h_1 type info object hasked hreply =>
    split at hentry
    · exact absurd hentry (by simp)
    case isFalse hscope =>
      exact ⟨type, info, object, hasked, hreply, hscope, (Option.some.inj hentry).symm⟩
  case h_2 => exact absurd hentry (by simp)

/-- What the scopes held before, they still hold while they exist. -/
structure KeepsScopes (c d : Container Ty) : Prop where
  next_le : c.nextScopeId ≤ d.nextScopeId
  held : ∀ id < c.nextScopeId, ∀ scope', d.scopes.lookup id = some scope' →
    ∃ scope, c.scopes.lookup id = some scope ∧
      ∀ type object, scope.lookup type = some object → scope'.lookup type = some object

theorem keepsScopes_of_eq {d : Container Ty} (hscopes : d.scopes = c.scopes)
    (hnext : d.nextScopeId = c.nextScopeId) : KeepsScopes c d where
  next_le := hnext.ge
  held := by
    intro id _ scope' hlookup
    rw [hscopes] at hlookup
    exact ⟨scope', hlookup, fun _ _ hobject => hobject⟩

theorem keepsScopes_register (c : Container Ty) (type : Ty)
    (make : RegistrationId Ty → RegistrationInfo Ty) : KeepsScopes c (c.register type make).2 := by
  unfold Container.register
  split
  · exact keepsScopes_of_eq rfl rfl
  · exact keepsScopes_of_eq rfl rfl

theorem keepsScopes_keepInScope (hhonest : c.Honest) (hempty : c.scopeInstance type = none)
    (hscope : c.currentScopeId ≠ 0) (object : Object Ty) : KeepsScopes c (c.keepInScope type object) where
  next_le := le_rfl
  held := by
    intro id _ scope' hlookup
    unfold Container.keepInScope at hlookup
    dsimp only at hlookup
    rcases lookup_insert_cases hlookup with ⟨rfl, rfl⟩ | ⟨-, hold⟩
    · obtain ⟨scope, hfound⟩ := Finmap.mem_iff.mp (hhonest.current hscope)
      have hnone : scope.lookup type = none := by
        unfold scopeInstance at hempty
        rwa [if_neg hscope, hfound] at hempty
      refine ⟨scope, hfound, ?_⟩
      intro other held hheld
      have hne : other ≠ type := by
        rintro rfl
        exact absurd (hnone.symm.trans hheld) (by simp)
      rw [hfound, Option.getD_some, Finmap.lookup_insert_of_ne _ hne]
      exact hheld
    · exact ⟨scope', hold, fun _ _ hobject => hobject⟩

theorem Honest.keepsScopes_outcome {store : Container Ty → RegistrationInfo Ty → Container Ty}
    {result : Result (Object Ty)} {d : Container Ty} (hhonest : c.Honest) (hframe : StoreFrame store)
    (houtcome : Outcome store c type info result d) : KeepsScopes c d := by
  cases houtcome with
  | firstSingleton hlifetime hcreator hempty =>
      exact keepsScopes_of_eq (hframe.scopes _ _) (hframe.nextScopeId _ _)
  | firstScoped hlifetime hempty hscope =>
      have hkeeps := @keepsScopes_keepInScope Ty _ (c.produced info).2 type { hhonest with } hempty hscope
        (c.produced info).1
      exact ⟨hkeeps.next_le, hkeeps.held⟩
  | _ => exact keepsScopes_of_eq rfl rfl

theorem Honest.keepsScopes_resolveNamed (hhonest : c.Honest) (type : Ty) (name : String)
    (produces : Bool) : KeepsScopes c (c.resolveNamed type name produces).2 := by
  unfold Container.resolveNamed
  cases c.namedRegistrations.lookup (type, name) with
  | none => exact keepsScopes_of_eq rfl rfl
  | some info =>
      exact hhonest.keepsScopes_outcome (storeNamed_frame type name)
        (resolveInfo_outcome _ _ c type info produces)

theorem Honest.keepsScopes_resolve (hhonest : c.Honest) (typeName : Ty → String) (type : Ty)
    (produces : Bool) : KeepsScopes c (c.resolve typeName type produces).2 := by
  unfold Container.resolve
  cases c.registrations.lookup type with
  | none =>
      cases c.primaryImpls.lookup type with
      | none => exact keepsScopes_of_eq rfl rfl
      | some name => exact hhonest.keepsScopes_resolveNamed type name produces
  | some info =>
      exact hhonest.keepsScopes_outcome (storeUnnamed_frame type)
        (resolveInfo_outcome _ _ c type info produces)

theorem keepsScopes_createScope (c : Container Ty) : KeepsScopes c c.createScope.2 where
  next_le := Nat.le_succ _
  held := by
    intro id hlt scope' hlookup
    unfold Container.createScope at hlookup
    dsimp only at hlookup
    rw [Finmap.lookup_insert_of_ne _ (Nat.ne_of_lt hlt)] at hlookup
    exact ⟨scope', hlookup, fun _ _ hobject => hobject⟩

theorem keepsScopes_disposeScope (c : Container Ty) (scopeId : ScopeId) :
    KeepsScopes c (c.disposeScope scopeId) := by
  unfold Container.disposeScope
  split
  · exact keepsScopes_of_eq rfl rfl
  · refine ⟨le_rfl, ?_⟩
    intro id _ scope' hlookup
    exact ⟨scope', lookup_of_lookup_erase hlookup, fun _ _ hobject => hobject⟩

theorem keepsScopes_bind (c : Container Ty) (type : Ty) (lifetime : Lifetime) :
    KeepsScopes c (c.bind type lifetime).2 :=
  keepsScopes_register c type _

theorem keepsScopes_bindInstance (c : Container Ty) (type : Ty) (instance_ : Option Nat) :
    KeepsScopes c (c.bindInstance type instance_).2 :=
  keepsScopes_register c type _

theorem Honest.keepsScopes_step (hhonest : c.Honest) (typeName : Ty → String) (call : Call Ty) :
    KeepsScopes c (c.step typeName call) := by
  cases call with
  | bind type lifetime => exact keepsScopes_bind c type lifetime
  | bindInstance type instance_ => exact keepsScopes_bindInstance c type instance_
  | bindSingleton type => exact keepsScopes_bind c type .singleton
  | bindScoped type => exact keepsScopes_bind c type .scoped
  | bindTransient type => exact keepsScopes_bind c type .transient
  | bindNamed type name lifetime =>
      change KeepsScopes c (c.bindNamed type name lifetime).2
      unfold Container.bindNamed
      split
      · exact keepsScopes_of_eq rfl rfl
      · split
        · exact keepsScopes_of_eq rfl rfl
        · exact keepsScopes_of_eq rfl rfl
  | setPrimary type name =>
      change KeepsScopes c (c.setPrimary type name).2
      unfold Container.setPrimary
      split
      · exact keepsScopes_of_eq rfl rfl
      · exact keepsScopes_of_eq rfl rfl
  | createScope => exact keepsScopes_createScope c
  | disposeScope scopeId => exact keepsScopes_disposeScope c scopeId
  | resolve type produces => exact hhonest.keepsScopes_resolve typeName type produces
  | resolveNamed type name produces => exact hhonest.keepsScopes_resolveNamed type name produces
  | unregister type =>
      change KeepsScopes c (c.unregister type)
      unfold Container.unregister
      split
      · exact keepsScopes_of_eq rfl rfl
      · exact keepsScopes_of_eq rfl rfl
  | clear =>
      refine ⟨le_rfl, ?_⟩
      intro id _ scope' hlookup
      exact absurd hlookup (by simp [Container.step, exec, Container.clear])

/-! ### Runs -/

/-- What the resolutions so far say about the state. -/
structure Logged (c : Container Ty) (log : List (Resolution Ty)) : Prop where
  scope_lt : ∀ entry ∈ log, entry.scope < c.nextScopeId
  held : ∀ entry ∈ log, entry.lifetime = .scoped → ∀ scope, c.scopes.lookup entry.scope = some scope →
    scope.lookup entry.registration.type = some entry.object
  producer_eq : ∀ entry ∈ log, ∀ serial producer, entry.object = .created serial producer →
    producer = entry.registration
  onePerScope : OnePerScope log

theorem Logged.keepsScopes {log : List (Resolution Ty)} {d : Container Ty} (hlogged : Logged c log)
    (hkeeps : KeepsScopes c d) : Logged d log where
  scope_lt := fun entry hentry => (hlogged.scope_lt entry hentry).trans_le hkeeps.next_le
  held := by
    intro entry hentry hlifetime scope' hlookup
    obtain ⟨scope, hscope, hsame⟩ := hkeeps.held _ (hlogged.scope_lt entry hentry) scope' hlookup
    exact hsame _ _ (hlogged.held entry hentry hlifetime scope hscope)
  producer_eq := hlogged.producer_eq
  onePerScope := hlogged.onePerScope

/-- After a scoped registration was resolved in a scope, the scope holds the object that was returned;
if it held an object of the type before, it is that one. -/
theorem scoped_reply (hasked : c.asked call = some (type, info))
    (hreply : (c.exec typeName call).1 = .object (.ok object)) (hscope : c.currentScopeId ≠ 0)
    (hlifetime : info.lifetime = .scoped) :
    (∀ scope, (c.step typeName call).scopes.lookup c.currentScopeId = some scope →
        scope.lookup type = some object) ∧
      ∀ scope held, c.scopes.lookup c.currentScopeId = some scope → scope.lookup type = some held →
        object = held := by
  have hinstance : ∀ scope, c.scopes.lookup c.currentScopeId = some scope →
      c.scopeInstance type = scope.lookup type := by
    intro scope hfound
    unfold scopeInstance
    rw [if_neg hscope, hfound]
    rfl
  obtain ⟨store, next, hframe, hstep, houtcome⟩ := outcome_of_reply hasked hreply
  rw [hstep]
  cases houtcome with
  | singleton hsingleton hobject => exact absurd (hlifetime.symm.trans hsingleton) (by simp)
  | firstSingleton hsingleton hcreator hempty => exact absurd (hlifetime.symm.trans hsingleton) (by simp)
  | fromScope hscoped hcached =>
      refine ⟨fun scope hfound => (hinstance scope hfound).symm.trans hcached, ?_⟩
      intro scope held hfound hheld
      rw [hinstance scope hfound, hheld] at hcached
      exact (Option.some.inj hcached).symm
  | firstScoped hscoped hempty hactive =>
      constructor
      · intro scope hfound
        change ((c.produced info).2.scopes.insert c.currentScopeId _).lookup c.currentScopeId = _ at hfound
        rw [Finmap.lookup_insert, Option.some.injEq] at hfound
        rw [← hfound, Finmap.lookup_insert]
      · intro scope held hfound hheld
        rw [hinstance scope hfound, hheld] at hempty
        exact absurd hempty (by simp)
  | unkept hunscoped hsingleton => exact absurd (hunscoped hlifetime) hscope

omit [DecidableEq Ty] in
theorem producer_of_produced (hproduced : info.Produced object) {serial : Nat}
    {producer : RegistrationId Ty} (hobject : object = .created serial producer) : producer = info.id := by
  subst hobject
  exact hproduced

omit [DecidableEq Ty] in
/-- An object two registrations would both have produced is an instance of the caller. -/
theorem given_of_produced_twice {first second : RegistrationId Ty}
    (hfirst : ∀ serial producer, object = .created serial producer → producer = first)
    (hsecond : ∀ serial producer, object = .created serial producer → producer = second)
    (hne : first ≠ second) : ∃ instance_, object = .given instance_ := by
  cases object with
  | created serial producer =>
      exact absurd ((hfirst serial producer rfl).symm.trans (hsecond serial producer rfl)) hne
  | given instance_ => exact ⟨instance_, rfl⟩

/-- How an earlier resolution of the same scope compares with a new one. -/
structure Compares (old new : Resolution Ty) : Prop where
  one : old.registration = new.registration → old.lifetime = .scoped → new.lifetime = .scoped →
    old.object = new.object
  distinct : old.registration ≠ new.registration → old.object = new.object →
    ∃ instance_, old.object = .given instance_

omit [DecidableEq Ty] in
theorem OnePerScope.concat {log : List (Resolution Ty)} {entry : Resolution Ty}
    (hone : OnePerScope log) (hcompares : ∀ old ∈ log, old.scope = entry.scope → Compares old entry) :
    OnePerScope (log ++ [entry]) := by
  intro first hfirst second hsecond hsame
  rcases List.mem_append.mp hfirst with hold | hnew <;>
    rcases List.mem_append.mp hsecond with hold' | hnew'
  · exact hone first hold second hold' hsame
  · rw [List.mem_singleton] at hnew'
    subst hnew'
    have hcompare := hcompares first hold hsame
    exact ⟨hcompare.one, hcompare.distinct⟩
  · rw [List.mem_singleton] at hnew
    subst hnew
    have hcompare := hcompares second hold' hsame.symm
    refine ⟨fun hregistration hscoped hscoped' => (hcompare.one hregistration.symm hscoped' hscoped).symm, ?_⟩
    intro hne heq
    obtain ⟨instance_, hgiven⟩ := hcompare.distinct (Ne.symm hne) heq.symm
    exact ⟨instance_, heq.trans hgiven⟩
  · rw [List.mem_singleton] at hnew hnew'
    subst hnew hnew'
    exact ⟨fun _ _ _ => rfl, fun hne => absurd rfl hne⟩

theorem Logged.concat {log : List (Resolution Ty)} {entry : Resolution Ty} (hlogged : Logged c log)
    (hlt : entry.scope < c.nextScopeId)
    (hheld : entry.lifetime = .scoped → ∀ scope, c.scopes.lookup entry.scope = some scope →
      scope.lookup entry.registration.type = some entry.object)
    (hproducer : ∀ serial producer, entry.object = .created serial producer →
      producer = entry.registration)
    (hcompares : ∀ old ∈ log, old.scope = entry.scope → Compares old entry) :
    Logged c (log ++ [entry]) where
  scope_lt := by
    intro other hmem
    rcases List.mem_append.mp hmem with hold | hnew
    · exact hlogged.scope_lt other hold
    · rwa [List.mem_singleton.mp hnew]
  held := by
    intro other hmem
    rcases List.mem_append.mp hmem with hold | hnew
    · exact hlogged.held other hold
    · rwa [List.mem_singleton.mp hnew]
  producer_eq := by
    intro other hmem
    rcases List.mem_append.mp hmem with hold | hnew
    · exact hlogged.producer_eq other hold
    · rwa [List.mem_singleton.mp hnew]
  onePerScope := hlogged.onePerScope.concat hcompares

theorem Logged.compares {log : List (Resolution Ty)} (hlogged : Logged c log) (hhonest : c.Honest)
    (hmatches : c.ScopeMatches call) (hasked : c.asked call = some (type, info))
    (hreply : (c.exec typeName call).1 = .object (.ok object)) (hscope : c.currentScopeId ≠ 0)
    {old : Resolution Ty} (hold : old ∈ log) (hsame : old.scope = c.currentScopeId) :
    Compares old ⟨c.currentScopeId, info.id, info.lifetime, object⟩ where
  one := by
    intro hregistration holdScoped hscoped
    obtain ⟨scope, hfound⟩ := Finmap.mem_iff.mp (hhonest.current hscope)
    have hheld := hlogged.held old hold holdScoped scope (by rw [hsame]; exact hfound)
    rw [hregistration, (hhonest.asked hasked).1] at hheld
    exact ((scoped_reply hasked hreply hscope hscoped).2 scope old.object hfound hheld).symm
  distinct := by
    intro hne heq
    have hproduced := hhonest.produced_of_reply hmatches hasked hreply
    apply given_of_produced_twice (hlogged.producer_eq old hold) _ hne
    intro serial producer hobject
    exact producer_of_produced hproduced (heq.symm.trans hobject)

theorem Logged.step {log : List (Resolution Ty)} (hlogged : Logged c log) (hhonest : c.Honest)
    (hcurrent : c.currentScopeId < c.nextScopeId) (hmatches : c.ScopeMatches call) :
    Logged (c.step typeName call) (log ++ (resolution typeName c call).toList) := by
  have hkeeps := hhonest.keepsScopes_step typeName call
  have hkept := hlogged.keepsScopes hkeeps
  cases hentry : resolution typeName c call with
  | none =>
      rw [Option.toList_none, List.append_nil]
      exact hkept
  | some entry =>
      obtain ⟨type, info, object, hasked, hreply, hscope, rfl⟩ := resolution_eq_some hentry
      rw [Option.toList_some]
      apply hkept.concat
      · exact hcurrent.trans_le hkeeps.next_le
      · intro hscoped scope hfound
        dsimp only at hscoped hfound ⊢
        rw [(hhonest.asked hasked).1]
        exact (scoped_reply hasked hreply hscope hscoped).1 scope hfound
      · intro serial producer hobject
        exact producer_of_produced (hhonest.produced_of_reply hmatches hasked hreply) hobject
      · intro old hold hsame
        exact hlogged.compares hhonest hmatches hasked hreply hscope hold hsame

theorem logged_run (typeName : Ty → String) {calls : List (Call Ty)}
    (hmatches : Along (step typeName) ScopeMatches {} calls) :
    Logged (run (step typeName) {} calls) (resolutions typeName {} calls) := by
  induction calls using List.reverseRecOn with
  | nil =>
      exact ⟨fun _ hentry => absurd hentry (by simp [resolutions]),
        fun _ hentry => absurd hentry (by simp [resolutions]),
        fun _ hentry => absurd hentry (by simp [resolutions]),
        fun _ hentry => absurd hentry (by simp [resolutions])⟩
  | append_singleton calls call ih =>
      rw [along_concat] at hmatches
      rw [run_concat, resolutions_concat]
      exact (ih hmatches.1).step (honest_run typeName calls)
        (conserved_run typeName calls).current_lt hmatches.2

def RightReplies (typeName : Ty → String) (calls : List (Call Ty)) : Prop :=
  ∀ n call, calls[n]? = some call → RightReply typeName (run (step typeName) {} (calls.take n)) call

theorem rightReplies_iff (typeName : Ty → String) (calls : List (Call Ty)) :
    RightReplies typeName calls ↔ Along (step typeName) ScopeMatches {} calls := by
  constructor
  · intro hright
    induction calls using List.reverseRecOn with
    | nil => trivial
    | append_singleton calls call ih =>
        rw [along_concat]
        constructor
        · apply ih
          intro n other hother
          have hlt : n < calls.length := (List.getElem?_eq_some_iff.mp hother).1
          have hreply := hright n other (by rw [List.getElem?_append_left hlt]; exact hother)
          rwa [List.take_append_of_le_length hlt.le] at hreply
        · have hreply := hright calls.length call (by simp)
          rw [List.take_left] at hreply
          exact ((honest_run typeName calls).rightReply_iff typeName call).mp hreply
  · intro halong n call hcall
    exact ((honest_run typeName _).rightReply_iff typeName call).mpr (halong.getElem? hcall)

/-- The objects come from the registrations that are asked, one per scope for a scoped one, exactly in
the runs where every scoped registration finds nothing of its type in the current scope, or its own
object. -/
theorem qualified_iff_scopeMatches (typeName : Ty → String) (calls : List (Call Ty)) :
    (RightReplies typeName calls ∧ OnePerScope (resolutions typeName {} calls)) ↔
      Along (step typeName) ScopeMatches {} calls := by
  rw [rightReplies_iff]
  constructor
  · intro hboth
    exact hboth.1
  · intro hmatches
    exact ⟨hmatches, (logged_run typeName hmatches).onePerScope⟩

/-! ### Two names, one scope -/

def twoNames : List (Call Nat) :=
  [.bindNamed 0 "a" .scoped, .bindNamed 0 "b" .scoped, .createScope, .resolveNamed 0 "a" true,
    .resolveNamed 0 "b" true]

/-- The second resolution returns the object of the first one. -/
theorem scope_mixes_names :
    ¬ (RightReplies (fun _ => "T") twoNames ∧ OnePerScope (resolutions (fun _ => "T") {} twoNames)) := by
  rintro ⟨hright, -⟩
  have hreply := hright 4 (.resolveNamed 0 "b" true) rfl (.created 0 ⟨0, 0⟩) rfl
  obtain ⟨type, info, hasked, hproduced⟩ := hreply
  have hinfo : (run (step fun _ => "T") {} (twoNames.take 4)).asked (.resolveNamed 0 "b" true) =
      some (0, { id := ⟨0, 1⟩, lifetime := .scoped }) := rfl
  rw [hinfo] at hasked
  injection hasked with hpair
  injection hpair with htype hsame
  subst hsame
  exact absurd hproduced (by simp [RegistrationInfo.Produced])

end Container

end SoulCoreKit.Di
