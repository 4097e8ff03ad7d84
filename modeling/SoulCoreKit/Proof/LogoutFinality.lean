import SoulCoreKit.Lib.Run
import SoulCoreKit.Auth.AuthManager

/-!
# Whether a logout is final

A call that changes the manager's state writes the session and the stored token afterwards. So long as some
call has a write to come, the copy may differ from the state; what a call writes must be what the state
asks for at that moment, or else another call has to have its own write to come. Nothing in the source
sees to that: a login that is overtaken by a logout writes its token into the session of nobody.
-/

namespace SoulCoreKit.Auth.AuthManager

/-! ### The copies of the login state -/

def Action.changes : Action → Bool
  | .update _ => true
  | .reset => true
  | .updateToken _ => true
  | _ => false

def Action.writesSession : Action → Bool
  | .setToken _ => true
  | .clear => true
  | _ => false

/-- A call that reads the state has still to write what it reads. -/
def Action.writesToken : Action → Bool
  | .readState => true
  | .put key _ => key == "auth_token"
  | .remove key => key == "auth_token"
  | _ => false

/-- The write to the session is the one that the state asks for. -/
def sessionFits (state : State) : Action → Bool
  | .setToken token => (token != "") == state.mAuthenticated
  | .clear => !state.mAuthenticated
  | _ => true

/-- The write of the stored token is the one that the state asks for. -/
def tokenFits (state : State) : Action → Bool
  | .put key token =>
      key != "auth_token" || state.mAuthenticated && token == state.mUserInfo.token
  | .remove key => key != "auth_token" || !state.mAuthenticated
  | _ => true

def SessionAgrees (state : State) : Prop :=
  state.session.mToken ≠ "" ↔ state.mAuthenticated = true

def TokenAgrees (state : State) : Prop :=
  state.mStorage.lookup "auth_token" =
    if state.mAuthenticated then some state.mUserInfo.token else none

/-- A copy of the login state, the actions that write it and when it agrees with the state. Writing what
fits makes it agree, and only its own writes and changes of the state can end that. -/
structure Copy where
  writes : Action → Bool
  fits : State → Action → Bool
  Agrees : State → Prop
  agrees_calls : ∀ state calls, Agrees { state with calls := calls } ↔ Agrees state
  expand_or_agrees : ∀ env state action, writes action = true → fits state action = true →
    (expand env state action).any writes = true ∨ Agrees (effect state action)
  agrees_effect : ∀ state action, writes action = false → action.changes = false → Agrees state →
    Agrees (effect state action)

def session : Copy where
  writes := Action.writesSession
  fits := sessionFits
  Agrees := SessionAgrees
  agrees_calls _ _ := Iff.rfl
  expand_or_agrees := by
    intro env state action hwrites hfits
    cases action with
    | setToken token =>
        right
        have hstate : (token != "") = state.mAuthenticated := by simpa [sessionFits] using hfits
        simp [SessionAgrees, effect, ← hstate]
    | clear =>
        right
        have hstate : state.mAuthenticated = false := by simpa [sessionFits] using hfits
        simp [SessionAgrees, effect, hstate]
    | _ => exact absurd hwrites (by simp [Action.writesSession])
  agrees_effect := by
    intro state action hwrites hchanges hagrees
    cases action with
    | setToken token => exact absurd hwrites (by simp [Action.writesSession])
    | clear => exact absurd hwrites (by simp [Action.writesSession])
    | update info => exact absurd hchanges (by simp [Action.changes])
    | reset => exact absurd hchanges (by simp [Action.changes])
    | updateToken newToken => exact absurd hchanges (by simp [Action.changes])
    | _ => exact hagrees

def storedToken : Copy where
  writes := Action.writesToken
  fits := tokenFits
  Agrees := TokenAgrees
  agrees_calls _ _ := Iff.rfl
  expand_or_agrees := by
    intro env state action hwrites hfits
    cases action with
    | readState =>
        left
        unfold expand saveAuthState
        cases state.mAuthenticated <;> rfl
    | put key token =>
        right
        obtain rfl : key = "auth_token" := by simpa [Action.writesToken] using hwrites
        obtain ⟨hauthenticated, rfl⟩ : state.mAuthenticated = true ∧ token = state.mUserInfo.token := by
          simpa [tokenFits] using hfits
        simp [TokenAgrees, effect, hauthenticated]
    | remove key =>
        right
        obtain rfl : key = "auth_token" := by simpa [Action.writesToken] using hwrites
        have hauthenticated : state.mAuthenticated = false := by simpa [tokenFits] using hfits
        simp [TokenAgrees, effect, hauthenticated]
    | _ => exact absurd hwrites (by simp [Action.writesToken])
  agrees_effect := by
    intro state action hwrites hchanges hagrees
    cases action with
    | put key token =>
        have hne : "auth_token" ≠ key := by
          rintro rfl
          simp [Action.writesToken] at hwrites
        exact (Finmap.lookup_insert_of_ne _ hne).trans hagrees
    | remove key =>
        have hne : "auth_token" ≠ key := by
          rintro rfl
          simp [Action.writesToken] at hwrites
        exact (Finmap.lookup_erase_ne hne).trans hagrees
    | update info => exact absurd hchanges (by simp [Action.changes])
    | reset => exact absurd hchanges (by simp [Action.changes])
    | updateToken newToken => exact absurd hchanges (by simp [Action.changes])
    | _ => exact hagrees

/-! ### Calls that still have to write -/

/-- Every change of the state is followed by a write of each copy. -/
def Covered : List Action → Prop
  | [] => True
  | action :: rest =>
      (action.changes = true →
        rest.any Action.writesSession = true ∧ rest.any Action.writesToken = true) ∧ Covered rest

theorem Covered.of_quiet {actions rest : List Action} (hquiet : actions.any Action.changes = false)
    (hrest : Covered rest) : Covered (actions ++ rest) := by
  induction actions with
  | nil => exact hrest
  | cons action actions ih =>
      rw [List.any_cons, Bool.or_eq_false_iff] at hquiet
      refine ⟨?_, ih hquiet.2⟩
      intro hchanges
      rw [hquiet.1] at hchanges
      exact absurd hchanges (by simp)

theorem covered_loginAccepted (info : UserInfo) {rest : List Action} (hrest : Covered rest) :
    Covered (loginAccepted info ++ rest) := by
  simp [loginAccepted, Covered, Action.changes, Action.writesSession, Action.writesToken, hrest]

theorem covered_refreshed (newToken : String) {rest : List Action} (hrest : Covered rest) :
    Covered (refreshed newToken ++ rest) := by
  simp [refreshed, Covered, Action.changes, Action.writesSession, Action.writesToken, hrest]

theorem covered_expand (env : Env) (state : State) (action : Action) {rest : List Action}
    (hrest : Covered rest) : Covered (expand env state action ++ rest) := by
  cases action with
  | readValidator username password =>
      simp only [expand]
      cases (env.mLoginValidator.getD testLogin) username password with
      | error error => exact Covered.of_quiet rfl hrest
      | ok info => exact covered_loginAccepted info hrest
  | readRefreshToken =>
      simp only [expand]
      by_cases hempty : state.mUserInfo.refreshToken.isEmpty = true
      · rw [if_pos hempty]
        exact Covered.of_quiet rfl hrest
      · rw [if_neg hempty]
        exact covered_refreshed _ hrest
  | readState =>
      unfold expand saveAuthState
      cases state.mAuthenticated <;> exact Covered.of_quiet rfl hrest
  | _ => exact hrest

theorem covered_request (request : Request) : Covered request.todo := by
  cases request with
  | login username password =>
      simp only [Request.todo, login]
      by_cases hempty : username.isEmpty = true ∨ password.isEmpty = true
      · rw [if_pos hempty]
        simp [Covered, Action.changes]
      · rw [if_neg hempty]
        simp [Covered, Action.changes]
  | logout =>
      simp [Request.todo, logout, Covered, Action.changes, Action.writesSession,
        Action.writesToken]
  | refreshToken => simp [Request.todo, refreshToken, Covered, Action.changes]

/-- Another call than this one still has to write the copy. -/
def Awaited (writes : Action → Bool) (state : State) (id : Nat) : Prop :=
  (state.calls.eraseIdx id).any (fun call => call.todo.any writes) = true

/-- What a call is about to do. -/
def nextAction (state : State) (id : Nat) : Option Action :=
  (state.calls[id]?).bind fun call => call.todo.head?

/-- What a step writes is what the state asks for, or another call still has to write there. -/
def Timely (state : State) : Op → Prop
  | .call _ => True
  | .step id _ => ∀ action ∈ nextAction state id,
      (sessionFits state action = true ∨ Awaited Action.writesSession state id) ∧
        (tokenFits state action = true ∨ Awaited Action.writesToken state id)

instance (writes : Action → Bool) (state : State) (id : Nat) : Decidable (Awaited writes state id) :=
  inferInstanceAs (Decidable (_ = true))

instance decidableTimely (state : State) : ∀ op, Decidable (Timely state op)
  | .call _ => isTrue trivial
  | .step id _ => inferInstanceAs (Decidable (∀ action ∈ nextAction state id, _ ∧ _))

theorem any_set {α : Type} {l : List α} {i : Nat} (hlt : i < l.length) (x : α) (p : α → Bool) :
    (l.set i x).any p = (p x || (l.eraseIdx i).any p) := by
  induction l generalizing i with
  | nil => exact absurd hlt (Nat.not_lt_zero i)
  | cons y l ih =>
      cases i with
      | zero => rfl
      | succ i =>
          rw [List.set_cons_succ, List.any_cons, ih (Nat.lt_of_succ_lt_succ hlt),
            List.eraseIdx_cons_succ, List.any_cons, Bool.or_left_comm]

theorem any_of_getElem? {α : Type} {l : List α} {i : Nat} {x : α} (hget : l[i]? = some x)
    (p : α → Bool) : l.any p = (p x || (l.eraseIdx i).any p) := by
  obtain ⟨hlt, rfl⟩ := List.getElem?_eq_some_iff.mp hget
  conv_lhs => rw [← List.set_getElem_self hlt]
  exact any_set hlt _ p

@[simp]
theorem todo_after (call : Call) (env : Env) (state : State) (rest : List Action) (action : Action) :
    (call.after env state rest action).todo = expand env state action ++ rest := by
  cases action <;> rfl

namespace Copy

variable (copy : Copy)

/-- The copy agrees with the state, or some call still has to write it. -/
def Kept (state : State) : Prop :=
  state.calls.any (fun call => call.todo.any copy.writes) = true ∨ copy.Agrees state

/-- One part of a call keeps the copy, where the call's own write is the one that the state asks for or
another write is to come. -/
theorem Kept.proceed {copy : Copy} {env : Env} {state : State} {id : Nat} {call : Call}
    {action : Action} {rest : List Action} (hkept : copy.Kept state)
    (hcall : state.calls[id]? = some call) (htodo : call.todo = action :: rest)
    (hcovered : action.changes = true → rest.any copy.writes = true)
    (hfits : copy.fits state action = true ∨ Awaited copy.writes state id) :
    copy.Kept (proceed env state id call) := by
  have hlt : id < state.calls.length := (List.getElem?_eq_some_iff.mp hcall).1
  have hbefore := any_of_getElem? hcall fun call => call.todo.any copy.writes
  have hproceed : AuthManager.proceed env state id call =
      { effect state action with
        calls := state.calls.set id (call.after env state rest action) } := by
    unfold AuthManager.proceed
    rw [htodo]
  have hafter := any_set hlt (call.after env state rest action) fun call => call.todo.any copy.writes
  rw [hproceed]
  unfold Kept at hkept ⊢
  rw [copy.agrees_calls, hafter]
  rw [hbefore] at hkept
  simp only [todo_after, htodo, List.any_append, List.any_cons, Bool.or_eq_true] at hkept ⊢
  -- another call, or the rest of this one, still has to write
  by_cases hother : Awaited copy.writes state id
  · exact .inl (.inr hother)
  by_cases hrest : rest.any copy.writes = true
  · exact .inl (.inl (.inr hrest))
  have hfits := hfits.resolve_right hother
  by_cases hwrites : copy.writes action = true
  · cases copy.expand_or_agrees env state action hwrites hfits with
    | inl hexpand => exact .inl (.inl (.inl hexpand))
    | inr hagrees => exact .inr hagrees
  · have hquiet : action.changes = false := by
      rw [← Bool.not_eq_true]
      exact fun hchanges => hrest (hcovered hchanges)
    refine .inr (copy.agrees_effect state action (Bool.not_eq_true _ ▸ hwrites) hquiet ?_)
    refine hkept.resolve_left ?_
    rintro ((hpending | hpending) | hpending)
    · exact hwrites hpending
    · exact hrest hpending
    · exact hother hpending

theorem Kept.call {copy : Copy} {state : State} (hkept : copy.Kept state) (request : Request) :
    copy.Kept (exec state (.call request)) := by
  unfold Kept exec at *
  rw [copy.agrees_calls]
  cases hkept with
  | inl hpending => exact .inl (by rw [List.any_append, hpending, Bool.true_or])
  | inr hagrees => exact .inr hagrees

end Copy

/-- Every copy agrees with the state or has a write to come, and every change to come has a write of each
copy after it. -/
structure Inv (state : State) : Prop where
  covered : ∀ call ∈ state.calls, Covered call.todo
  session : session.Kept state
  storedToken : storedToken.Kept state

theorem Inv.exec {state : State} (hinv : Inv state) {op : Op} (htimely : Timely state op) :
    Inv (exec state op) := by
  cases op with
  | call request =>
      refine ⟨?_, hinv.session.call request, hinv.storedToken.call request⟩
      intro call hcall
      rcases List.mem_append.mp hcall with hold | hnew
      · exact hinv.covered call hold
      · rw [List.mem_singleton.mp hnew]
        exact covered_request request
  | step id env =>
      cases hcall : state.calls[id]? with
      | none => simpa [AuthManager.exec, hcall] using hinv
      | some call =>
          cases htodo : call.todo with
          | nil => simpa [AuthManager.exec, hcall, proceed, htodo] using hinv
          | cons action rest =>
              have hexec : AuthManager.exec state (.step id env) = proceed env state id call := by
                simp [AuthManager.exec, hcall]
              have hcovered := hinv.covered call (List.mem_of_getElem? hcall)
              rw [htodo] at hcovered
              obtain ⟨hfits, hfits'⟩ := htimely action (by simp [nextAction, hcall, htodo])
              rw [hexec]
              refine ⟨?_, hinv.session.proceed hcall htodo (fun h => (hcovered.1 h).1) hfits,
                hinv.storedToken.proceed hcall htodo (fun h => (hcovered.1 h).2) hfits'⟩
              intro other hother
              rw [proceed, htodo] at hother
              rcases List.mem_or_eq_of_mem_set hother with hold | hnew
              · exact hinv.covered other hold
              · rw [hnew, todo_after]
                exact covered_expand env state action hcovered.2

/-- All calls have returned. -/
def Quiet (state : State) : Prop := ∀ call ∈ state.calls, call.todo = []

instance (state : State) : Decidable (Quiet state) :=
  inferInstanceAs (Decidable (∀ call ∈ state.calls, call.todo = []))

/-- The copies of the login state agree. -/
def Agree (state : State) : Prop :=
  ("auth_token" ∈ state.mStorage ↔ state.mAuthenticated = true) ∧
    (state.mAuthenticated = true →
      state.mStorage.lookup "auth_token" = some state.mUserInfo.token) ∧
    (state.session.mToken ≠ "" ↔ state.mAuthenticated = true)

theorem Agree.inv {state : State} (hagree : Agree state) (hcalls : state.calls = []) : Inv state := by
  obtain ⟨hstored, htoken, hsession⟩ := hagree
  refine ⟨by simp [hcalls], .inr hsession, .inr ?_⟩
  change state.mStorage.lookup "auth_token" = _
  by_cases hauthenticated : state.mAuthenticated = true
  · rw [htoken hauthenticated, if_pos hauthenticated]
  · rw [if_neg hauthenticated, Finmap.lookup_eq_none, hstored]
    exact hauthenticated

theorem Inv.agree {state : State} (hinv : Inv state) (hquiet : Quiet state) : Agree state := by
  have hidle : ∀ writes : Action → Bool, ¬state.calls.any (fun call => call.todo.any writes) = true := by
    intro writes hpending
    obtain ⟨call, hcall, hwrites⟩ := List.any_eq_true.mp hpending
    rw [hquiet call hcall] at hwrites
    exact absurd hwrites (by simp)
  have hstored : TokenAgrees state := hinv.storedToken.resolve_left (hidle _)
  unfold TokenAgrees at hstored
  refine ⟨?_, ?_, hinv.session.resolve_left (hidle _)⟩
  · rw [← Finmap.lookup_isSome, hstored]
    cases state.mAuthenticated <;> simp
  · intro hauthenticated
    rw [hstored, if_pos hauthenticated]

/-- Where every write of a run is timely, the copies agree whenever all calls have returned. -/
theorem agree_of_timely {start : State} (hagree : Agree start) (hcalls : start.calls = [])
    {ops : List Op} (htimely : Along exec Timely start ops) (n : Nat)
    (hquiet : Quiet (run exec start (ops.take n))) : Agree (run exec start (ops.take n)) :=
  (htimely.always (P := Inv) (hagree.inv hcalls) (fun _ _ hinv hop => hinv.exec hop) n).agree hquiet

theorem agree_initial : Agree {} := by
  simp [Agree, Finmap.notMem_empty]

/-- A number of steps of one call, without a validator of the application. -/
def steps (id count : Nat) : List Op := List.replicate count (.step id {})

/-- A logout that begins when a login has written its token and has still to write the other fields. -/
def orderly : List Op :=
  .call (.login "testuser" "password") :: steps 0 7 ++ .call .logout :: steps 1 3 ++ steps 0 5 ++
    steps 1 6

theorem agree_of_timely_orderly : Agree (run exec {} orderly) := by
  have htimely : Along exec Timely {} orderly := by decide
  have hquiet : Quiet (run exec {} (orderly.take 23)) := by decide
  exact agree_of_timely agree_initial rfl htimely 23 hquiet

/-- A logout overtakes a login: the login has changed the state, the logout then runs to its end, and the
login goes on to write its token into the session. -/
def overtaken : List Op :=
  .call (.login "testuser" "password") :: steps 0 2 ++ .call .logout :: steps 1 9 ++ steps 0 10

theorem not_agree_overtaken :
    Agree {} ∧ Quiet (run exec {} overtaken) ∧ ¬Agree (run exec {} overtaken) := by
  refine ⟨agree_initial, by decide, ?_⟩
  rintro ⟨-, -, hsession⟩
  have hloggedOut : (run exec {} overtaken).mAuthenticated = false := by decide
  have htoken : (run exec {} overtaken).session.mToken ≠ "" := by decide
  exact absurd (hsession.mp htoken) (by simp [hloggedOut])

end SoulCoreKit.Auth.AuthManager
