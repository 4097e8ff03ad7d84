import SoulCoreKit.Core.Result
import SoulCoreKit.Lib.UnorderedMap

/-!
# The authentication manager

`sc::AuthManager` with the `Session` and the storage it keeps in step with itself, called by several
threads. A call is the list of what it has still to do, each entry what happens between two releases of a
lock; a read under the lock replaces itself by what the call does with it. Any call in progress may make
the next step. The storage is open and its writes succeed. What the validator and the clock give is part of
the step. The callback is not the manager's: what it calls is a call of its own.
-/

namespace SoulCoreKit.Auth

structure UserInfo where
  userId : String := ""
  username : String := ""
  email : String := ""
  role : String := ""
  token : String := ""
  refreshToken : String := ""
  expiresIn : Int := 0
  deriving DecidableEq, Repr

namespace AuthManager

/-- What a call returns. -/
inductive Reply where
  | login (result : Result UserInfo)
  | logout
  | refreshToken (result : Result String)

/-- A part of a call. -/
inductive Action where
  | readValidator (username password : String)
  | update (info : UserInfo)
  | reset
  | readRefreshToken
  | updateToken (newToken : String)
  | setToken (token : String)
  | set (key value : String)
  | clear
  | readState
  | put (key value : String)
  | remove (key : String)
  | notifyAuthStateChanged (authenticated : Bool)
  | done (reply : Reply)

structure Session where
  mToken : String := ""
  mData : UnorderedMap String String := ∅

/-- A call: what it has still to do, and what it has returned. -/
structure Call where
  todo : List Action
  reply : Option Reply := none

/-- The manager, the session, the storage and the calls, in the order in which they began. -/
structure State where
  mAuthenticated : Bool := false
  mUserInfo : UserInfo := {}
  session : Session := {}
  mStorage : UnorderedMap String String := ∅
  calls : List Call := []

/-- The validator that is set and the time, as a step finds them. -/
structure Env where
  mLoginValidator : Option (String → String → Result UserInfo) := none
  now : Int := 0

/-- The check without a validator. -/
def testLogin (username password : String) : Result UserInfo :=
  if username ≠ "testuser" ∨ password ≠ "password" then
    .error { code := .authError, message := "Invalid username or password" }
  else
    .ok { userId := "1", username := username, email := "test@example.com", role := "admin",
          token := "Bearer test_token", refreshToken := "refresh_token", expiresIn := 3600 }

/-- The rest of `login` once the credentials are accepted. -/
def loginAccepted (info : UserInfo) : List Action :=
  [.update info, .setToken info.token, .set "username" info.username, .set "role" info.role,
    .readState, .notifyAuthStateChanged true, .done (.login (.ok info))]

def login (username password : String) : List Action :=
  if username.isEmpty ∨ password.isEmpty then
    [.done (.login
      (.error { code := .authError, message := "Username and password are required" }))]
  else [.readValidator username password]

def logout : List Action :=
  [.reset, .readState, .clear, .notifyAuthStateChanged false, .done .logout]

def refreshToken : List Action := [.readRefreshToken]

/-- The rest of `refreshToken` once there is a token to refresh. -/
def refreshed (newToken : String) : List Action :=
  [.updateToken newToken, .setToken newToken, .readState, .done (.refreshToken (.ok newToken))]

/-- The writes of `saveAuthState`, from what its read found. -/
def saveAuthState (state : State) : List Action :=
  if state.mAuthenticated then
    [.put "auth_token" state.mUserInfo.token, .put "auth_username" state.mUserInfo.username,
      .put "auth_role" state.mUserInfo.role,
      .put "auth_refresh_token" state.mUserInfo.refreshToken]
  else
    [.remove "auth_token", .remove "auth_username", .remove "auth_role",
      .remove "auth_refresh_token"]

/-- What a read leaves to do in its place. -/
def expand (env : Env) (state : State) : Action → List Action
  | .readValidator username password =>
      match (env.mLoginValidator.getD testLogin) username password with
      | .error error => [.done (.login (.error error))]
      | .ok info => loginAccepted info
  | .readRefreshToken =>
      if state.mUserInfo.refreshToken.isEmpty then
        [.done (.refreshToken
          (.error { code := .authError, message := "No refresh token available" }))]
      else refreshed ("Bearer refreshed_token_" ++ toString env.now)
  | .readState => saveAuthState state
  | _ => []

/-- What a write does. -/
def effect (state : State) : Action → State
  | .update info => { state with mUserInfo := info, mAuthenticated := true }
  | .reset => { state with mAuthenticated := false, mUserInfo := {} }
  | .updateToken newToken =>
      { state with mUserInfo := { state.mUserInfo with token := newToken } }
  | .setToken token => { state with session := { state.session with mToken := token } }
  | .set key value =>
      { state with session := { state.session with mData := state.session.mData.insert key value } }
  | .clear => { state with session := {} }
  | .put key value => { state with mStorage := state.mStorage.insert key value }
  | .remove key => { state with mStorage := state.mStorage.erase key }
  | _ => state

/-- A call of one of the methods. -/
inductive Request where
  | login (username password : String)
  | logout
  | refreshToken

def Request.todo : Request → List Action
  | .login username password => AuthManager.login username password
  | .logout => AuthManager.logout
  | .refreshToken => AuthManager.refreshToken

/-- A thread makes a call, or a call in progress goes on. -/
inductive Op where
  | call (request : Request)
  | step (call : Nat) (env : Env)

/-- A call after a part of it. -/
def Call.after (call : Call) (env : Env) (state : State) (rest : List Action) : Action → Call
  | .done reply => { todo := rest, reply := some reply }
  | action => { call with todo := expand env state action ++ rest }

/-- The next part of a call. -/
def proceed (env : Env) (state : State) (id : Nat) (call : Call) : State :=
  match call.todo with
  | [] => state
  | action :: rest =>
      { effect state action with calls := state.calls.set id (call.after env state rest action) }

def exec (state : State) : Op → State
  | .call request => { state with calls := state.calls ++ [{ todo := request.todo }] }
  | .step id env =>
      match state.calls[id]? with
      | none => state
      | some call => proceed env state id call

end AuthManager

end SoulCoreKit.Auth
