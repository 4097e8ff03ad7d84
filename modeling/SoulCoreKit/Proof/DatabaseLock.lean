import SoulCoreKit.Storage.SqliteDatabase

/-!
# Waiting for a lock of one's own

A call of `open` that comes to the file waits for the lock that it has itself, and from then on every other
call waits for that one: nothing is ever read from or written to a database.
-/

namespace SoulCoreKit.Storage.SqliteDatabase

section

variable {Query : Type}

/-! ### What the calls return -/

/-- A reply that a database which is not open gives. -/
def Reply.Refused : Reply Query → Prop
  | .opened result => ∃ error, result = .error error
  | .executed result => ∃ error, result = .error error
  | .transaction result => ∃ error, result = .error error
  | .isOpen value => value = false
  | .isInTransaction value => value = false
  | _ => True

/-- What a call that has not the lock has still to do. -/
def Outside (call : Call Query) : Prop :=
  (call.todo = [] ∧ call.reply ≠ none) ∨
    (∃ reply : Reply Query, reply.Refused ∧ call.todo = [.done reply]) ∨ call.todo = call.request.todo

/-- What the call that has the lock has still to do: with the file open, it waits for the lock. -/
def Inside (fields : Fields) (call : Call Query) : Prop :=
  if fields.isOpen = true then (∃ filePath, call.request = .open filePath) ∧ call.todo.head? = some .lock
  else call.request.todo = .lock :: call.todo ∨
    ∃ reply : Reply Query, reply.Refused ∧ call.todo = [.unlock, .done reply]

structure Shut (s : State Query) : Prop where
  replies : ∀ call ∈ s.calls, ∀ reply, call.reply = some reply → reply.Refused
  transaction : s.fields.mInTransaction = false
  outside : ∀ id call, s.calls[id]? = some call → s.owner ≠ some id → Outside call
  inside : ∀ id, s.owner = some id → ∃ call, s.calls[id]? = some call ∧ Inside s.fields call
  locked : s.fields.isOpen = true → s.owner ≠ none

variable {s : State Query}

theorem getElem?_set {calls : List (Call Query)} {id : Nat} {call call' : Call Query}
    (hcall : calls[id]? = some call) (other : Nat) :
    (calls.set id call')[other]? = if other = id then some call' else calls[other]? := by
  obtain ⟨hid, -⟩ := List.getElem?_eq_some_iff.mp hcall
  by_cases hother : other = id
  · rw [if_pos hother, hother, List.getElem?_set_self hid]
  · rw [if_neg hother, List.getElem?_set_ne (Ne.symm hother)]

/-- One call goes on; the others stay as they are. -/
theorem Shut.set (hshut : Shut s) {id : Nat} {call call' : Call Query} (hcall : s.calls[id]? = some call)
    {fields : Fields} {owner : Option Nat}
    (hreply : ∀ reply, call'.reply = some reply → reply.Refused)
    (htransaction : fields.mInTransaction = false)
    (hothers : ∀ other, other ≠ id → (owner = some other ↔ s.owner = some other))
    (hisOpen : s.owner ≠ some id → fields.isOpen = s.fields.isOpen)
    (hout : owner ≠ some id → Outside call')
    (hin : owner = some id → Inside fields call')
    (hlocked : fields.isOpen = true → owner ≠ none) :
    Shut { s with fields := fields, owner := owner, calls := s.calls.set id call' } where
  replies := by
    intro next hnext reply hnextReply
    rcases List.mem_or_eq_of_mem_set hnext with hold | rfl
    · exact hshut.replies next hold reply hnextReply
    · exact hreply reply hnextReply
  transaction := htransaction
  outside := by
    intro other next hnext hother
    rw [getElem?_set hcall] at hnext
    split_ifs at hnext with hsame
    · cases hnext
      exact hout (hsame ▸ hother)
    · exact hshut.outside other next hnext fun hold => hother ((hothers other hsame).mpr hold)
  inside := by
    intro other hother
    by_cases hsame : other = id
    · subst hsame
      exact ⟨call', by rw [getElem?_set hcall, if_pos rfl], hin hother⟩
    · have hold := (hothers other hsame).mp hother
      obtain ⟨next, hnext, hinside⟩ := hshut.inside other hold
      refine ⟨next, by rw [getElem?_set hcall, if_neg hsame, hnext], ?_⟩
      have hne : s.owner ≠ some id := fun hid => hsame (Option.some.inj (hold.symm.trans hid))
      rwa [Inside, hisOpen hne]
  locked := hlocked

theorem outside_done {call : Call Query} {reply : Reply Query} (htodo : call.todo = [.done reply])
    (hreply : reply.Refused) : Outside call :=
  .inr (.inl ⟨reply, hreply, htodo⟩)

theorem inside_unlock {fields : Fields} (hfields : fields.isOpen = false) {call : Call Query}
    {reply : Reply Query} (htodo : call.todo = [.unlock, .done reply]) (hreply : reply.Refused) :
    Inside fields call := by
  rw [Inside, if_neg (by simp [hfields])]
  exact .inr ⟨reply, hreply, htodo⟩

theorem transactionError_of_shut (env : Env Query) {fields : Fields} (hfields : fields.isOpen = false) :
    transactionError env fields = some env.notOpen := by
  simp [transactionError, hfields]

/-- What a method does with the lock: the database stays shut, or the call waits for itself. -/
theorem perform_shut (env : Env Query) {fields : Fields} (hfields : fields.isOpen = false)
    (htransaction : fields.mInTransaction = false) {request : Request}
    (hlocks : ∀ key, request ≠ .setEncryptionKey key) (reply : Option (Reply Query)) :
    (perform env fields request).1.mInTransaction = false ∧
      Inside (perform env fields request).1
        { request := request
          todo := (perform env fields request).2 ++ request.todo.drop 2
          reply := reply } := by
  have hrefused := transactionError_of_shut env hfields
  cases request with
  | «open» filePath =>
    by_cases hmkpath : env.mkpath = true
    · cases hopens : env.opens with
      | error error =>
        simp only [perform, hfields, hmkpath, hopens, not_true, if_false, Bool.false_eq_true]
        exact ⟨htransaction, inside_unlock rfl rfl (by simp [Reply.Refused])⟩
      | ok =>
        simp only [perform, hfields, hmkpath, hopens, not_true, if_false, Bool.false_eq_true]
        exact ⟨htransaction, by simp [Inside, openRest]⟩
    · simp only [perform, hfields, hmkpath, not_false_iff, if_true, if_false, Bool.false_eq_true]
      exact ⟨htransaction, inside_unlock rfl rfl (by simp [Reply.Refused])⟩
  | close =>
    exact ⟨htransaction, inside_unlock rfl rfl trivial⟩
  | isOpen =>
    exact ⟨htransaction, inside_unlock hfields rfl hfields⟩
  | execute sql =>
    simp only [perform, hfields, not_false_iff, if_true, Bool.false_eq_true]
    exact ⟨htransaction, inside_unlock rfl rfl (by simp [Reply.Refused])⟩
  | beginTransaction | commitTransaction | rollbackTransaction =>
    simp only [perform, hrefused]
    exact ⟨htransaction, inside_unlock hfields rfl (by simp [Reply.Refused])⟩
  | isInTransaction =>
    exact ⟨htransaction, inside_unlock hfields rfl htransaction⟩
  | lastError =>
    exact ⟨htransaction, inside_unlock hfields rfl trivial⟩
  | enableWAL enabled | setBusyTimeout milliseconds =>
    exact ⟨htransaction, inside_unlock hfields rfl trivial⟩
  | setEncryptionKey key => exact absurd rfl (hlocks key)

theorem shut_start : Shut ({} : State Query) where
  replies := by simp
  transaction := rfl
  outside := by simp
  inside := by simp
  locked := by simp

theorem Shut.call (hshut : Shut s) (request : Request) : Shut (step s (.call request)) where
  replies := by
    intro next hnext reply hreply
    rcases List.mem_append.mp hnext with hold | hnew
    · exact hshut.replies next hold reply hreply
    · rw [List.mem_singleton.mp hnew] at hreply
      cases hreply
  transaction := hshut.transaction
  outside := by
    intro id next hnext howner
    rcases Nat.lt_or_ge id s.calls.length with hid | hid
    · exact hshut.outside id next (by rwa [step, List.getElem?_append_left hid] at hnext) howner
    · have hnew : next ∈ [({ request := request, todo := request.todo } : Call Query)] :=
        List.mem_of_getElem? (by rwa [step, List.getElem?_append_right hid] at hnext)
      rw [List.mem_singleton.mp hnew]
      exact .inr (.inr rfl)
  inside := by
    intro id howner
    obtain ⟨next, hnext, hinside⟩ := hshut.inside id howner
    obtain ⟨hid, -⟩ := List.getElem?_eq_some_iff.mp hnext
    exact ⟨next, by rw [step, List.getElem?_append_left hid, hnext], hinside⟩
  locked := hshut.locked

theorem Request.todo_eq (Query : Type) (request : Request) :
    (∃ key, request = .setEncryptionKey key) ∨ (∀ key, request ≠ .setEncryptionKey key) ∧
      (request.todo : List (Action Query)) = .lock :: .perform request :: request.todo.drop 2 := by
  cases request with
  | setEncryptionKey key => exact .inl ⟨key, rfl⟩
  | _ => exact .inr ⟨by simp, rfl⟩

/-- A call without the lock goes on. -/
theorem Shut.advance_outside (hshut : Shut s) (env : Env Query) {id : Nat} {call : Call Query}
    (hcall : s.calls[id]? = some call) (howner : s.owner ≠ some id) (hout : Outside call) :
    Shut (advance env s id call) := by
  have hreplies := hshut.replies call (List.mem_of_getElem? hcall)
  rcases hout with ⟨hnil, -⟩ | ⟨reply, hreply, hdone⟩ | hrequest
  · rwa [advance, hnil]
  · rw [advance, hdone]
    refine hshut.set hcall (fun next hnext => ?_) hshut.transaction (fun _ _ => Iff.rfl) (fun _ => rfl)
      (fun _ => .inl ⟨rfl, by simp⟩) (fun hid => absurd hid howner) hshut.locked
    cases hnext
    exact hreply
  · rcases call.request.todo_eq Query with ⟨key, hkey⟩ | ⟨hlocks, hrest⟩
    · rw [advance, hrequest, hkey]
      exact hshut.set hcall hreplies hshut.transaction (fun _ _ => Iff.rfl) (fun _ => rfl)
        (fun _ => outside_done rfl trivial) (fun hid => absurd hid howner) hshut.locked
    · rw [advance, hrequest, hrest]
      by_cases hfree : s.owner = none
      · have hfields : s.fields.isOpen = false :=
          Bool.eq_false_iff.mpr fun hopen => hshut.locked hopen hfree
        simp only [hfree, if_true]
        refine hshut.set hcall hreplies hshut.transaction (fun other hother => ?_) (fun _ => rfl)
          (fun hid => absurd rfl hid) (fun _ => ?_) (by simp)
        · simpa [hfree] using hother.symm
        · rw [Inside, if_neg (by simp [hfields])]
          exact .inl hrest
      · simpa only [if_neg hfree] using hshut

/-- The call with the lock goes on, or waits for itself. -/
theorem Shut.advance_inside (hshut : Shut s) (env : Env Query) {id : Nat} {call : Call Query}
    (hcall : s.calls[id]? = some call) (howner : s.owner = some id) (hin : Inside s.fields call) :
    Shut (advance env s id call) := by
  have hreplies := hshut.replies call (List.mem_of_getElem? hcall)
  by_cases hopen : s.fields.isOpen = true
  · rw [Inside, if_pos hopen, List.head?_eq_some_iff] at hin
    obtain ⟨-, rest, hrest⟩ := hin
    simpa only [advance, hrest, howner, reduceCtorEq, if_false] using hshut
  · rw [Inside, if_neg hopen] at hin
    have hfields := Bool.eq_false_iff.mpr hopen
    rcases hin with hrequest | ⟨reply, hreply, hunlock⟩
    · rcases call.request.todo_eq Query with ⟨key, hkey⟩ | ⟨hlocks, hrest⟩
      · simp [hkey, Request.todo] at hrequest
      · have htodo : call.todo = .perform call.request :: call.request.todo.drop 2 :=
          (List.cons.inj (hrequest.symm.trans hrest)).2
        obtain ⟨htransaction, hinside⟩ := perform_shut env hfields hshut.transaction hlocks call.reply
        rw [advance, htodo]
        exact hshut.set hcall hreplies htransaction (fun _ _ => Iff.rfl)
          (fun hid => absurd howner hid) (fun hid => absurd howner hid) (fun _ => hinside)
          (fun _ => by simp [howner])
    · rw [advance, hunlock]
      refine hshut.set hcall hreplies hshut.transaction (fun other hother => ?_) (fun _ => rfl)
        (fun _ => outside_done rfl hreply) (fun hid => by cases hid) (fun h => absurd h hopen)
      simpa [howner] using hother.symm

theorem Shut.step (hshut : Shut s) (op : Op Query) : Shut (step s op) := by
  cases op with
  | call request => exact hshut.call request
  | step id env =>
    rw [SqliteDatabase.step]
    cases hcall : s.calls[id]? with
    | none => exact hshut
    | some call =>
      by_cases howner : s.owner = some id
      · obtain ⟨next, hnext, hinside⟩ := hshut.inside id howner
        obtain rfl : call = next := Option.some.inj (hcall.symm.trans hnext)
        exact hshut.advance_inside env hcall howner hinside
      · exact hshut.advance_outside env hcall howner (hshut.outside id call hcall howner)

theorem shut_after (ops : List (Op Query)) : Shut (after ops) :=
  run_induction shut_start (fun _ op h => Shut.step h op) ops

/-- No call ever returns a database that is open, a result of a statement or a transaction. -/
theorem refused_of_run (ops : List (Op Query)) :
    ∀ call ∈ (after ops).calls, ∀ reply, call.reply = some reply → reply.Refused :=
  (shut_after ops).replies

/-- Nothing fails. -/
def readyEnv : Env Unit :=
  { absolutePath := "/data", mkpath := true, opens := .ok (), transaction := .ok (), notOpen := ⟨"", 0⟩,
    prepares := .ok (), executes := .ok () }

/-- A statement before the database is open. -/
def executeFirst : List (Op Unit) :=
  [.call (.execute "SELECT 1"), .step 0 readyEnv, .step 0 readyEnv, .step 0 readyEnv, .step 0 readyEnv]

theorem refused_of_run_executeFirst :
    (Reply.executed (.error ⟨.internalError, "Database not open"⟩) : Reply Unit).Refused :=
  refused_of_run executeFirst
    { request := .execute "SELECT 1", todo := [],
      reply := some (.executed (.error ⟨.internalError, "Database not open"⟩)) }
    (List.mem_singleton.mpr rfl) _ rfl

/-! ### After the file is open -/

/-- The calls that wait for the lock stay as they are. -/
def Waiting (s s' : State Query) : Prop :=
  ∀ (id : Nat) (call : Call Query), s.calls[id]? = some call → call.todo.head? = some .lock →
    s'.calls[id]? = some call

theorem Shut.not_owner (hshut : Shut s) (hopen : s.fields.isOpen = true) {id : Nat} {call : Call Query}
    (hcall : s.calls[id]? = some call) (hwaits : call.todo.head? ≠ some .lock) : s.owner ≠ some id := by
  intro howner
  obtain ⟨next, hnext, hinside⟩ := hshut.inside id howner
  rw [Inside, if_pos hopen, ← Option.some.inj (hcall.symm.trans hnext)] at hinside
  exact hwaits hinside.2

theorem Shut.waits (hshut : Shut s) (hopen : s.fields.isOpen = true) (op : Op Query) :
    (SqliteDatabase.step s op).fields.isOpen = true ∧ Waiting s (SqliteDatabase.step s op) := by
  cases op with
  | call request =>
    refine ⟨hopen, fun id call hcall _ => ?_⟩
    obtain ⟨hid, -⟩ := List.getElem?_eq_some_iff.mp hcall
    rw [SqliteDatabase.step, List.getElem?_append_left hid, hcall]
  | step id env =>
    rw [SqliteDatabase.step]
    cases hcall : s.calls[id]? with
    | none => exact ⟨hopen, fun _ _ hnext _ => hnext⟩
    | some call =>
      have hset : ∀ (call' : Call Query) (fields : Fields), call.todo.head? ≠ some .lock →
          Waiting s { s with fields := fields, calls := s.calls.set id call' } := by
        intro call' fields hnot other next hnext hwaits
        have hother : other ≠ id := by
          rintro rfl
          rw [Option.some.inj (hcall.symm.trans hnext)] at hnot
          exact hnot hwaits
        rw [getElem?_set hcall, if_neg hother, hnext]
      by_cases hwaits : call.todo.head? = some .lock
      · obtain ⟨rest, hrest⟩ := List.head?_eq_some_iff.mp hwaits
        simp only [advance, hrest, hshut.locked hopen, if_false]
        exact ⟨hopen, fun _ _ hnext _ => hnext⟩
      · have howner := hshut.not_owner hopen hcall hwaits
        rcases hshut.outside id call hcall howner with ⟨hnil, -⟩ | ⟨reply, -, hdone⟩ | hrequest
        · simp only [advance, hnil]
          exact ⟨hopen, fun _ _ hnext _ => hnext⟩
        · simp only [advance, hdone]
          exact ⟨hopen, hset _ _ hwaits⟩
        · rcases call.request.todo_eq Query with ⟨key, hkey⟩ | ⟨hlocks, hrest⟩
          · simp only [advance, hrequest, hkey, Request.todo, perform]
            exact ⟨hopen, hset _ _ hwaits⟩
          · exact absurd (by rw [hrequest, hrest, List.head?_cons]) hwaits

theorem waits_of_run (hshut : Shut s) (hopen : s.fields.isOpen = true) (more : List (Op Query)) :
    (run SqliteDatabase.step s more).fields.isOpen = true ∧ Waiting s (run SqliteDatabase.step s more) := by
  refine (run_induction (P := fun s' => Shut s' ∧ s'.fields.isOpen = true ∧ Waiting s s')
    ⟨hshut, hopen, fun _ _ hcall _ => hcall⟩ (fun state op hstate => ?_) more).2
  obtain ⟨hstate, hstateOpen, hkept⟩ := hstate
  obtain ⟨hnext, hcalls⟩ := hstate.waits hstateOpen op
  exact ⟨hstate.step op, hnext, fun id call hcall hwaits =>
    hcalls id call (hkept id call hcall hwaits) hwaits⟩

/-- A call that has not the lock and does not wait for it returns. -/
theorem Shut.returns (hshut : Shut s) {id : Nat} {call : Call Query} (hcall : s.calls[id]? = some call)
    (howner : s.owner ≠ some id) (hwaits : call.todo.head? ≠ some .lock) :
    ∃ more next, (run SqliteDatabase.step s more).calls[id]? = some next ∧ next.reply ≠ none := by
  let env : Env Query :=
    { absolutePath := "", mkpath := false, opens := .ok (), transaction := .ok (), notOpen := ⟨"", 0⟩,
      prepares := .ok (), executes := .error ⟨"", 0⟩ }
  rcases hshut.outside id call hcall howner with ⟨-, hreply⟩ | ⟨reply, -, hdone⟩ | hrequest
  · exact ⟨[], call, hcall, hreply⟩
  · refine ⟨[.step id env], { call with todo := [], reply := some reply }, ?_, by simp⟩
    simp only [run, List.foldl, SqliteDatabase.step, hcall, advance, hdone, getElem?_set hcall, if_true]
  · rcases call.request.todo_eq Query with ⟨key, hkey⟩ | ⟨hlocks, hrest⟩
    · refine ⟨[.step id env, .step id env], { call with todo := [], reply := some .set }, ?_, by simp⟩
      simp only [run, List.foldl, SqliteDatabase.step, hcall, advance, hrequest, hkey, Request.todo, perform,
        getElem?_set hcall, if_true, List.nil_append]
      simp [(List.getElem?_eq_some_iff.mp hcall).1]
    · exact absurd (by rw [hrequest, hrest, List.head?_cons]) hwaits

/-- Once `open` has come to the file it has the lock and waits for it, and so for good does every call that
needs the lock: the only ones that still return are those that have been through with it, and
`setEncryptionKey`. -/
theorem stuck_of_run {ops : List (Op Query)} (hopen : (after ops).fields.isOpen = true) :
    (∃ (id : Nat) (call : Call Query) (filePath : String), (after ops).owner = some id ∧
      (after ops).calls[id]? = some call ∧ call.request = .open filePath ∧ call.todo.head? = some .lock) ∧
    (∀ more, (after (ops ++ more)).fields.isOpen = true) ∧
    ∀ (id : Nat) (call : Call Query), (after ops).calls[id]? = some call → call.reply = none →
      ((∃ more next, (after (ops ++ more)).calls[id]? = some next ∧ next.reply ≠ none) ↔
        call.todo.head? ≠ some .lock) := by
  have hshut := shut_after ops
  have hafter : ∀ more, after (ops ++ more) = run SqliteDatabase.step (after ops) more :=
    fun more => run_append ops more
  refine ⟨?_, fun more => ?_, fun id call hcall hreply => ⟨?_, fun hwaits => ?_⟩⟩
  · obtain ⟨id, howner⟩ := Option.ne_none_iff_exists'.mp (hshut.locked hopen)
    obtain ⟨call, hcall, hinside⟩ := hshut.inside id howner
    rw [Inside, if_pos hopen] at hinside
    obtain ⟨⟨filePath, hrequest⟩, hwaits⟩ := hinside
    exact ⟨id, call, filePath, howner, hcall, hrequest, hwaits⟩
  · rw [hafter]
    exact (waits_of_run hshut hopen more).1
  · rintro ⟨more, next, hnext, hnextReply⟩ hwaits
    rw [hafter, (waits_of_run hshut hopen more).2 id call hcall hwaits] at hnext
    exact hnextReply (Option.some.inj hnext ▸ hreply)
  · obtain ⟨more, next, hnext, hnextReply⟩ :=
      hshut.returns hcall (hshut.not_owner hopen hcall hwaits) hwaits
    exact ⟨more, next, by rw [hafter, hnext], hnextReply⟩

/-- `open` comes to the file, and another thread calls `close`. -/
def openThenClose : List (Op Unit) :=
  [.call (.open "/data/app.db"), .step 0 readyEnv, .step 0 readyEnv, .call .close]

theorem stuck_of_run_openThenClose : (after openThenClose).fields.isOpen = true ∧
    ∀ more next, (after (openThenClose ++ more)).calls[1]? = some next → next.reply = none := by
  refine ⟨rfl, fun more next hnext => ?_⟩
  by_contra hreply
  have hreturns := (stuck_of_run (show (after openThenClose).fields.isOpen = true from rfl)).2.2 1
    { request := .close, todo := [.lock, .perform .close] } rfl rfl
  exact hreturns.mp ⟨more, next, hnext, hreply⟩ rfl

end

end SoulCoreKit.Storage.SqliteDatabase
