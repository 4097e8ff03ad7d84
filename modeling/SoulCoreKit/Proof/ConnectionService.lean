import SoulCoreKit.Proof.Pipeline
import SoulCoreKit.Proof.Segmentation
import SoulCoreKit.Server.Connections

/-!
# Each connection as if it were alone

The counter of open connections is right at every moment, and each connection is served as if it were
alone: what waits in the buffer of a connection is what arrived on it, so its answer is the answer to these
bytes in one piece. Whether a connection is taken or refused, and why, is settled when it comes.
-/

namespace SoulCoreKit.Server

/-! ### One call of `onReadyRead` -/

namespace HttpServer

variable {Socket : Type} {s s' : HttpServer Socket} {duration : Int}

theorem respond_of_thrown {unconnected : Bool} {req : HttpRequest} {what : Thrown}
    (hthrown : (s.handled req).1 = some what) : s.respond unconnected duration req = s.handled req := by
  rw [respond]
  generalize s.handled req = handled at hthrown
  obtain ⟨escaped, x⟩ := handled
  obtain rfl : escaped = some what := hthrown
  rfl

theorem responses_handled (s : HttpServer Socket) (req : HttpRequest) :
    responses (s.handled req).2.trace = [] :=
  filterMap_eq_nil written?_of_kind fun event hevent => ((handled_spec s req).kinds event hevent).2

/-- A request is answered once, unless an exception leaves the slot. -/
theorem responses_respond (s : HttpServer Socket) (duration : Int) (req : HttpRequest) :
    (∃ response, responses (s.respond false duration req).2.trace = [response]) ∨
      ((s.respond false duration req).1.isSome = true ∧
        responses (s.respond false duration req).2.trace = []) := by
  cases hthrown : (s.handled req).1 with
  | none =>
      obtain ⟨later, htrace, -, hlater⟩ := respond_spec s false duration req
      have hone := (hlater hthrown).2
      have hnone := responses_handled s req
      refine .inl ⟨Exchange.afterResponse duration s.mMiddlewares (s.handled req).2.req
        (s.handled req).2.response, ?_⟩
      unfold responses at hone hnone ⊢
      rw [htrace, List.filterMap_append, hnone, List.nil_append, hone, if_neg Bool.false_ne_true]
  | some what =>
      rw [respond_of_thrown hthrown]
      exact .inr ⟨by rw [hthrown]; rfl, responses_handled s req⟩

variable [DecidableEq Socket] {qt : Qt} {peerAddress : Socket → String} {socket : Socket} {chunk : Bytes}
variable {thrown : Option Thrown} {events : List Event}

theorem buffer_empty (s : HttpServer Socket) (socket : Socket) :
    ({ s with mBuffers := ∅ } : HttpServer Socket).buffer socket = [] := by
  rw [buffer, Finmap.lookup_empty, Option.getD_none]

theorem buffer_takeRequest
    (htaken : s.takeRequest qt peerAddress socket chunk = (.incomplete, s')) :
    s'.buffer socket = s.buffer socket ++ chunk := by
  unfold takeRequest at htaken
  simp only at htaken
  by_cases hlarge : ((s.mBuffers.lookup socket).getD [] ++ chunk).length > 1024 * 1024
  · rw [if_pos hlarge] at htaken
    cases htaken
  · rw [if_neg hlarge] at htaken
    generalize parseRequest qt (peerAddress socket) {} ((s.mBuffers.lookup socket).getD [] ++ chunk) =
      parsed at htaken
    obtain ⟨status, req⟩ := parsed
    cases status with
    | incomplete =>
        cases htaken
        simp only [buffer, Finmap.lookup_insert, Option.getD_some]
    | badRequest => cases htaken
    | ok => cases htaken

/-- What one call comes to: the bytes wait, or one response is written, or an exception leaves it. -/
theorem onReadyRead_cases
    (hcalled : s.onReadyRead qt peerAddress false duration socket chunk = ((thrown, events), s')) :
    (responses events = [] ∧ s'.buffer socket = s.buffer socket ++ chunk) ∨
      (∃ response, responses events = [response]) ∨ (thrown.isSome = true ∧ responses events = []) := by
  unfold onReadyRead at hcalled
  cases htaken : s.takeRequest qt peerAddress socket chunk with
  | mk outcome next =>
      rw [htaken] at hcalled
      cases outcome with
      | incomplete =>
          cases hcalled
          exact .inl ⟨rfl, buffer_takeRequest htaken⟩
      | tooLarge =>
          cases hcalled
          exact .inr (.inl ⟨_, rfl⟩)
      | badRequest =>
          cases hcalled
          exact .inr (.inl ⟨_, rfl⟩)
      | ok req =>
          cases hcalled
          exact .inr (responses_respond _ duration req)

variable (qt peerAddress) in
theorem onReadyRead_snd (s : HttpServer Socket) (unconnected : Bool) (duration : Int) (socket : Socket)
    (chunk : Bytes) : (s.onReadyRead qt peerAddress unconnected duration socket chunk).2 =
      (s.takeRequest qt peerAddress socket chunk).2 := by
  unfold onReadyRead
  generalize s.takeRequest qt peerAddress socket chunk = taken
  obtain ⟨outcome, next⟩ := taken
  cases outcome <;> rfl

variable (qt peerAddress) in
theorem takeRequest_snd (s : HttpServer Socket) (socket : Socket) (chunk : Bytes) :
    ∃ buffers, (s.takeRequest qt peerAddress socket chunk).2 = { s with mBuffers := buffers } := by
  unfold takeRequest
  simp only
  split_ifs
  · exact ⟨_, rfl⟩
  · split
    · exact ⟨_, rfl⟩
    · exact ⟨_, rfl⟩
    · exact ⟨_, rfl⟩

variable (qt peerAddress) in
/-- What the parser makes of the bytes that wait and those that come. -/
theorem takeRequest_fst (s : HttpServer Socket) (socket : Socket) (chunk : Bytes) :
    (s.takeRequest qt peerAddress socket chunk).1 =
      if (s.buffer socket ++ chunk).length > 1024 * 1024 then .tooLarge
      else (decision qt (peerAddress socket) (s.buffer socket ++ chunk)).getD .incomplete := by
  unfold takeRequest buffer decision
  simp only
  split_ifs
  · rfl
  · generalize parseRequest qt (peerAddress socket) {} ((s.mBuffers.lookup socket).getD [] ++ chunk) = parsed
    obtain ⟨status, req⟩ := parsed
    cases status <;> rfl

variable (qt peerAddress) in
/-- A call is about the bytes that wait and those that come, and about no other connection. -/
theorem onReadyRead_alone (s : HttpServer Socket) (unconnected : Bool) (duration : Int) (socket : Socket)
    (chunk : Bytes) : (s.onReadyRead qt peerAddress unconnected duration socket chunk).1 =
      (({ s with mBuffers := ∅ } : HttpServer Socket).onReadyRead qt peerAddress unconnected duration socket
        (s.buffer socket ++ chunk)).1 := by
  have hhere := takeRequest_fst qt peerAddress s socket chunk
  have halone := takeRequest_fst qt peerAddress { s with mBuffers := ∅ } socket
    (s.buffer socket ++ chunk)
  rw [buffer_empty, List.nil_append, ← hhere] at halone
  obtain ⟨buffers, hsnd⟩ := takeRequest_snd qt peerAddress s socket chunk
  obtain ⟨buffers', hsnd'⟩ := takeRequest_snd qt peerAddress { s with mBuffers := ∅ }
    socket (s.buffer socket ++ chunk)
  unfold onReadyRead
  generalize s.takeRequest qt peerAddress socket chunk = taken at halone hsnd
  generalize takeRequest qt peerAddress { s with mBuffers := ∅ } socket (s.buffer socket ++ chunk) = taken'
    at halone hsnd'
  obtain ⟨outcome, next⟩ := taken
  obtain ⟨outcome', next'⟩ := taken'
  obtain rfl : outcome' = outcome := halone
  obtain rfl : next = { s with mBuffers := buffers } := hsnd
  obtain rfl : next' = { s with mBuffers := buffers' } := hsnd'
  cases outcome' <;> rfl

end HttpServer

/-! ### Lists of connections -/

theorem getElem?_concat_cases {A : Type} {list : List A} {last x : A} {i : Nat}
    (hget : (list ++ [last])[i]? = some x) : list[i]? = some x ∨ i = list.length ∧ x = last := by
  rcases Nat.lt_trichotomy i list.length with hlt | heq | hgt
  · exact .inl (by rwa [List.getElem?_append_left hlt] at hget)
  · subst heq
    rw [List.getElem?_concat_length] at hget
    exact .inr ⟨rfl, (Option.some.inj hget).symm⟩
  · rw [List.getElem?_eq_none (by rwa [List.length_append, List.length_singleton])] at hget
    cases hget

theorem getElem?_set_cases {A : Type} {list : List A} {a x : A} {i j : Nat}
    (hget : (list.set i a)[j]? = some x) : j = i ∧ x = a ∨ j ≠ i ∧ list[j]? = some x := by
  by_cases hsame : j = i
  · subst hsame
    have hlt : j < list.length := by
      rw [← List.length_set (a := a)]
      exact (List.getElem?_eq_some_iff.mp hget).1
    rw [List.getElem?_set_self hlt] at hget
    exact .inl ⟨rfl, (Option.some.inj hget).symm⟩
  · exact .inr ⟨hsame, by rwa [List.getElem?_set_ne (Ne.symm hsame)] at hget⟩

theorem countP_set_add {A : Type} (p : A → Bool) {list : List A} {a : A} {i : Nat} (hget : list[i]? = some a)
    (b : A) : (list.set i b).countP p + (if p a then 1 else 0) = list.countP p + if p b then 1 else 0 := by
  obtain ⟨hlt, rfl⟩ := List.getElem?_eq_some_iff.mp hget
  rw [List.countP_set hlt]
  by_cases hp : p list[i] = true
  · have hpos : 0 < list.countP p := List.countP_pos_iff.mpr ⟨_, List.getElem_mem hlt, hp⟩
    rw [if_pos hp]
    omega
  · rw [if_neg hp]
    omega

/-! ### Runs -/

namespace ServerRun

section

variable {qt : Qt} {peerAddress : Nat → String} {server : HttpServer Nat} {s : ServerRun}

theorem state_closed (connection : ServerConnection) : (closed connection).state ≠ .connected := by
  unfold closed
  split_ifs with hconnected
  · simp
  · exact hconnected

theorem isOpen_closed (connection : ServerConnection) : (closed connection).isOpen = connection.isOpen := by
  unfold closed
  split_ifs with hconnected
  · simp [ServerConnection.isOpen, hconnected]
  · rfl

theorem closed_eq (connection : ServerConnection) : (closed connection).accepted = connection.accepted ∧
    (closed connection).received = connection.received ∧
    (closed connection).written = connection.written := by
  unfold closed
  split_ifs <;> exact ⟨rfl, rfl, rfl⟩

variable (qt peerAddress server) in
/-- Nothing was written, or what the server alone answers to the bytes of the connection. -/
def Served (id : Nat) (connection : ServerConnection) : Prop :=
  connection.written = [] ∨ ∃ duration, connection.written =
    responses (({ server with mBuffers := ∅ } : HttpServer Nat).onReadyRead qt peerAddress false duration id
      connection.received).1.2

variable (qt peerAddress server) in
structure Serves (s : ServerRun) : Prop where
  counted : s.mCurrentConnections = s.connections.countP ServerConnection.isOpen
  settings : ∃ buffers, s.server = { server with mBuffers := buffers }
  unused : ∀ id, s.connections.length ≤ id → s.server.buffer id = []
  waits : s.ended = false → ∀ (id : Nat) (connection : ServerConnection),
    s.connections[id]? = some connection → connection.accepted = true → connection.state = .connected →
      s.server.buffer id = connection.received ∧ connection.written = []
  served : ∀ (id : Nat) (connection : ServerConnection), s.connections[id]? = some connection →
    connection.accepted = true → Served qt peerAddress server id connection

/-- One connection changes, and the others keep their buffers. -/
theorem Serves.set (hserves : Serves qt peerAddress server s) {id : Nat} {old new : ServerConnection}
    (hget : s.connections[id]? = some old) {server' : HttpServer Nat} {count : Int} {ended : Bool}
    (hsettings : ∃ buffers, server' = { server with mBuffers := buffers })
    (hothers : ∀ other, other ≠ id → server'.buffer other = s.server.buffer other)
    (hcount : count + (if old.isOpen then 1 else 0) = s.mCurrentConnections + if new.isOpen then 1 else 0)
    (hended : ended = false → s.ended = false)
    (hwaits : ended = false → new.accepted = true → new.state = .connected →
      server'.buffer id = new.received ∧ new.written = [])
    (hserved : new.accepted = true → Served qt peerAddress server id new) :
    Serves qt peerAddress server { s with
      server := server', mCurrentConnections := count, connections := s.connections.set id new,
      ended := ended } where
  counted := by
    have hset := countP_set_add ServerConnection.isOpen hget new
    have hcounted := hserves.counted
    change count = ((s.connections.set id new).countP ServerConnection.isOpen : Int)
    split_ifs at hset hcount <;> omega
  settings := hsettings
  unused := by
    intro other hother
    rw [List.length_set] at hother
    have hne : other ≠ id := by
      rintro rfl
      rw [List.getElem?_eq_none hother] at hget
      cases hget
    rw [hothers other hne, hserves.unused other hother]
  waits := by
    intro hrunning other connection hother haccepted hconnected
    rcases getElem?_set_cases hother with ⟨rfl, rfl⟩ | ⟨hne, hold⟩
    · exact hwaits hrunning haccepted hconnected
    · rw [hothers other hne]
      exact hserves.waits (hended hrunning) other connection hold haccepted hconnected
  served := by
    intro other connection hother haccepted
    rcases getElem?_set_cases hother with ⟨rfl, rfl⟩ | ⟨hne, hold⟩
    · exact hserved haccepted
    · exact hserves.served other connection hold haccepted

/-- A connection comes. -/
theorem Serves.concat (hserves : Serves qt peerAddress server s) {last : ServerConnection} {count : Int}
    (hcount : count = s.mCurrentConnections + if last.isOpen then 1 else 0)
    (haccepted : last.accepted = true → last.received = [] ∧ last.written = []) :
    Serves qt peerAddress server { s with
      mCurrentConnections := count, connections := s.connections ++ [last] } where
  counted := by
    change count = ((s.connections ++ [last]).countP ServerConnection.isOpen : Int)
    rw [List.countP_append, List.countP_singleton, hcount, hserves.counted]
    split_ifs <;> simp
  settings := hserves.settings
  unused := by
    intro id hid
    rw [List.length_append] at hid
    exact hserves.unused id (by omega)
  waits := by
    intro hrunning id connection hget hadmitted hconnected
    rcases getElem?_concat_cases hget with hold | ⟨rfl, rfl⟩
    · exact hserves.waits hrunning id connection hold hadmitted hconnected
    · obtain ⟨hreceived, hwritten⟩ := haccepted hadmitted
      exact ⟨(hserves.unused _ (Nat.le_refl _)).trans hreceived.symm, hwritten⟩
  served := by
    intro id connection hget hadmitted
    rcases getElem?_concat_cases hget with hold | ⟨rfl, rfl⟩
    · exact hserves.served id connection hold hadmitted
    · exact .inl (haccepted hadmitted).2

theorem Serves.onNewConnection (hserves : Serves qt peerAddress server s) :
    Serves qt peerAddress server s.onNewConnection := by
  unfold ServerRun.onNewConnection
  split_ifs
  · exact hserves.concat (by simp [ServerConnection.isOpen]) (by simp)
  · exact hserves.concat (by simp [ServerConnection.isOpen]) (by simp)
  · exact hserves.concat (by simp [ServerConnection.isOpen]) fun _ => ⟨rfl, rfl⟩

theorem Serves.closeAll (hserves : Serves qt peerAddress server s) :
    Serves qt peerAddress server s.closeAll where
  counted := by
    rw [ServerRun.closeAll, List.countP_map, hserves.counted]
    exact congrArg _ (List.countP_congr fun connection _ => by
      rw [Function.comp_apply, isOpen_closed])
  settings := by
    obtain ⟨buffers, hsettings⟩ := hserves.settings
    exact ⟨∅, by rw [ServerRun.closeAll, hsettings]⟩
  unused := fun id _ => HttpServer.buffer_empty s.server id
  waits := by
    intro _ id connection hget _ hconnected
    obtain ⟨old, -, rfl⟩ := List.mem_map.mp (List.mem_of_getElem? hget)
    exact absurd hconnected (state_closed old)
  served := by
    intro id connection hget haccepted
    rw [ServerRun.closeAll, List.getElem?_map, Option.map_eq_some_iff] at hget
    obtain ⟨old, hold, rfl⟩ := hget
    obtain ⟨hsame, hreceived, hwritten⟩ := closed_eq old
    have hserved := hserves.served id old hold (hsame ▸ haccepted)
    rwa [Served, hreceived, hwritten]

/-- The bytes wait with those before them, or the answer is that of the server alone. -/
theorem Serves.readyRead (hserves : Serves qt peerAddress server s) (hrunning : s.ended = false) {id : Nat}
    {connection : ServerConnection} (hget : s.connections[id]? = some connection)
    (haccepted : connection.accepted = true) (hconnected : connection.state = .connected) (chunk : Bytes)
    (duration : Int) :
    Serves qt peerAddress server (s.readyRead qt peerAddress id connection chunk duration) := by
  obtain ⟨hbuffer, hwritten⟩ := hserves.waits hrunning id connection hget haccepted hconnected
  obtain ⟨buffers, hsettings⟩ := hserves.settings
  obtain ⟨taken, htaken⟩ := HttpServer.takeRequest_snd qt peerAddress s.server id chunk
  have hsnd := HttpServer.onReadyRead_snd qt peerAddress s.server false duration id chunk
  have halone := HttpServer.onReadyRead_alone qt peerAddress s.server false duration id chunk
  rw [ServerRun.readyRead]
  generalize hcalled : s.server.onReadyRead qt peerAddress false duration id chunk = called at hsnd halone
  obtain ⟨⟨thrown, events⟩, next⟩ := called
  change next = (s.server.takeRequest qt peerAddress id chunk).2 at hsnd
  rw [hbuffer, hsettings] at halone
  have hopen : connection.isOpen = true := by simp [ServerConnection.isOpen, haccepted, hconnected]
  refine hserves.set hget ⟨taken, ?_⟩ (fun other hne => ?_) ?_ (fun _ => hrunning) (fun hended _ hstate => ?_)
    (fun _ => .inr ⟨duration, ?_⟩)
  · rw [hsnd, htaken, hsettings]
  · rw [hsnd]
    exact HttpServer.buffer_takeRequest_of_ne (Ne.symm hne)
  · rw [hopen, ServerConnection.isOpen, haccepted]
    cases (responses events).isEmpty <;> rfl
  · rcases HttpServer.onReadyRead_cases hcalled with ⟨hnone, hwaits⟩ | ⟨response, hone⟩ | ⟨hthrown, -⟩
    · exact ⟨hwaits.trans (by rw [hbuffer]), by simp only [hwritten, hnone, List.append_nil]⟩
    · simp [hone] at hstate
    · cases hthrown.symm.trans hended
  · simp only [hwritten, List.nil_append]
    exact congrArg (fun result => responses result.2) halone

theorem Serves.timeout (hserves : Serves qt peerAddress server s) {id : Nat} {connection : ServerConnection}
    (hget : s.connections[id]? = some connection) (haccepted : connection.accepted = true) :
    Serves qt peerAddress server { s with connections := s.connections.set id (closed connection) } := by
  obtain ⟨-, hreceived, hwritten⟩ := closed_eq connection
  refine hserves.set hget hserves.settings (fun _ _ => rfl) ?_ (fun h => h)
    (fun _ _ hstate => absurd hstate (state_closed connection)) (fun _ => ?_)
  · rw [isOpen_closed]
  · have hserved := hserves.served id connection hget haccepted
    rwa [Served, hreceived, hwritten]

theorem Serves.disconnected (hserves : Serves qt peerAddress server s) {id : Nat}
    {connection : ServerConnection} (hget : s.connections[id]? = some connection)
    (hstate : connection.state ≠ .unconnected) (haccepted : connection.accepted = true) :
    Serves qt peerAddress server { s with
      server := s.server.onDisconnected id, mCurrentConnections := s.mCurrentConnections - 1,
      connections := s.connections.set id { connection with state := .unconnected } } := by
  obtain ⟨buffers, hsettings⟩ := hserves.settings
  refine hserves.set hget ⟨s.server.mBuffers.erase id, ?_⟩
    (fun other hne => HttpServer.buffer_onDisconnected_of_ne (Ne.symm hne)) ?_ (fun h => h)
    (fun _ _ hconnected => by simp at hconnected) (fun _ => hserves.served id connection hget haccepted)
  · rw [HttpServer.onDisconnected]
    simp only [hsettings]
  · simp [ServerConnection.isOpen, haccepted, hstate]

theorem Serves.gone (hserves : Serves qt peerAddress server s) {id : Nat} {connection : ServerConnection}
    (hget : s.connections[id]? = some connection) (hrefused : ¬ connection.accepted = true) :
    Serves qt peerAddress server { s with
      connections := s.connections.set id { connection with state := .unconnected } } := by
  refine hserves.set hget hserves.settings (fun _ _ => rfl) ?_ (fun h => h)
    (fun _ haccepted => absurd haccepted hrefused) (fun haccepted => absurd haccepted hrefused)
  simp [ServerConnection.isOpen, Bool.eq_false_iff.mpr hrefused]

theorem Serves.step (hserves : Serves qt peerAddress server s) (label : ServerStep) :
    Serves qt peerAddress server (ServerRun.step qt peerAddress s label) := by
  unfold ServerRun.step
  split_ifs with hended
  · exact hserves
  · have hrunning := Bool.eq_false_iff.mpr hended
    cases label with
    | newConnection => exact hserves.onNewConnection
    | setMaxConnections max =>
        exact ⟨hserves.counted, hserves.settings, hserves.unused, hserves.waits, hserves.served⟩
    | close => exact hserves.closeAll
    | shutdown =>
        have hclosed := hserves.closeAll
        exact ⟨hclosed.counted, hclosed.settings, hclosed.unused, hclosed.waits, hclosed.served⟩
    | readyRead id chunk duration =>
        cases hget : s.connections[id]? with
        | none => simpa only [hget] using hserves
        | some connection =>
            simp only [hget]
            split_ifs with hreads
            · exact hserves.readyRead hrunning hget hreads.1 hreads.2 chunk duration
            · exact hserves
    | timeout id =>
        cases hget : s.connections[id]? with
        | none => simpa only [hget] using hserves
        | some connection =>
            simp only [hget]
            split_ifs with haccepted
            · exact hserves.timeout hget haccepted
            · exact hserves
    | disconnected id =>
        cases hget : s.connections[id]? with
        | none => simpa only [hget] using hserves
        | some connection =>
            simp only [hget]
            split_ifs with hstate haccepted
            · exact hserves
            · exact hserves.disconnected hget hstate haccepted
            · exact hserves.gone hget haccepted

variable (qt peerAddress) in
theorem serves_after (server : HttpServer Nat) (max : Int) (labels : List ServerStep) :
    Serves qt peerAddress server (after qt peerAddress { server with mBuffers := ∅ } max labels) :=
  run_induction
    { counted := rfl
      settings := ⟨∅, rfl⟩
      unused := fun id _ => HttpServer.buffer_empty server id
      waits := fun _ _ _ hget => by cases hget
      served := fun _ _ hget => by cases hget }
    (fun _ label hserves => hserves.step label) labels

/-- What a connection finds that comes: the server shuts down, or is at its limit, or takes it. -/
structure Arrived (s : ServerRun) (connection : ServerConnection) : Prop where
  shuttingDown : s.mShuttingDown = true →
    connection.accepted = false ∧ connection.written = [shuttingDownResponse]
  atLimit : s.mShuttingDown = false → s.atLimit →
    connection.accepted = false ∧ connection.written = [limitResponse]
  admitted : s.mShuttingDown = false → ¬ s.atLimit → connection.accepted = true

/-- Whether a connection was accepted stays, and so does what a refused one was answered. -/
def Keeps (old new : ServerConnection) : Prop :=
  new.accepted = old.accepted ∧ (old.accepted = false → new.written = old.written)

theorem Keeps.refl (connection : ServerConnection) : Keeps connection connection := ⟨rfl, fun _ => rfl⟩

theorem Arrived.keeps {old new : ServerConnection} (harrived : s.Arrived old) (hkeeps : Keeps old new) :
    s.Arrived new where
  shuttingDown hshutting := by
    obtain ⟨hrefused, hwritten⟩ := harrived.shuttingDown hshutting
    exact ⟨hkeeps.1.trans hrefused, (hkeeps.2 hrefused).trans hwritten⟩
  atLimit hrunning hfull := by
    obtain ⟨hrefused, hwritten⟩ := harrived.atLimit hrunning hfull
    exact ⟨hkeeps.1.trans hrefused, (hkeeps.2 hrefused).trans hwritten⟩
  admitted hrunning hroom := hkeeps.1.trans (harrived.admitted hrunning hroom)

theorem Arrived.written_of_refused {connection : ServerConnection} (harrived : s.Arrived connection)
    (hrefused : connection.accepted = false) :
    connection.written = [shuttingDownResponse] ∨ connection.written = [limitResponse] := by
  cases hshutting : s.mShuttingDown with
  | true => exact .inl (harrived.shuttingDown hshutting).2
  | false =>
      refine .inr (harrived.atLimit hshutting ?_).2
      by_contra hroom
      rw [harrived.admitted hshutting hroom] at hrefused
      cases hrefused

theorem onNewConnection_connections (s : ServerRun) :
    ∃ last, s.onNewConnection.connections = s.connections ++ [last] ∧ s.Arrived last := by
  unfold ServerRun.onNewConnection
  split_ifs with hshutting hfull
  · exact ⟨_, rfl, fun _ => ⟨rfl, rfl⟩, fun hrunning => by simp [hshutting] at hrunning,
      fun hrunning => by simp [hshutting] at hrunning⟩
  · exact ⟨_, rfl, fun hdown => absurd hdown hshutting, fun _ _ => ⟨rfl, rfl⟩,
      fun _ hroom => absurd hfull hroom⟩
  · exact ⟨_, rfl, fun hdown => absurd hdown hshutting, fun _ hat => absurd hat hfull, fun _ _ => rfl⟩

theorem keeps_of_set {connections : List ServerConnection} {id other : Nat}
    {old new connection : ServerConnection} (hold : connections[id]? = some old)
    (hget : (connections.set id new)[other]? = some connection) (hkeeps : Keeps old new) :
    ∃ before, connections[other]? = some before ∧ Keeps before connection := by
  rcases getElem?_set_cases hget with ⟨rfl, rfl⟩ | ⟨-, hsame⟩
  · exact ⟨old, hold, hkeeps⟩
  · exact ⟨connection, hsame, .refl connection⟩

theorem keeps_of_map {connections : List ServerConnection} {id : Nat} {connection : ServerConnection}
    (hget : (connections.map closed)[id]? = some connection) :
    ∃ before, connections[id]? = some before ∧ Keeps before connection := by
  rw [List.getElem?_map, Option.map_eq_some_iff] at hget
  obtain ⟨old, hold, rfl⟩ := hget
  obtain ⟨haccepted, -, hwritten⟩ := closed_eq old
  exact ⟨old, hold, haccepted, fun _ => hwritten⟩

/-- A connection was there before a step, or comes with it. -/
theorem step_connection {label : ServerStep} {id : Nat} {connection : ServerConnection}
    (hget : (ServerRun.step qt peerAddress s label).connections[id]? = some connection) :
    (∃ old, s.connections[id]? = some old ∧ Keeps old connection) ∨
      label = .newConnection ∧ s.ended = false ∧ id = s.connections.length ∧ s.Arrived connection := by
  have hsame (hget : s.connections[id]? = some connection) :
      ∃ old, s.connections[id]? = some old ∧ Keeps old connection := ⟨connection, hget, .refl connection⟩
  unfold ServerRun.step at hget
  split_ifs at hget with hended
  · exact .inl (hsame hget)
  cases label with
  | newConnection =>
      obtain ⟨last, hconnections, harrived⟩ := s.onNewConnection_connections
      simp only [hconnections] at hget
      rcases getElem?_concat_cases hget with hold | ⟨hlast, rfl⟩
      · exact .inl (hsame hold)
      · exact .inr ⟨rfl, Bool.eq_false_iff.mpr hended, hlast, harrived⟩
  | setMaxConnections max => exact .inl (hsame hget)
  | close => exact .inl (keeps_of_map hget)
  | shutdown => exact .inl (keeps_of_map hget)
  | readyRead other chunk duration =>
      left
      cases hother : s.connections[other]? with
      | none => exact hsame (by simpa only [hother] using hget)
      | some old =>
          simp only [hother] at hget
          split_ifs at hget with hreads
          · refine keeps_of_set hother hget ⟨rfl, fun hrefused => ?_⟩
            rw [hreads.1] at hrefused
            cases hrefused
          · exact hsame hget
  | timeout other =>
      left
      cases hother : s.connections[other]? with
      | none => exact hsame (by simpa only [hother] using hget)
      | some old =>
          simp only [hother] at hget
          split_ifs at hget
          · obtain ⟨haccepted, -, hwritten⟩ := closed_eq old
            exact keeps_of_set hother hget ⟨haccepted, fun _ => hwritten⟩
          · exact hsame hget
  | disconnected other =>
      left
      cases hother : s.connections[other]? with
      | none => exact hsame (by simpa only [hother] using hget)
      | some old =>
          simp only [hother] at hget
          split_ifs at hget
          · exact hsame hget
          · exact keeps_of_set hother hget ⟨rfl, fun _ => rfl⟩
          · exact keeps_of_set hother hget ⟨rfl, fun _ => rfl⟩

variable (qt peerAddress) in
/-- Every connection has come at a step of the run, and was dealt with as the server stood then. -/
theorem arrived_of_run (server : HttpServer Nat) (max : Int) (labels : List ServerStep) {id : Nat}
    {connection : ServerConnection}
    (hget : (after qt peerAddress server max labels).connections[id]? = some connection) :
    ∃ earlier later, labels = earlier ++ .newConnection :: later ∧
      (after qt peerAddress server max earlier).connections.length = id ∧
      (after qt peerAddress server max earlier).Arrived connection := by
  induction labels using List.reverseRecOn generalizing connection with
  | nil => cases hget
  | append_singleton labels label ih =>
      rw [after, run_concat] at hget
      rcases step_connection hget with ⟨old, hold, hkeeps⟩ | ⟨rfl, -, hid, harrived⟩
      · obtain ⟨earlier, later, hlabels, hlength, harrived⟩ := ih hold
        exact ⟨earlier, later ++ [label], by simp [hlabels], hlength, harrived.keeps hkeeps⟩
      · exact ⟨labels, [], rfl, hid.symm, harrived⟩

/-- The limit is positive and was never above `max`. -/
def Limited (max : Int) (s : ServerRun) : Prop :=
  0 < s.mMaxConnections ∧ s.mMaxConnections ≤ max ∧ s.mCurrentConnections ≤ max

theorem Limited.step {max : Int} (hlimited : s.Limited max) {label : ServerStep}
    (hlabel : ∀ limit, label = .setMaxConnections limit → 0 < limit ∧ limit ≤ max) :
    (ServerRun.step qt peerAddress s label).Limited max := by
  obtain ⟨hpositive, hbelow, hcount⟩ := hlimited
  unfold ServerRun.step
  split_ifs
  · exact ⟨hpositive, hbelow, hcount⟩
  · cases label with
    | newConnection =>
        simp only [onNewConnection]
        split_ifs with hshutting hfull
        · exact ⟨hpositive, hbelow, hcount⟩
        · exact ⟨hpositive, hbelow, hcount⟩
        · refine ⟨hpositive, hbelow, ?_⟩
          simp only [atLimit, not_and, not_le] at hfull
          have hroom := hfull hpositive
          change s.mCurrentConnections + 1 ≤ max
          omega
    | setMaxConnections limit => exact ⟨(hlabel limit rfl).1, (hlabel limit rfl).2, hcount⟩
    | close => exact ⟨hpositive, hbelow, hcount⟩
    | shutdown => exact ⟨hpositive, hbelow, hcount⟩
    | readyRead id chunk duration =>
        cases hget : s.connections[id]? with
        | none =>
            simp only [hget]
            exact ⟨hpositive, hbelow, hcount⟩
        | some connection =>
            simp only [hget]
            split_ifs
            · exact ⟨hpositive, hbelow, hcount⟩
            · exact ⟨hpositive, hbelow, hcount⟩
    | timeout id =>
        cases hget : s.connections[id]? with
        | none =>
            simp only [hget]
            exact ⟨hpositive, hbelow, hcount⟩
        | some connection =>
            simp only [hget]
            split_ifs
            · exact ⟨hpositive, hbelow, hcount⟩
            · exact ⟨hpositive, hbelow, hcount⟩
    | disconnected id =>
        cases hget : s.connections[id]? with
        | none =>
            simp only [hget]
            exact ⟨hpositive, hbelow, hcount⟩
        | some connection =>
            simp only [hget]
            split_ifs
            · exact ⟨hpositive, hbelow, hcount⟩
            · exact ⟨hpositive, hbelow, (Int.sub_le_self _ (by decide)).trans hcount⟩
            · exact ⟨hpositive, hbelow, hcount⟩

/-- The counter is the number of connections that were accepted and are not disconnected, and never above
the greatest limit that was set. -/
theorem connections_of_run (server : HttpServer Nat) {max : Int} {labels : List ServerStep} (hmax : 0 < max)
    (hlimits : ∀ limit, .setMaxConnections limit ∈ labels → 0 < limit ∧ limit ≤ max) :
    (after qt peerAddress { server with mBuffers := ∅ } max labels).mCurrentConnections =
        (after qt peerAddress { server with mBuffers := ∅ } max labels).connections.countP
          ServerConnection.isOpen ∧
      (after qt peerAddress { server with mBuffers := ∅ } max labels).mCurrentConnections ≤ max := by
  refine ⟨(serves_after qt peerAddress server max labels).counted, ?_⟩
  have hrun : Along (ServerRun.step qt peerAddress)
      (fun _ label => ∀ limit, label = .setMaxConnections limit → 0 < limit ∧ limit ≤ max)
      { server := { server with mBuffers := ∅ }, mMaxConnections := max } labels :=
    Along.of_forall_mem fun label hmem _ limit hlabel => hlimits limit (hlabel ▸ hmem)
  have hlimited := hrun.induction (P := Limited max) ⟨hmax, Int.le_refl max, Int.le_of_lt hmax⟩
    fun _ _ hlimited hlabel => hlimited.step hlabel
  exact hlimited.2.2

/-- One is allowed; the second is refused, and the third comes after the first has gone. -/
def threeConnections : List ServerStep :=
  [.newConnection, .newConnection, .disconnected 0, .newConnection]

theorem connections_of_run_threeConnections :
    (after asciiQt (fun _ => "::1") {} 1 threeConnections).mCurrentConnections ≤ 1 :=
  (connections_of_run {} (by decide) (by simp [threeConnections])).2

/-- A request that arrives in two pieces, and a second connection between the two. -/
def twoPieces : List ServerStep :=
  [.newConnection, .readyRead 0 (ascii "GET /a HTT") 1, .newConnection,
    .readyRead 0 (ascii "P/1.1\r\nHost: a\r\n\r\n") 2]

def notFound : HttpResponse := { mStatus := 404, mBody := ascii "Not Found" }

end

end ServerRun

end SoulCoreKit.Server
