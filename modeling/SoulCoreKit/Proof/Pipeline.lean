import SoulCoreKit.Server.HttpServer

/-!
# A request on its way through the server

Each stage adds events of its own kind to the trace: the before chain its calls up to the first that
does not return true, the handlers at most one call, the after chain one call for each middleware from
the last to the first. A stage that catches an exception leaves status 500 behind; the after chain may
change the response that it is given.
-/

namespace SoulCoreKit.Server

/-! ### Reading a trace -/

inductive Event.Kind where
  | before
  | handling
  | after
  | log
  | reply
  deriving DecidableEq, Repr

def Event.kind : Event → Event.Kind
  | .before _ _ => .before
  | .handler _ => .handling
  | .notFoundHandler _ => .handling
  | .after _ _ => .after
  | .logged _ => .log
  | .written _ => .reply
  | .requestHandled _ _ _ => .reply

def Event.before? : Event → Option (Nat × Except Thrown Bool)
  | .before place result => some (place, result)
  | _ => none

def Event.after? : Event → Option Nat
  | .after place _ => some place
  | _ => none

/-- The calls of `before`, in order, with what they came to. -/
def befores (trace : List Event) : List (Nat × Except Thrown Bool) := trace.filterMap Event.before?

/-- The places whose `after` is called, in order. -/
def afters (trace : List Event) : List Nat := trace.filterMap Event.after?

/-- The handler of a route or the not-found handler is called. -/
def Invoked (trace : List Event) : Prop := ∃ event ∈ trace, event.kind = .handling

def BeforeThrew (trace : List Event) : Prop := ∃ place thrown, .before place (.error thrown) ∈ trace

def HandlerThrew (trace : List Event) : Prop := ∃ thrown, .handler (.error thrown) ∈ trace

def NotFoundHandlerThrew (trace : List Event) : Prop :=
  ∃ thrown, .notFoundHandler (.error thrown) ∈ trace

/-- Every `before` of a chain of `n` middlewares is called in order and returns true. -/
def allBefores (n : Nat) : List (Nat × Except Thrown Bool) :=
  (List.range n).map fun place => (place, .ok true)

/-- The response after an exception was caught. -/
def HttpResponse.IsInternalError (response : HttpResponse) : Prop :=
  response.mStatus = 500 ∧ response.mBody = ascii "Internal Server Error"

theorem filterMap_eq_nil {A : Type} {project : Event → Option A} {kind : Event.Kind}
    {events : List Event} (hproject : ∀ event, event.kind ≠ kind → project event = none)
    (hkinds : ∀ event ∈ events, event.kind ≠ kind) : events.filterMap project = [] := by
  rw [List.filterMap_eq_nil_iff]
  intro event hevent
  exact hproject event (hkinds event hevent)

theorem before?_of_kind (event : Event) (hkind : event.kind ≠ .before) : event.before? = none := by
  cases event <;> simp_all [Event.kind, Event.before?]

theorem after?_of_kind (event : Event) (hkind : event.kind ≠ .after) : event.after? = none := by
  cases event <;> simp_all [Event.kind, Event.after?]

theorem written?_of_kind (event : Event) (hkind : event.kind ≠ .reply) : event.written? = none := by
  cases event <;> simp_all [Event.kind, Event.written?]

/-! ### The stages -/

namespace Exchange

/-- The events a stage added are of its kind, or log entries. -/
structure Adds (x x' : Exchange) (kind : Event.Kind) (added : List Event) : Prop where
  trace : x'.trace = x.trace ++ added
  kinds : ∀ event ∈ added, event.kind = kind ∨ event.kind = .log

theorem Adds.record {x y : Exchange} {event : Event} {kind : Event.Kind} (hsame : y.trace = x.trace)
    (hkind : event.kind = kind ∨ event.kind = .log) : Adds x (y.record event) kind [event] :=
  ⟨by rw [Exchange.record, hsame], by simpa using hkind⟩

theorem Adds.trans {x x' x'' : Exchange} {kind : Event.Kind} {first second : List Event}
    (hfirst : Adds x x' kind first) (hsecond : Adds x' x'' kind second) :
    Adds x x'' kind (first ++ second) := by
  refine ⟨by rw [hsecond.trace, hfirst.trace, List.append_assoc], ?_⟩
  intro event hevent
  obtain hevent | hevent := List.mem_append.mp hevent
  · exact hfirst.kinds event hevent
  · exact hsecond.kinds event hevent

theorem Adds.kind_ne {x x' : Exchange} {kind other : Event.Kind} {added : List Event}
    (hadds : Adds x x' kind added) {event : Event} (hevent : event ∈ added)
    (hother : other ≠ kind ∧ other ≠ .log) : event.kind ≠ other := by
  obtain hkind | hkind := hadds.kinds event hevent
  · rw [hkind]
    exact hother.1.symm
  · rw [hkind]
    exact hother.2.symm

theorem Adds.mem_right {x x' : Exchange} {kind : Event.Kind} {added later : List Event}
    (hadds : Adds x x' kind added) {event : Event} (hevent : event ∈ added ++ later)
    (hkind : event.kind ≠ kind ∧ event.kind ≠ .log) : event ∈ later := by
  obtain hevent | hevent := List.mem_append.mp hevent
  · exact absurd rfl (hadds.kind_ne hevent hkind)
  · exact hevent

theorem internalError_spec (x : Exchange) (message : String) (kind : Event.Kind) :
    Adds x (x.internalError message) kind [.logged message] ∧
      (x.internalError message).response.IsInternalError ∧
      (x.internalError message).req = x.req :=
  ⟨⟨rfl, by simp [Event.kind]⟩, ⟨rfl, rfl⟩, rfl⟩

/-- A chain of calls that all return true, or one that ends with the first that does not. -/
theorem beforeChain_spec (place : Nat) (middlewares : List IMiddleware) (x : Exchange) :
    ∃ added, Adds x (beforeChain place middlewares x).2 .before added ∧
      (((beforeChain place middlewares x).1 = true ∧
          befores added = (List.range' place middlewares.length).map fun i => (i, .ok true)) ∨
        ((beforeChain place middlewares x).1 = false ∧ (∃ call ∈ befores added, call.2 ≠ .ok true) ∧
          (BeforeThrew added → (beforeChain place middlewares x).2.response.IsInternalError))) := by
  induction middlewares generalizing place x with
  | nil => exact ⟨[], ⟨by simp [beforeChain], by simp⟩, Or.inl ⟨rfl, rfl⟩⟩
  | cons mw rest ih =>
      rw [beforeChain]
      generalize mw.before x.req x.response = called
      obtain ⟨result, req, response⟩ := called
      simp only
      have hcall : Adds x (record { x with req, response } (.before place result)) .before
          [.before place result] := Adds.record rfl (Or.inl rfl)
      cases result with
      | error thrown =>
          obtain ⟨hlog, herror, _⟩ := internalError_spec
            (record { x with req, response } (.before place (.error thrown)))
            (thrown.describe ("HttpServer: middleware " ++ mw.name ++ " before()")) .before
          exact ⟨_, hcall.trans hlog, Or.inr ⟨rfl, ⟨_, List.mem_cons_self, by simp⟩, fun _ => herror⟩⟩
      | ok more =>
          cases more with
          | false =>
              refine ⟨_, hcall, Or.inr ⟨rfl, ⟨_, List.mem_cons_self, by simp⟩, ?_⟩⟩
              rintro ⟨_, _, hmem⟩
              simp at hmem
          | true =>
              obtain ⟨added, hadded, hrest⟩ :=
                ih (place + 1) (record { x with req, response } (.before place (.ok true)))
              refine ⟨_, hcall.trans hadded, ?_⟩
              have hbefores : befores ([.before place (.ok true)] ++ added) =
                  (place, .ok true) :: befores added := rfl
              obtain ⟨htrue, hcalls⟩ | ⟨hfalse, ⟨call, hcalled, hnot⟩, hthrew⟩ := hrest
              · refine Or.inl ⟨htrue, ?_⟩
                rw [hbefores, hcalls, List.length_cons, List.range'_succ, List.map_cons]
              · refine Or.inr ⟨hfalse, ⟨call, ?_, hnot⟩, ?_⟩
                · rw [hbefores]
                  exact List.mem_cons_of_mem _ hcalled
                · rintro ⟨at', thrown, hmem⟩
                  apply hthrew
                  exact ⟨at', thrown, by simpa using hmem⟩

theorem callAfter_spec (duration : Int) (list : List (IMiddleware × Nat)) (x : Exchange) :
    ∃ added, Adds x (list.foldl (callAfter duration) x) .after added ∧
      afters added = list.map Prod.snd ∧ (list.foldl (callAfter duration) x).req = x.req ∧
      (list.foldl (callAfter duration) x).response =
        list.foldl (fun response mw => (mw.1.after x.req response duration).2) x.response := by
  induction list generalizing x with
  | nil => exact ⟨[], ⟨by simp, by simp⟩, rfl, rfl, rfl⟩
  | cons mw rest ih =>
      have hfirst : ∃ first, Adds x (callAfter duration x mw) .after first ∧ afters first = [mw.2] ∧
          (callAfter duration x mw).req = x.req ∧
          (callAfter duration x mw).response = (mw.1.after x.req x.response duration).2 := by
        unfold callAfter
        generalize mw.1.after x.req x.response duration = called
        obtain ⟨result, response⟩ := called
        have hcall : Adds x (record { x with response } (.after mw.2 result)) .after
            [.after mw.2 result] := Adds.record rfl (Or.inl rfl)
        cases result with
        | ok _ => exact ⟨_, hcall, rfl, rfl, rfl⟩
        | error thrown => exact ⟨_, hcall.trans (Adds.record rfl (Or.inr rfl)), rfl, rfl, rfl⟩
      obtain ⟨first, hadds, hafters, hreq, hresponse⟩ := hfirst
      obtain ⟨added, hadded, hrest, hreq', hresponse'⟩ := ih (callAfter duration x mw)
      refine ⟨first ++ added, hadds.trans hadded, ?_, hreq'.trans hreq, ?_⟩
      · unfold afters at hafters hrest ⊢
        rw [List.filterMap_append, hafters, hrest]
        rfl
      · rw [List.foldl_cons, hresponse', hreq, hresponse, List.foldl_cons]

/-- What the after chain makes of a response. -/
def afterResponse (duration : Int) (middlewares : List IMiddleware) (req : HttpRequest)
    (response : HttpResponse) : HttpResponse :=
  middlewares.reverse.foldl (fun response mw => (mw.after req response duration).2) response

theorem afterChain_spec (duration : Int) (middlewares : List IMiddleware) (x : Exchange) :
    ∃ added, Adds x (x.afterChain duration middlewares) .after added ∧
      afters added = (List.range middlewares.length).reverse ∧
      (x.afterChain duration middlewares).response =
        afterResponse duration middlewares x.req x.response := by
  obtain ⟨added, hadds, hafters, _, hresponse⟩ :=
    callAfter_spec duration middlewares.zipIdx.reverse x
  refine ⟨added, hadds, ?_, ?_⟩
  · rw [hafters, List.map_reverse]
    congr 1
    simp [List.range_eq_range']
  · rw [afterChain, hresponse, afterResponse]
    have hmap : middlewares.reverse = middlewares.zipIdx.reverse.map Prod.fst := by
      rw [List.map_reverse]
      simp
    rw [hmap, List.foldl_map]

theorem sendResponse_spec (unconnected : Bool) (x : Exchange) :
    ∃ added, Adds x ((x.sendResponse unconnected).record (.requestHandled
        (x.sendResponse unconnected).req.mMethod.toString (x.sendResponse unconnected).req.mPath
        (x.sendResponse unconnected).response.mStatus)) .reply added ∧
      responses added = if unconnected then [] else [x.response] := by
  cases unconnected with
  | true => exact ⟨_, Adds.record rfl (Or.inl rfl), rfl⟩
  | false =>
      have hwritten : Adds x (x.record (.written x.response)) .reply [.written x.response] :=
        Adds.record rfl (Or.inl rfl)
      exact ⟨_, hwritten.trans (Adds.record rfl (Or.inl rfl)), rfl⟩

end Exchange

namespace HttpServer

variable {Socket : Type}

/-- There is a handler to call for a request. -/
def HasHandler (s : HttpServer Socket) (req : HttpRequest) : Prop :=
  (s.findRoute req.mMethod req.mPath).isSome = true ∨ s.mNotFoundHandler.isSome = true

theorem handle_spec (s : HttpServer Socket) (x : Exchange) :
    ∃ added, Exchange.Adds x (s.handle x).2 .handling added ∧
      (Invoked added ↔ s.HasHandler x.req) ∧
      ((s.handle x).1.isSome = true ↔ NotFoundHandlerThrew added) ∧
      (HandlerThrew added → (s.handle x).2.response.IsInternalError) ∧
      (s.handle x).2.req = x.req := by
  unfold handle HasHandler
  cases s.findRoute x.req.mMethod x.req.mPath with
  | some handler =>
      simp only
      generalize handler x.req x.response = called
      obtain ⟨result, response⟩ := called
      have hcall : Exchange.Adds x (Exchange.record { x with response } (.handler result)) .handling
          [.handler result] := Exchange.Adds.record rfl (Or.inl rfl)
      cases result with
      | ok _ =>
          refine ⟨_, hcall, ?_, ?_, ?_, rfl⟩
          · simp [Invoked, Event.kind]
          · simp [NotFoundHandlerThrew]
          · rintro ⟨_, hmem⟩
            simp at hmem
      | error thrown =>
          obtain ⟨hlog, herror, hreq⟩ := Exchange.internalError_spec
            (Exchange.record { x with response } (.handler (.error thrown)))
            (thrown.describe "HttpServer: handler") .handling
          refine ⟨_, hcall.trans hlog, ?_, ?_, fun _ => herror, hreq⟩
          · simp [Invoked, Event.kind]
          · simp [NotFoundHandlerThrew]
  | none =>
      cases s.mNotFoundHandler with
      | some notFoundHandler =>
          simp only
          generalize notFoundHandler x.req x.response = called
          obtain ⟨result, response⟩ := called
          have hcall : Exchange.Adds x (Exchange.record { x with response } (.notFoundHandler result))
              .handling [.notFoundHandler result] := Exchange.Adds.record rfl (Or.inl rfl)
          cases result with
          | ok _ =>
              refine ⟨_, hcall, ?_, ?_, ?_, rfl⟩
              · simp [Invoked, Event.kind]
              · simp [NotFoundHandlerThrew]
              · rintro ⟨_, hmem⟩
                simp at hmem
          | error thrown =>
              refine ⟨_, hcall, ?_, ?_, ?_, rfl⟩
              · simp [Invoked, Event.kind]
              · simp [NotFoundHandlerThrew]
              · rintro ⟨_, hmem⟩
                simp at hmem
      | none =>
          refine ⟨[], ⟨by simp, by simp⟩, ?_, ?_, ?_, rfl⟩
          · simp [Invoked]
          · simp [NotFoundHandlerThrew]
          · rintro ⟨_, hmem⟩
            simp at hmem

/-- What holds when the before chain and the handlers are done. -/
structure Handled (s : HttpServer Socket) (done : Option Thrown × Exchange) : Prop where
  kinds : ∀ event ∈ done.2.trace, event.kind ≠ .after ∧ event.kind ≠ .reply
  invoked : Invoked done.2.trace ↔
    befores done.2.trace = allBefores s.mMiddlewares.length ∧ s.HasHandler done.2.req
  escaped : done.1.isSome = true ↔ NotFoundHandlerThrew done.2.trace
  caught : BeforeThrew done.2.trace ∨ HandlerThrew done.2.trace → done.2.response.IsInternalError

theorem Handled.of_true {s : HttpServer Socket} {req : HttpRequest} {x : Exchange}
    {first : List Event} (hfirst : Exchange.Adds { req } x .before first)
    (hcalls : befores first = (List.range' 0 s.mMiddlewares.length).map fun i => (i, .ok true)) :
    Handled s (s.handle x) := by
  obtain ⟨second, hsecond, hinvoked, hescaped, herror, hreq⟩ := s.handle_spec x
  have htrace : (s.handle x).2.trace = first ++ second := by
    rw [hsecond.trace, hfirst.trace]
    rfl
  have hbefores : befores (first ++ second) = allBefores s.mMiddlewares.length := by
    have hnone : second.filterMap Event.before? = [] :=
      filterMap_eq_nil before?_of_kind fun event hevent => hsecond.kind_ne hevent (by decide)
    unfold befores at hcalls ⊢
    rw [List.filterMap_append, hnone, List.append_nil, hcalls, allBefores, List.range_eq_range']
  constructor
  case kinds =>
    rw [htrace]
    intro event hevent
    obtain hevent | hevent := List.mem_append.mp hevent
    · exact ⟨hfirst.kind_ne hevent (by decide), hfirst.kind_ne hevent (by decide)⟩
    · exact ⟨hsecond.kind_ne hevent (by decide), hsecond.kind_ne hevent (by decide)⟩
  case invoked =>
    rw [htrace, hbefores, hreq, ← hinvoked]
    constructor
    · rintro ⟨event, hevent, hkind⟩
      exact ⟨rfl, event, hfirst.mem_right hevent (by simp [hkind]), hkind⟩
    · rintro ⟨_, event, hevent, hkind⟩
      exact ⟨event, List.mem_append_right first hevent, hkind⟩
  case escaped =>
    rw [htrace, hescaped]
    constructor
    · rintro ⟨thrown, hmem⟩
      exact ⟨thrown, List.mem_append_right first hmem⟩
    · rintro ⟨thrown, hmem⟩
      exact ⟨thrown, hfirst.mem_right hmem (by simp [Event.kind])⟩
  case caught =>
    rw [htrace]
    rintro (⟨place, thrown, hmem⟩ | ⟨thrown, hmem⟩)
    · have hcall : (place, Except.error thrown) ∈ befores (first ++ second) :=
        List.mem_filterMap.mpr ⟨_, hmem, rfl⟩
      rw [hbefores, allBefores] at hcall
      simp at hcall
    · exact herror ⟨thrown, hfirst.mem_right hmem (by simp [Event.kind])⟩

theorem Handled.of_false {s : HttpServer Socket} {req : HttpRequest} {x : Exchange}
    {first : List Event} (hfirst : Exchange.Adds { req } x .before first)
    (hcut : ∃ call ∈ befores first, call.2 ≠ .ok true)
    (hthrew : BeforeThrew first → x.response.IsInternalError) : Handled s (none, x) := by
  have htrace : x.trace = first := hfirst.trace
  constructor
  case kinds =>
    rw [htrace]
    intro event hevent
    exact ⟨hfirst.kind_ne hevent (by decide), hfirst.kind_ne hevent (by decide)⟩
  case invoked =>
    rw [htrace]
    constructor
    · rintro ⟨event, hevent, hkind⟩
      exact absurd hkind (hfirst.kind_ne hevent (by decide))
    · rintro ⟨hall, _⟩
      obtain ⟨call, hcalled, hnot⟩ := hcut
      rw [hall, allBefores] at hcalled
      obtain ⟨place, _, rfl⟩ := List.mem_map.mp hcalled
      exact absurd rfl hnot
  case escaped =>
    rw [htrace]
    constructor
    · intro hsome
      contradiction
    · rintro ⟨thrown, hmem⟩
      exact absurd rfl (hfirst.kind_ne hmem (by simp [Event.kind]))
  case caught =>
    rw [htrace]
    rintro (hbefore | ⟨thrown, hmem⟩)
    · exact hthrew hbefore
    · exact absurd rfl (hfirst.kind_ne hmem (by simp [Event.kind]))

theorem handled_spec (s : HttpServer Socket) (req : HttpRequest) : Handled s (s.handled req) := by
  obtain ⟨first, hfirst, ⟨htrue, hcalls⟩ | ⟨hfalse, hcut, hthrew⟩⟩ :=
    Exchange.beforeChain_spec 0 s.mMiddlewares { req }
  · rw [handled, if_pos htrue]
    exact Handled.of_true hfirst hcalls
  · rw [handled, if_neg (by simp [hfalse])]
    exact Handled.of_false hfirst hcut hthrew

/-- What is added to the trace of `handled`: nothing where an exception leaves, and otherwise the after
chain and the response. -/
theorem respond_spec (s : HttpServer Socket) (unconnected : Bool) (duration : Int)
    (req : HttpRequest) :
    ∃ later, (s.respond unconnected duration req).2.trace = (s.handled req).2.trace ++ later ∧
      (∀ event ∈ later, event.kind = .after ∨ event.kind = .log ∨ event.kind = .reply) ∧
      ((s.handled req).1 = none → afters later = (List.range s.mMiddlewares.length).reverse ∧
        responses later =
          if unconnected then [] else [Exchange.afterResponse duration s.mMiddlewares
            (s.handled req).2.req (s.handled req).2.response]) := by
  rw [respond]
  generalize s.handled req = handled
  obtain ⟨escaped, x⟩ := handled
  cases escaped with
  | some thrown => exact ⟨[], by simp [finish], by simp, by simp⟩
  | none =>
      obtain ⟨added, hadds, hafters, hresponse⟩ :=
        Exchange.afterChain_spec duration s.mMiddlewares x
      obtain ⟨replies, hreplies, hsent⟩ := Exchange.sendResponse_spec unconnected
        (x.afterChain duration s.mMiddlewares)
      have hresponses : responses added = [] :=
        filterMap_eq_nil written?_of_kind fun event hevent => hadds.kind_ne hevent (by decide)
      have hafters' : afters replies = [] :=
        filterMap_eq_nil after?_of_kind fun event hevent => hreplies.kind_ne hevent (by decide)
      refine ⟨added ++ replies, ?_, ?_, fun _ => ⟨?_, ?_⟩⟩
      · rw [finish, hreplies.trace, hadds.trace, List.append_assoc]
      · intro event hevent
        obtain hevent | hevent := List.mem_append.mp hevent
        · exact (hadds.kinds event hevent).imp_right Or.inl
        · exact Or.inr (hreplies.kinds event hevent).symm
      · unfold afters at hafters hafters' ⊢
        rw [List.filterMap_append, hafters, hafters', List.append_nil]
      · unfold responses at hresponses hsent ⊢
        rw [List.filterMap_append, hresponses, hsent, List.nil_append, hresponse]

/-- A handler is called exactly where every `before` returned true and there is one to call. Unless the
not-found handler threw, every `after` is called once, from the last to the first, and one response is
sent if the socket is still connected: what the after chain makes of a response that has status 500
where a `before` or the handler of the route threw. -/
theorem respond_contract (s : HttpServer Socket) (unconnected : Bool) (duration : Int)
    (req : HttpRequest) {trace : List Event}
    (hrun : (s.respond unconnected duration req).2.trace = trace) :
    (Invoked trace ↔
      befores trace = allBefores s.mMiddlewares.length ∧ s.HasHandler (s.handled req).2.req) ∧
    (¬ NotFoundHandlerThrew trace →
      afters trace = (List.range s.mMiddlewares.length).reverse ∧
      responses trace =
        (if unconnected then [] else [Exchange.afterResponse duration s.mMiddlewares
          (s.handled req).2.req (s.handled req).2.response]) ∧
      (BeforeThrew trace ∨ HandlerThrew trace → (s.handled req).2.response.IsInternalError)) := by
  have hdone := s.handled_spec req
  obtain ⟨later, htrace, hlater, hfinished⟩ := s.respond_spec unconnected duration req
  rw [← hrun, htrace]
  have hearlier {event : Event} (hevent : event ∈ (s.handled req).2.trace ++ later)
      (hkind : event.kind = .before ∨ event.kind = .handling) : event ∈ (s.handled req).2.trace := by
    obtain hevent | hevent := List.mem_append.mp hevent
    · exact hevent
    · obtain hlater | hlater | hlater := hlater event hevent <;> simp [hlater] at hkind
  have hbefores : befores ((s.handled req).2.trace ++ later) = befores (s.handled req).2.trace := by
    have hnone : later.filterMap Event.before? = [] := by
      apply filterMap_eq_nil before?_of_kind
      intro event hevent
      obtain hkind | hkind | hkind := hlater event hevent <;> simp [hkind]
    rw [befores, List.filterMap_append, hnone, List.append_nil, befores]
  constructor
  · rw [hbefores, ← hdone.invoked]
    constructor
    · rintro ⟨event, hevent, hkind⟩
      exact ⟨event, hearlier hevent (Or.inr hkind), hkind⟩
    · rintro ⟨event, hevent, hkind⟩
      exact ⟨event, List.mem_append_left later hevent, hkind⟩
  · intro hnot
    have hnone : (s.handled req).1 = none := by
      rw [← Option.not_isSome_iff_eq_none, hdone.escaped]
      rintro ⟨thrown, hmem⟩
      exact hnot ⟨thrown, List.mem_append_left later hmem⟩
    obtain ⟨hafters, hresponses⟩ := hfinished hnone
    have hafters' : (s.handled req).2.trace.filterMap Event.after? = [] :=
      filterMap_eq_nil after?_of_kind fun event hevent => (hdone.kinds event hevent).1
    have hresponses' : (s.handled req).2.trace.filterMap Event.written? = [] :=
      filterMap_eq_nil written?_of_kind fun event hevent => (hdone.kinds event hevent).2
    refine ⟨?_, ?_, ?_⟩
    · rw [← hafters, afters, List.filterMap_append, hafters', List.nil_append, afters]
    · rw [← hresponses, responses, List.filterMap_append, hresponses', List.nil_append, responses]
    · rintro (⟨place, thrown, hmem⟩ | ⟨thrown, hmem⟩)
      · exact hdone.caught (Or.inl ⟨place, thrown, hearlier hmem (Or.inl rfl)⟩)
      · exact hdone.caught (Or.inr ⟨thrown, hearlier hmem (Or.inr rfl)⟩)

end HttpServer

/-! ### A middleware that answers after all -/

/-- What one might expect of a request that goes through `n` middlewares. -/
structure PipelineContract (n : Nat) (trace : List Event) : Prop where
  handled : Invoked trace ↔ befores trace = allBefores n
  finished : afters trace = (List.range n).reverse
  answered : ∃ response, responses trace = [response] ∧
    (BeforeThrew trace ∨ HandlerThrew trace ∨ NotFoundHandlerThrew trace → response.mStatus = 500)

/-- Its `after` sets status 200. -/
def lenientMiddleware : IMiddleware where
  name := "Lenient"
  before req response := (.ok true, req, response)
  after _ response _ := (.ok (), { response with mStatus := 200 })

/-- One route, whose handler throws. -/
def throwingServer : HttpServer Unit where
  mRoutes := Finmap.insert (.get, "/")
    (some fun _ response => (.error (.exception "no data"), response)) ∅
  mMiddlewares := [lenientMiddleware]

def throwingTrace : List Event :=
  [.before 0 (.ok true), .handler (.error (.exception "no data")),
    .logged "HttpServer: handler exception: no data", .after 0 (.ok ()),
    .written { mStatus := 200, mBody := ascii "Internal Server Error" },
    .requestHandled "GET" "/" 200]

theorem throwingServer_trace :
    (throwingServer.respond false 3 { mPath := "/" }).2.trace = throwingTrace := rfl

theorem respond_contract_throwingServer :
    afters throwingTrace = [0] ∧
      (throwingServer.handled { mPath := "/" }).2.response.IsInternalError := by
  have hcontract := (HttpServer.respond_contract throwingServer false 3 { mPath := "/" }
    throwingServer_trace).2 (by simp [NotFoundHandlerThrew, throwingTrace])
  exact ⟨hcontract.1, hcontract.2.2 (Or.inr ⟨.exception "no data", by simp [throwingTrace]⟩)⟩

/-- The handler throws, and the response that is sent has status 200. -/
theorem lenient_response_not_500 :
    ¬ PipelineContract 1 (throwingServer.respond false 3 { mPath := "/" }).2.trace := by
  rw [throwingServer_trace]
  intro hcontract
  obtain ⟨response, hresponses, hstatus⟩ := hcontract.answered
  have hsent : responses throwingTrace =
      [{ mStatus := 200, mBody := ascii "Internal Server Error" }] := rfl
  rw [hsent, List.singleton_inj] at hresponses
  have hthrew : HandlerThrew throwingTrace := ⟨.exception "no data", by simp [throwingTrace]⟩
  have hfive := hstatus (Or.inr (Or.inl hthrew))
  rw [← hresponses] at hfive
  contradiction

end SoulCoreKit.Server
