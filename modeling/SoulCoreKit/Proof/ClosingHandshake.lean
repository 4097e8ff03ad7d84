import SoulCoreKit.Server.WebSocket

/-!
# The closing handshake

A session that has written or received a Close frame is no longer open, and a session that is not open writes
nothing and calls no handler for a message: every way to do so looks at `mOpen` first. Both are kept by what a
handler does in the middle of the receive loop, since the loop looks at `mOpen` again before the next frame.
-/

namespace SoulCoreKit.Server

namespace Act

def frame : Act → Option Bytes
  | .wrote frame => some frame
  | .received _ => none
  | .told _ => none

def callback : Act → Option Callback
  | .wrote _ => none
  | .received _ => none
  | .told callback => some callback

/-- A frame of the server whose opcode is that of Close. -/
def IsCloseFrame (act : Act) : Prop := ∃ frame, act = .wrote frame ∧ frame.head? = some 0x88

/-- A Close frame is sent or received. -/
def IsClose (act : Act) : Prop := act.IsCloseFrame ∨ act = .received 8

def IsFrame (act : Act) : Prop := ∃ frame, act = .wrote frame

def IsMessage (act : Act) : Prop := ∃ payload isText, act = .told (.message payload isText)

/-- What may follow what. -/
def Precedes (first later : Act) : Prop :=
  (first.IsCloseFrame → ¬ later.IsFrame) ∧ (first.IsClose → ¬ later.IsMessage)

end Act

namespace WebSocketSession

/-- A step that writes one frame at most, and leaves the session closed if that is a Close frame. -/
structure WritesOne (s s' : WebSocketSession) : Prop where
  written : s'.written = s.written ∨ ∃ frame, s'.written = s.written ++ [frame] ∧
    (frame.head? = some 0x88 → s'.mOpen = false)
  callbacks : s'.callbacks = s.callbacks

variable (s : WebSocketSession)

theorem frameBytes_head (opCode : WebSocketOpCode) (payload : Bytes) :
    (frameBytes opCode payload).head? = some (UInt8.ofNat (0x80 + opCode.value)) := rfl

theorem sendFrame_mOpen (opCode : WebSocketOpCode) (payload : Bytes) :
    (s.sendFrame opCode payload).mOpen = s.mOpen := by
  unfold sendFrame
  split <;> rfl

variable {s}

/-- A step that comes to one call of `sendFrame`. -/
theorem WritesOne.of_sendFrame {before s' : WebSocketSession} (opCode : WebSocketOpCode) (payload : Bytes)
    (hbefore : before.written = s.written) (hcalled : before.callbacks = s.callbacks)
    (hwritten : s'.written = (before.sendFrame opCode payload).written)
    (hcallbacks : s'.callbacks = (before.sendFrame opCode payload).callbacks)
    (hclose : opCode = .close → s'.mOpen = false) : s.WritesOne s' := by
  unfold sendFrame at hwritten hcallbacks
  split at hwritten
  · rename_i hlost
    rw [if_pos hlost] at hcallbacks
    exact ⟨Or.inl (hwritten.trans hbefore), hcallbacks.trans hcalled⟩
  · rename_i hconnected
    rw [if_neg hconnected] at hcallbacks
    refine ⟨Or.inr ⟨frameBytes opCode payload, ?_, fun hhead => hclose ?_⟩, hcallbacks.trans hcalled⟩
    · rw [hwritten, hbefore]
    · rw [frameBytes_head] at hhead
      cases opCode <;> simp_all [WebSocketOpCode.value]

theorem WritesOne.refl : s.WritesOne s := ⟨Or.inl rfl, rfl⟩

theorem call_of_closed (hclosed : s.mOpen = false) (c : SessionCall) : s.call c = s := by
  cases c with
  | send data isText => simp [call, send, hclosed]
  | close code reason => simp [call, close, hclosed]

theorem call_writesOne (c : SessionCall) : s.WritesOne (s.call c) := by
  cases c with
  | send data isText =>
      rw [call, send]
      split
      · exact WritesOne.refl
      · refine WritesOne.of_sendFrame _ data rfl rfl rfl rfl ?_
        cases isText <;> simp
  | close code reason =>
      rw [call, close]
      split
      · exact WritesOne.refl
      · split
        · exact WritesOne.refl
        · exact @WritesOne.of_sendFrame s { s with mClosing := true } _ .close
            ([byteAt code 1, byteAt code 0] ++ reason) rfl rfl rfl rfl fun _ => rfl

/-- A Close frame is answered by a session that is no longer open. -/
theorem sendCloseFrame_writesOne {before : WebSocketSession} (hwritten : before.written = s.written)
    (hcallbacks : before.callbacks = s.callbacks) (hclosed : before.mOpen = false) (code : Nat) :
    s.WritesOne { before.sendCloseFrame code [] with connected := false } ∧
      { before.sendCloseFrame code [] with connected := false }.mOpen = false := by
  have hopen : (before.sendCloseFrame code []).mOpen = false :=
    (before.sendFrame_mOpen .close _).trans hclosed
  exact ⟨WritesOne.of_sendFrame .close _ hwritten hcallbacks rfl rfl fun _ => hopen, hopen⟩

/-- The branches of the switch that call no handler. -/
theorem dispatch_writesOne (h : Handlers) {opCode : Nat} {kind : WebSocketOpCode}
    (hkind : WebSocketOpCode.ofValue opCode = some kind) (htext : kind ≠ .text) (hbinary : kind ≠ .binary)
    (payload : Bytes) :
    s.WritesOne (s.dispatch h opCode payload) ∧
      (kind = .close → (s.dispatch h opCode payload).mOpen = false) := by
  unfold dispatch
  rw [hkind]
  cases kind with
  | text => contradiction
  | binary => contradiction
  | continuation => exact ⟨WritesOne.refl, by simp⟩
  | pong => exact ⟨WritesOne.refl, by simp⟩
  | ping => exact ⟨WritesOne.of_sendFrame .pong payload rfl rfl rfl rfl (by simp), by simp⟩
  | close =>
      have hanswered (code : Nat) :=
        @sendCloseFrame_writesOne s { s with mOpen := false, mClosing := true } rfl rfl rfl code
      simp only
      split
      · exact ⟨⟨Or.inl rfl, rfl⟩, fun _ => rfl⟩
      · split
        · exact (hanswered _).imp_right fun hclosed _ => hclosed
        · exact (hanswered 1000).imp_right fun hclosed _ => hclosed

end WebSocketSession

namespace RecordedSession

variable {t : RecordedSession}

/-- The record holds every frame that was written and every callback. -/
structure Complete (t : RecordedSession) : Prop where
  frames : t.trace.filterMap Act.frame = t.session.written
  callbacks : t.trace.filterMap Act.callback = t.session.callbacks

/-- A session that has sent or received a Close frame is closed, and what follows such a frame may. -/
structure Orderly (t : RecordedSession) : Prop where
  closed : ∀ act ∈ t.trace, act.IsClose → t.session.mOpen = false
  ordered : t.trace.Pairwise Act.Precedes

theorem goOn_cases {s : WebSocketSession} (hwrites : t.session.WritesOne s) :
    t.goOn s = ⟨s, t.trace⟩ ∧ s.written = t.session.written ∨
      ∃ frame, t.goOn s = ⟨s, t.trace ++ [.wrote frame]⟩ ∧ s.written = t.session.written ++ [frame] ∧
        (frame.head? = some 0x88 → s.mOpen = false) := by
  unfold goOn
  obtain hsame | ⟨frame, hframe, hclose⟩ := hwrites.written
  · refine Or.inl ⟨?_, hsame⟩
    rw [hsame, List.drop_length, List.map_nil, List.append_nil]
  · refine Or.inr ⟨frame, ?_, hframe, hclose⟩
    rw [hframe, List.drop_left, List.map_singleton]

theorem Complete.goOn (hcomplete : t.Complete) {s : WebSocketSession}
    (hwrites : t.session.WritesOne s) : (t.goOn s).Complete := by
  obtain ⟨hgoOn, hwritten⟩ | ⟨frame, hgoOn, hwritten, -⟩ := goOn_cases hwrites
  · rw [hgoOn]
    exact ⟨hcomplete.frames.trans hwritten.symm, hcomplete.callbacks.trans hwrites.callbacks.symm⟩
  · rw [hgoOn]
    constructor
    · rw [List.filterMap_append, hcomplete.frames, hwritten]
      rfl
    · rw [List.filterMap_append, hcomplete.callbacks, hwrites.callbacks]
      exact List.append_nil _

/-- While the session is open no Close frame was sent or received, so anything may follow. -/
theorem Orderly.append (horderly : t.Orderly) (hopen : t.session.mOpen = true) {more : List Act}
    {s : WebSocketSession} (hmore : more.Pairwise Act.Precedes)
    (hclosed : ∀ act ∈ more, act.IsClose → s.mOpen = false) : Orderly ⟨s, t.trace ++ more⟩ := by
  have hnone : ∀ act ∈ t.trace, ¬ act.IsClose := by
    intro act hact hclose
    have hshut := horderly.closed act hact hclose
    rw [hopen] at hshut
    contradiction
  constructor
  · intro act hact hclose
    obtain hold | hnew := List.mem_append.mp hact
    · exact absurd hclose (hnone act hold)
    · exact hclosed act hnew hclose
  · refine List.pairwise_append.mpr ⟨horderly.ordered, hmore, fun first hfirst later _ => ?_⟩
    exact ⟨fun hclose => absurd (Or.inl hclose) (hnone first hfirst),
      fun hclose => absurd hclose (hnone first hfirst)⟩

theorem isClose_wrote {frame : Bytes} : (Act.wrote frame).IsClose ↔ frame.head? = some 0x88 := by
  constructor
  · rintro (⟨other, heq, hhead⟩ | hreceived)
    · rwa [Act.wrote.inj heq]
    · contradiction
  · exact fun hhead => Or.inl ⟨frame, rfl, hhead⟩

theorem isClose_received {opCode : Nat} : (Act.received opCode).IsClose ↔ opCode = 8 := by
  constructor
  · rintro (⟨_, heq, -⟩ | heq)
    · contradiction
    · exact Act.received.inj heq
  · rintro rfl
    exact Or.inr rfl

theorem not_isClose_told {callback : Callback} : ¬ (Act.told callback).IsClose := by
  rintro (⟨_, heq, -⟩ | heq) <;> contradiction

theorem Orderly.goOn (horderly : t.Orderly) (hopen : t.session.mOpen = true) {s : WebSocketSession}
    (hwrites : t.session.WritesOne s) : (t.goOn s).Orderly := by
  obtain ⟨hgoOn, -⟩ | ⟨frame, hgoOn, -, hclose⟩ := goOn_cases hwrites
  · rw [hgoOn, ← List.append_nil t.trace]
    exact horderly.append hopen List.Pairwise.nil (by simp)
  · rw [hgoOn]
    refine horderly.append hopen (List.pairwise_singleton _ _) fun act hact hact' => ?_
    rw [List.mem_singleton.mp hact, isClose_wrote] at hact'
    exact hclose hact'

theorem goOn_self (t : RecordedSession) : t.goOn t.session = t := by
  unfold goOn
  rw [List.drop_length, List.map_nil, List.append_nil]

theorem call_of_closed (hclosed : t.session.mOpen = false) (c : SessionCall) : t.call c = t := by
  rw [call, WebSocketSession.call_of_closed hclosed, goOn_self]

theorem Orderly.call (horderly : t.Orderly) (c : SessionCall) : (t.call c).Orderly := by
  by_cases hopen : t.session.mOpen = true
  · exact horderly.goOn hopen (WebSocketSession.call_writesOne c)
  · rw [call_of_closed (Bool.eq_false_of_not_eq_true hopen)]
    exact horderly

theorem Orderly.calls (horderly : t.Orderly) (list : List SessionCall) : (t.calls list).Orderly :=
  run_induction horderly (fun _ c h => h.call c) list

theorem Complete.calls (hcomplete : t.Complete) (list : List SessionCall) : (t.calls list).Complete :=
  run_induction hcomplete (fun _ c h => h.goOn (WebSocketSession.call_writesOne c)) list

/-! ### Handlers and frames -/

theorem Orderly.notify (horderly : t.Orderly) (hopen : t.session.mOpen = true) (callback : Callback)
    (list : List SessionCall) : (t.notify callback list).Orderly := by
  refine Orderly.calls (horderly.append hopen (List.pairwise_singleton _ _) fun act hact hclose => ?_) list
  rw [List.mem_singleton.mp hact] at hclose
  exact absurd hclose not_isClose_told

theorem Complete.notify (hcomplete : t.Complete) (callback : Callback) (list : List SessionCall) :
    (t.notify callback list).Complete := by
  refine Complete.calls ⟨?_, ?_⟩ list
  · rw [List.filterMap_append, hcomplete.frames]
    exact List.append_nil _
  · rw [List.filterMap_append, hcomplete.callbacks]
    rfl

/-- A frame calls a handler or finds none, or else it is answered by one frame at most. -/
theorem dispatch_cases (h : Handlers) (t : RecordedSession) (opCode : Nat) (payload : Bytes) :
    (opCode ≠ 8 ∧ (t.dispatch h opCode payload = t ∨
        ∃ callback list, t.dispatch h opCode payload = t.notify callback list)) ∨
      ∃ s, t.dispatch h opCode payload = t.goOn s ∧ t.session.WritesOne s ∧
        (opCode = 8 → s.mOpen = false) := by
  have hmessage (isText : Bool) : t.notifyMessage h payload isText = t ∨
      ∃ callback list, t.notifyMessage h payload isText = t.notify callback list := by
    unfold notifyMessage
    split
    · exact Or.inl rfl
    · exact Or.inr ⟨_, _, rfl⟩
  have herror (message : String) : t.notifyError h message = t ∨
      ∃ callback list, t.notifyError h message = t.notify callback list := by
    unfold notifyError
    split
    · exact Or.inl rfl
    · exact Or.inr ⟨_, _, rfl⟩
  have hclose {kind : Option WebSocketOpCode} (hkind : WebSocketOpCode.ofValue opCode = kind)
      (hne : kind ≠ some .close) : opCode ≠ 8 := by
    rintro rfl
    exact hne hkind.symm
  unfold dispatch
  split
  · rename_i hkind
    exact Or.inl ⟨hclose hkind (by simp), hmessage true⟩
  · rename_i hkind
    exact Or.inl ⟨hclose hkind (by simp), hmessage false⟩
  · rename_i hkind
    exact Or.inl ⟨hclose hkind (by simp), herror _⟩
  · rename_i kind htext hbinary hkind
    obtain ⟨hwrites, hclosed⟩ :=
      WebSocketSession.dispatch_writesOne h hkind htext hbinary payload
    refine Or.inr ⟨_, rfl, hwrites, fun heq => hclosed ?_⟩
    rw [heq] at hkind
    exact (Option.some_inj.mp hkind).symm

/-- A frame is taken off the buffer. -/
def received (t : RecordedSession) (opCode : Nat) (buffer : Bytes) : RecordedSession where
  session := { t.session with mBuffer := buffer }
  trace := t.trace ++ [.received opCode]

theorem Complete.received (hcomplete : t.Complete) (opCode : Nat) (buffer : Bytes) :
    (t.received opCode buffer).Complete := by
  constructor
  · exact (List.filterMap_append.trans (List.append_nil _)).trans hcomplete.frames
  · exact (List.filterMap_append.trans (List.append_nil _)).trans hcomplete.callbacks

theorem Orderly.received (horderly : t.Orderly) (hopen : t.session.mOpen = true) {opCode : Nat}
    (hopCode : opCode ≠ 8) (buffer : Bytes) : (t.received opCode buffer).Orderly := by
  refine horderly.append hopen (List.pairwise_singleton _ _) fun act hact hclose => ?_
  rw [List.mem_singleton.mp hact, isClose_received] at hclose
  exact absurd hclose hopCode

/-- A frame that calls no handler: what is written comes behind what is received. -/
theorem Orderly.received_goOn (horderly : t.Orderly) (hopen : t.session.mOpen = true) {opCode : Nat}
    {buffer : Bytes} {s : WebSocketSession} (hwrites : (t.received opCode buffer).session.WritesOne s)
    (hclosed : opCode = 8 → s.mOpen = false) : ((t.received opCode buffer).goOn s).Orderly := by
  have hreceived (act : Act) (hact : act ∈ [Act.received opCode]) (hclose : act.IsClose) :
      s.mOpen = false := by
    rw [List.mem_singleton.mp hact, isClose_received] at hclose
    exact hclosed hclose
  obtain ⟨hgoOn, -⟩ | ⟨frame, hgoOn, -, hframe⟩ := goOn_cases hwrites
  · rw [hgoOn]
    exact horderly.append hopen (List.pairwise_singleton _ _) hreceived
  · have htrace : (t.received opCode buffer).trace ++ [.wrote frame] =
        t.trace ++ [.received opCode, .wrote frame] := List.append_assoc _ _ _
    rw [hgoOn, htrace]
    refine horderly.append hopen ?_ fun act hact hclose => ?_
    · refine List.pairwise_pair.mpr ⟨?_, ?_⟩
      · rintro ⟨_, heq, -⟩
        contradiction
      · rintro - ⟨_, _, heq⟩
        contradiction
    · obtain rfl | hact := List.mem_cons.mp hact
      · exact hreceived _ List.mem_cons_self hclose
      · rw [List.mem_singleton.mp hact, isClose_wrote] at hclose
        exact hframe hclose

theorem parseFrame_cases (h : Handlers) (t : RecordedSession) :
    t.parseFrame h = (false, t) ∨ ∃ opCode payload buffer,
      t.parseFrame h = (true, (t.received opCode buffer).dispatch h opCode payload) := by
  unfold parseFrame
  split
  · exact Or.inl rfl
  · rename_i opCode payload buffer hframe
    exact Or.inr ⟨opCode, payload, buffer, rfl⟩

theorem Orderly.dispatch (h : Handlers) (horderly : t.Orderly) (hopen : t.session.mOpen = true)
    (opCode : Nat) (payload buffer : Bytes) :
    ((t.received opCode buffer).dispatch h opCode payload).Orderly := by
  obtain ⟨hopCode, hsame | ⟨callback, list, hcalled⟩⟩ | ⟨s, hgoOn, hwrites, hclosed⟩ :=
    dispatch_cases h (t.received opCode buffer) opCode payload
  · rw [hsame]
    exact horderly.received hopen hopCode buffer
  · rw [hcalled]
    exact (horderly.received hopen hopCode buffer).notify hopen callback list
  · rw [hgoOn]
    exact horderly.received_goOn hopen hwrites hclosed

theorem Complete.dispatch (h : Handlers) (hcomplete : t.Complete) (opCode : Nat) (payload : Bytes) :
    (t.dispatch h opCode payload).Complete := by
  obtain ⟨-, hsame | ⟨callback, list, hcalled⟩⟩ | ⟨s, hgoOn, hwrites, -⟩ := dispatch_cases h t opCode payload
  · rw [hsame]
    exact hcomplete
  · rw [hcalled]
    exact hcomplete.notify callback list
  · rw [hgoOn]
    exact hcomplete.goOn hwrites

/-! ### Runs -/

theorem Orderly.receiveLoop (h : Handlers) (horderly : t.Orderly) (passes : Nat) :
    (t.receiveLoop h passes).Orderly := by
  induction passes generalizing t with
  | zero => exact horderly
  | succ passes ih =>
      rw [RecordedSession.receiveLoop]
      by_cases hopen : t.session.mOpen = true
      · rw [if_pos hopen]
        obtain hparse | ⟨opCode, payload, buffer, hparse⟩ := parseFrame_cases h t
        · rw [hparse]
          exact horderly
        · rw [hparse]
          exact ih (horderly.dispatch h hopen opCode payload buffer)
      · rw [if_neg hopen]
        exact horderly

theorem Complete.receiveLoop (h : Handlers) (hcomplete : t.Complete) (passes : Nat) :
    (t.receiveLoop h passes).Complete := by
  induction passes generalizing t with
  | zero => exact hcomplete
  | succ passes ih =>
      rw [RecordedSession.receiveLoop]
      split
      · obtain hparse | ⟨opCode, payload, buffer, hparse⟩ := parseFrame_cases h t
        · rw [hparse]
          exact hcomplete
        · rw [hparse]
          exact ih ((hcomplete.received opCode buffer).dispatch h opCode payload)
      · exact hcomplete

/-- A change of the session that opens nothing. -/
theorem Orderly.withSession (horderly : t.Orderly) {s : WebSocketSession}
    (hopen : t.session.mOpen = false → s.mOpen = false) : Orderly ⟨s, t.trace⟩ :=
  ⟨fun act hact hclose => hopen (horderly.closed act hact hclose), horderly.ordered⟩

theorem Complete.withSession (hcomplete : t.Complete) {s : WebSocketSession}
    (hwritten : s.written = t.session.written) (hcallbacks : s.callbacks = t.session.callbacks) :
    Complete ⟨s, t.trace⟩ :=
  ⟨hcomplete.frames.trans hwritten.symm, hcomplete.callbacks.trans hcallbacks.symm⟩

theorem Orderly.step (h : Handlers) (horderly : t.Orderly) (event : SessionEvent) :
    (t.step h event).Orderly := by
  cases event with
  | call c => exact horderly.call c
  | readyRead chunk passes =>
      let s : WebSocketSession := { t.session with mBuffer := t.session.mBuffer ++ chunk }
      exact (horderly.withSession (s := s) fun hclosed => hclosed).receiveLoop h passes
  | lost => exact horderly.withSession fun hclosed => hclosed
  | disconnected onClose => exact (horderly.withSession fun _ => rfl).calls onClose

theorem Complete.step (h : Handlers) (hcomplete : t.Complete) (event : SessionEvent) :
    (t.step h event).Complete := by
  cases event with
  | call c => exact hcomplete.goOn (WebSocketSession.call_writesOne c)
  | readyRead chunk passes =>
      let s : WebSocketSession := { t.session with mBuffer := t.session.mBuffer ++ chunk }
      exact (hcomplete.withSession (s := s) rfl rfl).receiveLoop h passes
  | lost => exact hcomplete.withSession rfl rfl
  | disconnected onClose =>
      let s : WebSocketSession := { t.session with mOpen := false, connected := false }
      exact (hcomplete.withSession (s := s) rfl rfl).calls onClose

/-! ### The record and the session -/

theorem calls_session (list : List SessionCall) : (t.calls list).session = t.session.calls list := by
  induction list generalizing t with
  | nil => rfl
  | cons c list ih => exact ih

theorem dispatch_session (h : Handlers) (opCode : Nat) (payload : Bytes) :
    (t.dispatch h opCode payload).session = t.session.dispatch h opCode payload := by
  have hmessage (isText : Bool) :
      (t.notifyMessage h payload isText).session = t.session.notifyMessage h payload isText := by
    unfold notifyMessage WebSocketSession.notifyMessage
    cases h.onMessage with
    | none => rfl
    | some handler => exact calls_session _
  have herror (message : String) :
      (t.notifyError h message).session = t.session.notifyError h message := by
    unfold notifyError WebSocketSession.notifyError
    cases h.onError with
    | none => rfl
    | some handler => exact calls_session _
  unfold dispatch
  split
  · rename_i hkind
    rw [hmessage, WebSocketSession.dispatch, hkind]
  · rename_i hkind
    rw [hmessage, WebSocketSession.dispatch, hkind]
  · rename_i hkind
    rw [herror, WebSocketSession.dispatch, hkind]
  · rfl

/-- The loop with a record does what the loop of the session does, where that ends. -/
theorem receiveLoop_session (h : Handlers) {passes : Nat} {s : WebSocketSession}
    (hloop : t.session.receiveLoop h passes = some s) : (t.receiveLoop h passes).session = s := by
  induction passes generalizing t with
  | zero => contradiction
  | succ passes ih =>
      rw [WebSocketSession.receiveLoop] at hloop
      rw [receiveLoop]
      split at hloop
      · rename_i hopen
        rw [if_pos hopen]
        unfold WebSocketSession.parseFrame at hloop
        unfold parseFrame
        cases htake : takeFrame t.session.mBuffer with
        | none =>
            simp only [htake, Option.some_inj] at hloop ⊢
            exact hloop
        | some taken =>
            obtain ⟨opCode, payload, buffer⟩ := taken
            simp only [htake] at hloop ⊢
            refine ih ?_
            rw [dispatch_session]
            exact hloop
      · rename_i hopen
        rw [if_neg hopen]
        exact Option.some_inj.mp hloop

theorem readyRead_session (h : Handlers) {chunk : Bytes} {passes : Nat} {s : WebSocketSession}
    (hreceive : t.session.onReadyRead h passes chunk = some s) :
    (t.step h (.readyRead chunk passes)).session = s :=
  receiveLoop_session h hreceive

/-- What comes behind an act of an orderly record. -/
theorem Orderly.later (horderly : t.Orderly) {front later : List Act} {act : Act}
    (htrace : t.trace = front ++ act :: later) : ∀ other ∈ later, act.Precedes other := by
  have hordered := horderly.ordered
  rw [htrace] at hordered
  exact fun other hother => List.rel_of_pairwise_cons (List.pairwise_append.mp hordered).2.1 hother

theorem Orderly.closeFrames (horderly : t.Orderly) (hcomplete : t.Complete) :
    (t.session.written.filter fun frame => frame.head? = some 0x88).length ≤ 1 := by
  have hlast : t.session.written.Pairwise fun frame _ => ¬ frame.head? = some 0x88 := by
    rw [← hcomplete.frames]
    refine horderly.ordered.filterMap _ fun act other hprecedes frame hframe frame' hframe' hhead => ?_
    cases act with
    | wrote written =>
        cases other with
        | wrote written' =>
            obtain rfl := Option.some_inj.mp hframe
            exact hprecedes.1 ⟨written, rfl, hhead⟩ ⟨written', rfl⟩
        | received opCode => contradiction
        | told callback => contradiction
    | received opCode => contradiction
    | told callback => contradiction
  have hnone : (t.session.written.filter fun frame => frame.head? = some 0x88).Pairwise
      fun _ _ => False := by
    refine (hlast.filter _).imp_of_mem fun hmem _ hnot => hnot ?_
    simpa using (List.mem_filter.mp hmem).2
  generalize t.session.written.filter (fun frame => frame.head? = some 0x88) = frames at hnone ⊢
  match frames, hnone with
  | [], _ => simp
  | [_], _ => simp
  | _ :: _ :: _, hnone =>
      exact (List.rel_of_pairwise_cons hnone List.mem_cons_self).elim

/-- One Close frame, no frame after it, and no message once such a frame was written or received. -/
structure ClosesOnce (t : RecordedSession) : Prop where
  once : (t.session.written.filter fun frame => frame.head? = some 0x88).length ≤ 1
  noFrame : ∀ front act later, t.trace = front ++ act :: later → act.IsCloseFrame →
    ∀ other ∈ later, ¬ other.IsFrame
  noMessage : ∀ front act later, t.trace = front ++ act :: later → act.IsClose →
    ∀ other ∈ later, ¬ other.IsMessage

theorem orderly_run (h : Handlers) (events : List SessionEvent) : (run (step h) {} events).Orderly :=
  run_induction ⟨by simp, List.Pairwise.nil⟩ (fun _ event ht => ht.step h event) events

theorem complete_run (h : Handlers) (events : List SessionEvent) : (run (step h) {} events).Complete :=
  run_induction ⟨rfl, rfl⟩ (fun _ event ht => ht.step h event) events

/-- Data that arrives after any run leaves the session itself, too, with one Close frame at most. -/
theorem closeFrames_onReadyRead (h : Handlers) (events : List SessionEvent) {chunk : Bytes} {passes : Nat}
    {s : WebSocketSession}
    (hreceive : (run (step h) {} events).session.onReadyRead h passes chunk = some s) :
    (s.written.filter fun frame => frame.head? = some 0x88).length ≤ 1 := by
  have horderly := (orderly_run h events).step h (.readyRead chunk passes)
  have hcomplete := (complete_run h events).step h (.readyRead chunk passes)
  rw [← readyRead_session h hreceive]
  exact horderly.closeFrames hcomplete

end RecordedSession

/-- However a session is used from outside and by its handlers, it writes one Close frame at most and nothing
after it, and tells no message once such a frame was written or received. The record that says so holds
everything that was written and told. -/
theorem closing_handshake (h : Handlers) (events : List RecordedSession.SessionEvent) :
    (run (RecordedSession.step h) {} events).ClosesOnce ∧
      (run (RecordedSession.step h) {} events).Complete := by
  have horderly := RecordedSession.orderly_run h events
  have hcomplete := RecordedSession.complete_run h events
  refine ⟨⟨horderly.closeFrames hcomplete, ?_, ?_⟩, hcomplete⟩
  · exact fun front act later htrace hclose other hother => (horderly.later htrace other hother).1 hclose
  · exact fun front act later htrace hclose other hother => (horderly.later htrace other hother).2 hclose

end SoulCoreKit.Server
