import Mathlib.Data.List.Basic
import Mathlib.Data.List.Infix

/-!
# Frames in a byte stream

A receiver keeps the bytes it could not use yet. At every chunk it takes messages off the front as long
as one is complete. What it needs is that an encoded message is recognised whatever follows it, and that
no proper prefix of one is: then the messages come out as they were sent, however the stream is cut.
-/

namespace SoulCoreKit.Framing

variable {B F M : Type}

/-- `next` takes the message of one encoded frame off the front of a buffer, and nothing off a proper
prefix of one. -/
structure Decodes (encode : F → List B) (message : F → M) (next : List B → Option (M × List B))
    (valid : F → Prop) : Prop where
  nil : next [] = none
  whole : ∀ frame rest, valid frame → next (encode frame ++ rest) = some (message frame, rest)
  short : ∀ frame front, valid frame → front <+: encode frame → front ≠ encode frame →
    next front = none

/-- Messages off the front as long as there is one: these, and the bytes that are left. -/
def drain (next : List B → Option (M × List B)) : Nat → List B → Option (List M × List B)
  | 0, _ => none
  | fuel + 1, buffer =>
      match next buffer with
      | none => some ([], buffer)
      | some (m, rest) => (drain next fuel rest).map fun done => (m :: done.1, done.2)

/-- One `drain` for each chunk. -/
def feed (next : List B → Option (M × List B)) (fuel : Nat) (buffer : List B) :
    List (List B) → Option (List M × List B)
  | [] => some ([], buffer)
  | chunk :: rest =>
      match drain next fuel (buffer ++ chunk) with
      | none => none
      | some (done, left) => (feed next fuel left rest).map fun later => (done ++ later.1, later.2)

/-- The stream of a list of frames. -/
def stream (encode : F → List B) (frames : List F) : List B := (frames.map encode).flatten

variable {encode : F → List B} {message : F → M} {next : List B → Option (M × List B)}
  {valid : F → Prop}

/-- A buffer that starts the stream of some frames gives the first of them, and what is left starts the
stream of the others. -/
theorem drain_stream (hdecodes : Decodes encode message next valid) {frames : List F}
    (hvalid : ∀ frame ∈ frames, valid frame) {fuel : Nat} (hfuel : frames.length < fuel)
    {buffer rest : List B} (hstream : buffer ++ rest = stream encode frames) :
    ∃ done later left, frames = done ++ later ∧
      drain next fuel buffer = some (done.map message, left) ∧
      left ++ rest = stream encode later ∧ next left = none := by
  induction frames generalizing fuel buffer with
  | nil =>
      obtain ⟨fuel, rfl⟩ : ∃ n, fuel = n + 1 := ⟨fuel - 1, by simp at hfuel; omega⟩
      have hbuffer : buffer = [] := (List.append_eq_nil_iff.mp hstream).1
      refine ⟨[], [], buffer, rfl, ?_, hstream, hbuffer ▸ hdecodes.nil⟩
      rw [drain, hbuffer, hdecodes.nil]
      rfl
  | cons frame frames ih =>
      obtain ⟨fuel, rfl⟩ : ∃ n, fuel = n + 1 := ⟨fuel - 1, by simp at hfuel; omega⟩
      have hframe := hvalid frame List.mem_cons_self
      have hcons : stream encode (frame :: frames) = encode frame ++ stream encode frames := rfl
      rw [hcons] at hstream
      by_cases hwhole : encode frame <+: buffer
      · obtain ⟨tail, rfl⟩ := hwhole
        rw [List.append_assoc, List.append_cancel_left_eq] at hstream
        obtain ⟨done, later, left, hsplit, hdrain, hleft, hnone⟩ :=
          ih (fun other hother => hvalid other (List.mem_cons_of_mem frame hother))
            (by simp at hfuel; omega) hstream
        refine ⟨frame :: done, later, left, by rw [hsplit]; rfl, ?_, hleft, hnone⟩
        simp only [drain, hdecodes.whole frame tail hframe, hdrain, Option.map_some, List.map_cons]
      · have hfront : buffer <+: encode frame := by
          have hstart : buffer <+: encode frame ++ stream encode frames := ⟨rest, hstream⟩
          exact (List.prefix_or_prefix_of_prefix (List.prefix_append _ _) hstart).resolve_left hwhole
        have hne : buffer ≠ encode frame := by
          rintro rfl
          exact hwhole (List.prefix_refl _)
        have hnone := hdecodes.short frame buffer hframe hfront hne
        refine ⟨[], frame :: frames, buffer, rfl, ?_, hstream, hnone⟩
        rw [drain, hnone]
        rfl

/-- The messages of a stream come out as they were sent, however it is cut. -/
theorem feed_stream (hdecodes : Decodes encode message next valid) {frames : List F}
    (hvalid : ∀ frame ∈ frames, valid frame) {fuel : Nat} (hfuel : frames.length < fuel)
    {buffer : List B} {chunks : List (List B)}
    (hstream : buffer ++ chunks.flatten = stream encode frames) (hbuffer : next buffer = none) :
    feed next fuel buffer chunks = some (frames.map message, []) := by
  induction chunks generalizing frames buffer with
  | nil =>
      rw [List.flatten_nil, List.append_nil] at hstream
      cases frames with
      | nil =>
          rw [feed, hstream]
          rfl
      | cons frame frames =>
          have hwhole := hdecodes.whole frame (stream encode frames)
            (hvalid frame List.mem_cons_self)
          rw [hstream] at hbuffer
          exact absurd (hwhole.symm.trans hbuffer) (by simp)
  | cons chunk chunks ih =>
      rw [List.flatten_cons, ← List.append_assoc] at hstream
      obtain ⟨done, later, left, rfl, hdrain, hleft, hnone⟩ :=
        drain_stream hdecodes hvalid hfuel hstream
      have hrest := ih (fun frame hframe => hvalid frame (List.mem_append_right done hframe))
        (by simp at hfuel; omega) hleft hnone
      simp only [feed, hdrain, hrest, Option.map_some, List.map_append]

/-! ### Parsing again at every chunk

A receiver may also keep all bytes and parse them from the start at every chunk, until there is a
decision.
-/

variable {O : Type}

/-- A decision on some bytes is not revised when more of them come. -/
def Stable (parse : List B → Option O) : Prop :=
  ∀ front more o, parse front = some o → parse (front ++ more) = some o

/-- The first decision while chunks are appended to a buffer. -/
def firstDecision (parse : List B → Option O) (buffer : List B) : List (List B) → Option O
  | [] => none
  | chunk :: rest =>
      match parse (buffer ++ chunk) with
      | some o => some o
      | none => firstDecision parse (buffer ++ chunk) rest

/-- The first decision is the one on all bytes at once. -/
theorem firstDecision_eq {parse : List B → Option O} (hstable : Stable parse) {buffer : List B}
    (hbuffer : parse buffer = none) (chunks : List (List B)) :
    firstDecision parse buffer chunks = parse (buffer ++ chunks.flatten) := by
  induction chunks generalizing buffer with
  | nil => rw [List.flatten_nil, List.append_nil, hbuffer, firstDecision]
  | cons chunk rest ih =>
      rw [firstDecision, List.flatten_cons, ← List.append_assoc]
      cases hparse : parse (buffer ++ chunk) with
      | none => exact ih hparse
      | some o => exact (hstable (buffer ++ chunk) rest.flatten o hparse).symm

end SoulCoreKit.Framing
