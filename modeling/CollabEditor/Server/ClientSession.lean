import CollabEditor.Lib.Progress
import CollabEditor.Protocol.Frame

/-!
# `Server.ClientSession` — the server's header and body reads

`do_read_header` and `do_read_body`. `async_read` completes when its buffer is full, some time after the bytes
are there; bytes of the stream arrive at any time. The arrivals and the two completions are the steps of a
machine, so its runs are the arbitrary cuts of a stream under an arbitrary timing of the handlers.
`Reading` says what a run has delivered, and `exists_waiting` that every run can go on until no read completes.
-/

namespace CollabEditor

open Framing

/-- The read a session has started. -/
inductive SessionRead where
  | header
  | body (length : UInt32)
  | closed
  deriving DecidableEq, Repr

/-- The reading side of `ClientSession`: the pending read, `header_buf_`, the bytes that have arrived at the
    socket and have not been read, and the payloads handed to `on_message_`. -/
structure SessionReader where
  pending   : SessionRead := .header
  headerBuf : List UInt8 := []
  socket    : List UInt8 := []
  delivered : List (List UInt8) := []
  deriving DecidableEq, Repr

/-- Bytes arrive, or a read completes. -/
inductive SessionEvent where
  | arrive (bytes : List UInt8)
  | headerRead
  | bodyRead
  deriving DecidableEq, Repr

/-- The bytes of the stream that an event brings. -/
def SessionEvent.bytes : SessionEvent → List UInt8
  | .arrive bytes => bytes
  | .headerRead | .bodyRead => []

/-- The event is the completion of a read. -/
def SessionEvent.Completes : SessionEvent → Prop
  | .arrive _ => False
  | .headerRead | .bodyRead => True

namespace SessionReader

/-- The handler of `do_read_header`, when four bytes are there. -/
def headerRead (s : SessionReader) : Option SessionReader :=
  match s.pending, s.socket with
  | .header, d₀ :: d₁ :: d₂ :: d₃ :: rest =>
      let s := { s with headerBuf := [d₀, d₁, d₂, d₃], socket := rest }
      match decodeFrameHeader d₀ d₁ d₂ d₃ with
      | none => some { s with pending := .closed }
      | some payloadLen => some { s with pending := .body payloadLen }
  | _, _ => none

/-- The handler of `do_read_body`, when the whole body is there. -/
def bodyRead (s : SessionReader) : Option SessionReader :=
  match s.pending with
  | .body length =>
      if s.socket.length < length.toNat then none
      else some { s with
        pending := .header
        socket := s.socket.drop length.toNat
        delivered := s.delivered ++ [s.socket.take length.toNat] }
  | _ => none

/-- One step. -/
def step (s : SessionReader) : SessionEvent → Option SessionReader
  | .arrive bytes => some { s with socket := s.socket ++ bytes }
  | .headerRead   => s.headerRead
  | .bodyRead     => s.bodyRead

/-- No read can complete. -/
def Waiting (s : SessionReader) : Prop := s.headerRead = none ∧ s.bodyRead = none

/-- The bytes of the stream that a run of events brings. -/
def arrived (es : List SessionEvent) : List UInt8 := (es.map SessionEvent.bytes).flatten

/-- The pieces in which a run of events brings the stream. -/
def pieces (es : List SessionEvent) : List (List UInt8) := es.filterMap fun e => match e with
  | .arrive bytes => some bytes
  | .headerRead | .bodyRead => none

/-- The part of the stream that follows the delivered payloads. -/
def unread (s : SessionReader) : List UInt8 :=
  match s.pending with
  | .header => s.socket
  | .body _ | .closed => s.headerBuf ++ s.socket

/-- The header of a pending body is the one `header_buf_` holds; a session is closed by a refused header. -/
def HeaderHeld (s : SessionReader) : Prop :=
  match s.pending with
  | .header => True
  | .body length => ∃ d₀ d₁ d₂ d₃, s.headerBuf = [d₀, d₁, d₂, d₃] ∧ decodeFrameHeader d₀ d₁ d₂ d₃ = some length
  | .closed => frameReader.next s.headerBuf = .refused

/-- The session after the bytes `x` of the stream: what it has delivered and the frames of what it has not
    read are the frames of the stream. -/
structure Reading (x : List UInt8) (s : SessionReader) : Prop where
  held   : s.HeaderHeld
  frames : frameReader.drain x = (s.delivered ++ (frameReader.drain s.unread).1, (frameReader.drain s.unread).2)

section Steps

variable {s s' : SessionReader} {x : List UInt8} {e : SessionEvent}

theorem headerRead_cases (hs : s.headerRead = some s') :
    ∃ d₀ d₁ d₂ d₃ rest, s.pending = .header ∧ s.socket = d₀ :: d₁ :: d₂ :: d₃ :: rest ∧
      s' = { s with
        headerBuf := [d₀, d₁, d₂, d₃]
        socket := rest
        pending := (decodeFrameHeader d₀ d₁ d₂ d₃).elim .closed .body } := by
  unfold headerRead at hs
  split at hs
  next d₀ d₁ d₂ d₃ rest hp hsock =>
    refine ⟨d₀, d₁, d₂, d₃, rest, hp, hsock, ?_⟩
    split at hs
    next hd => cases hs; rw [hd]; rfl
    next len hd => cases hs; rw [hd]; rfl
  next => cases hs

theorem bodyRead_cases (hs : s.bodyRead = some s') :
    ∃ length payload rest, s.pending = .body length ∧ payload.length = length.toNat ∧
      s.socket = payload ++ rest ∧
      s' = { s with pending := .header, socket := rest, delivered := s.delivered ++ [payload] } := by
  unfold bodyRead at hs
  split at hs
  next length hp =>
    split_ifs at hs with hshort
    cases hs
    refine ⟨length, s.socket.take length.toNat, s.socket.drop length.toNat, hp, ?_,
      (List.take_append_drop _ _).symm, rfl⟩
    rw [List.length_take]
    omega
  next => cases hs

/-- **One step** reads on in the stream without changing its frames. -/
theorem Reading.step (h : Reading x s) (hs : s.step e = some s') : Reading (x ++ e.bytes) s' := by
  cases e with
  | arrive bytes =>
      cases hs
      have hunread : unread { s with socket := s.socket ++ bytes } = s.unread ++ bytes := by
        unfold unread
        cases s.pending with
        | header => rfl
        | body length => exact (List.append_assoc _ _ _).symm
        | closed => exact (List.append_assoc _ _ _).symm
      refine ⟨h.held, ?_⟩
      rw [Reader.drain_append, h.frames, hunread, Reader.drain_append s.unread, List.append_assoc]
      rfl
  | headerRead =>
      obtain ⟨d₀, d₁, d₂, d₃, rest, hp, hsock, rfl⟩ := headerRead_cases hs
      rw [show SessionEvent.headerRead.bytes = [] from rfl, List.append_nil]
      have hunread : s.unread = d₀ :: d₁ :: d₂ :: d₃ :: rest := by
        unfold unread
        rw [hp, hsock]
      cases hd : decodeFrameHeader d₀ d₁ d₂ d₃ with
      | none =>
          refine ⟨?_, by rw [h.frames, hunread]; rfl⟩
          show frameReader.next [d₀, d₁, d₂, d₃] = .refused
          simp only [frameReader, nextFrame, hd]
      | some length => exact ⟨⟨d₀, d₁, d₂, d₃, rfl, hd⟩, by rw [h.frames, hunread]; rfl⟩
  | bodyRead =>
      obtain ⟨length, payload, rest, hp, hlen, hsock, rfl⟩ := bodyRead_cases hs
      rw [show SessionEvent.bodyRead.bytes = [] from rfl, List.append_nil]
      have hheld := h.held
      unfold HeaderHeld at hheld
      rw [hp] at hheld
      obtain ⟨d₀, d₁, d₂, d₃, hbuf, hd⟩ := hheld
      have hnext : frameReader.next s.unread = .unit payload rest := by
        unfold unread
        rw [hp, hbuf, hsock]
        exact nextFrame_of_header hd hlen rest
      refine ⟨trivial, ?_⟩
      rw [h.frames, Reader.drain_unit hnext]
      simp [unread]

/-- A session whose reads all wait has nothing left to deliver. -/
theorem Reading.stuck_of_waiting (h : Reading x s) (hw : s.Waiting) : frameReader.Stuck s.unread := by
  have hheld := h.held
  unfold HeaderHeld at hheld
  intro payload rest hnext
  obtain ⟨d₀, d₁, d₂, d₃, len, hd, hlen, hunread⟩ := nextFrame_unit hnext
  unfold unread at hunread
  cases hp : s.pending with
  | header =>
      simp only [hp] at hunread
      have hread := hw.1
      unfold headerRead at hread
      rw [hp, hunread] at hread
      simp only [hd] at hread
      cases hread
  | body length =>
      rw [hp] at hheld hunread
      obtain ⟨e₀, e₁, e₂, e₃, hbuf, he⟩ := hheld
      simp only [hbuf, List.cons_append, List.nil_append, List.cons.injEq] at hunread
      obtain ⟨rfl, rfl, rfl, rfl, hsock⟩ := hunread
      rw [hd] at he
      cases he
      have hread := hw.2
      unfold bodyRead at hread
      rw [hp] at hread
      simp only at hread
      rw [if_neg (by rw [hsock, List.length_append]; omega)] at hread
      cases hread
  | closed =>
      rw [hp] at hheld
      unfold unread at hnext
      rw [hp] at hnext
      have hrefused := frameReader.refused_append s.socket hheld
      rw [hnext] at hrefused
      cases hrefused

end Steps

/-- **Every run** of arrivals and completions reads the frames of the stream in order. -/
theorem reading_run {es : List SessionEvent} {s : SessionReader} (hr : Machine.run step {} es = some s) :
    Reading (arrived es) s := by
  have hrun : ∀ (es : List SessionEvent) (x : List UInt8) (s₀ : SessionReader), Reading x s₀ →
      Machine.run step s₀ es = some s → Reading (x ++ arrived es) s := by
    intro es
    induction es with
    | nil =>
        intro x s₀ h hr
        cases hr
        rw [show x ++ arrived [] = x from List.append_nil x]
        exact h
    | cons e es ih =>
        intro x s₀ h hr
        obtain ⟨u, hu, hr'⟩ := Machine.run_cons.mp hr
        rw [show x ++ arrived (e :: es) = (x ++ e.bytes) ++ arrived es by simp [arrived]]
        exact ih _ _ (h.step hu) hr'
  exact hrun es [] {} ⟨trivial, rfl⟩ hr

/-! ## Progress -/

/-- Twice the bytes that have not been read; a body may be empty, so that a pending one counts. -/
def toRead (s : SessionReader) : ℕ :=
  2 * s.socket.length + if s.pending = .header ∨ s.pending = .closed then 0 else 1

theorem step_toRead {s s' : SessionReader} {e : SessionEvent} (he : e.Completes) (hs : s.step e = some s') :
    s'.toRead < s.toRead := by
  cases e with
  | arrive bytes => cases he
  | headerRead =>
      obtain ⟨d₀, d₁, d₂, d₃, rest, hp, hsock, rfl⟩ := headerRead_cases hs
      simp only [toRead, hp, hsock, List.length_cons, true_or, if_true]
      split_ifs <;> omega
  | bodyRead =>
      obtain ⟨length, payload, rest, hp, -, hsock, rfl⟩ := bodyRead_cases hs
      have hbefore : s.toRead = 2 * (payload ++ rest).length + 1 := by
        unfold toRead
        rw [hsock, hp, if_neg (by rintro (h | h) <;> cases h)]
      show 2 * rest.length + 0 < s.toRead
      rw [hbefore, List.length_append]
      omega

/-- **Reading cannot get stuck**: from any state, reads complete until all of them wait for more bytes. -/
theorem exists_waiting (s : SessionReader) :
    ∃ reads s', (∀ e ∈ reads, e.Completes) ∧ Machine.run step s reads = some s' ∧ s'.Waiting := by
  obtain ⟨reads, s', hreads, hr, hend⟩ := @Machine.exists_terminal SessionReader SessionEvent step (fun _ => True)
    SessionEvent.Completes toRead (fun _ _ _ _ he hs => ⟨trivial, step_toRead he hs⟩) s trivial
  exact ⟨reads, s', hreads, hr, hend .headerRead trivial, hend .bodyRead trivial⟩

theorem arrived_append (es es' : List SessionEvent) : arrived (es ++ es') = arrived es ++ arrived es' := by
  simp [arrived]

theorem arrived_completions {reads : List SessionEvent} (h : ∀ e ∈ reads, e.Completes) : arrived reads = [] := by
  induction reads with
  | nil => rfl
  | cons e reads ih =>
      have hrest := ih fun e' he' => h e' (List.mem_cons_of_mem e he')
      cases e with
      | arrive bytes => exact (h _ List.mem_cons_self).elim
      | headerRead => exact hrest
      | bodyRead => exact hrest

theorem pieces_completions {reads : List SessionEvent} (h : ∀ e ∈ reads, e.Completes) : pieces reads = [] := by
  refine List.filterMap_eq_nil_iff.mpr fun e he => ?_
  cases e with
  | arrive bytes => exact (h _ he).elim
  | headerRead => rfl
  | bodyRead => rfl

/-- The pieces of a stream, all before the first read. -/
theorem run_pieces (cuts : List (List UInt8)) (s : SessionReader) :
    ∃ s', Machine.run step s (cuts.map .arrive) = some s' := by
  induction cuts generalizing s with
  | nil => exact ⟨s, rfl⟩
  | cons cut cuts ih =>
      obtain ⟨s', hr⟩ := ih { s with socket := s.socket ++ cut }
      exact ⟨s', Machine.run_cons.mpr ⟨_, rfl, hr⟩⟩

end SessionReader

end CollabEditor
