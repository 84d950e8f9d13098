import CollabEditor.Lib.Machine
import CollabEditor.Protocol.Frame

/-!
# `Client.NetworkManager` — the client's receive buffer

`NetworkManager::onReadyRead` with the socket it reads from. The socket is Qt's: a chunk of the stream
arrives with `readyRead`, and `disconnectFromHost` closes at once when nothing is left to write, else some
time later. Which of the two happens is part of an event, so a run is an arbitrary cut of the stream into
reads under an arbitrary timing of the close.
-/

namespace CollabEditor

open Framing

/-- The states of a `QTcpSocket` that has been connected. -/
inductive SocketState where
  | connected
  | closing
  | unconnected
  deriving DecidableEq, Repr

/-- The signals of `NetworkManager` while it reads. -/
inductive NetworkSignal where
  | messageReceived (payload : List UInt8)
  | errorOccurred (text : String)
  | disconnected (reason : String)
  deriving DecidableEq, Repr

/-- `NetworkManager`, with the state of its socket and the signals emitted so far. -/
structure NetworkManager where
  socket   : SocketState := .connected
  rxBuffer : List UInt8 := []
  signals  : List NetworkSignal := []
  deriving DecidableEq, Repr

/-- What happens at the socket: a chunk arrives, where `flushed` says that nothing is left to write; or a
    pending close completes. -/
inductive SocketEvent where
  | readyRead (chunk : List UInt8) (flushed : Bool)
  | socketClosed
  deriving DecidableEq, Repr

namespace NetworkManager

/-- The loop of `onReadyRead`, for a way to decode a header: the payloads it emits, what it leaves in
    `rx_buffer_`, and whether it has met a header that is refused. -/
def readLoop (decode : UInt8 → UInt8 → UInt8 → UInt8 → Option UInt32) (rxBuffer : List UInt8) :
    List (List UInt8) × List UInt8 × Bool :=
  if h₃ : 4 ≤ rxBuffer.length then
    have h₂ : 2 < rxBuffer.length := Nat.lt_of_succ_lt h₃
    have h₁ : 1 < rxBuffer.length := Nat.lt_of_succ_lt h₂
    have h₀ : 0 < rxBuffer.length := Nat.lt_of_succ_lt h₁
    match decode rxBuffer[0] rxBuffer[1] rxBuffer[2] rxBuffer[3] with
    | none => ([], rxBuffer, true)
    | some payloadLen =>
        if rxBuffer.length < 4 + payloadLen.toNat then ([], rxBuffer, false)
        else
          let (payloads, rest, oversized) := readLoop decode (rxBuffer.drop (4 + payloadLen.toNat))
          ((rxBuffer.drop 4).take payloadLen.toNat :: payloads, rest, oversized)
  else ([], rxBuffer, false)
termination_by rxBuffer.length
decreasing_by
  rw [List.length_drop]
  omega

/-- `onSocketDisconnected`. -/
def onSocketDisconnected (nm : NetworkManager) : NetworkManager where
  socket := .unconnected
  rxBuffer := []
  signals := nm.signals ++ [.disconnected "Socket closed"]

/-- `disconnectFromHost`. -/
def disconnectFromHost (nm : NetworkManager) (flushed : Bool) : NetworkManager :=
  if nm.socket = .unconnected then nm
  else if flushed then nm.onSocketDisconnected
  else { nm with socket := .closing }

/-- `onReadyRead`. -/
def onReadyRead (nm : NetworkManager) (chunk : List UInt8) (flushed : Bool) : NetworkManager :=
  let (payloads, rxBuffer, oversized) := readLoop decodeFrameHeader (nm.rxBuffer ++ chunk)
  let nm := { nm with rxBuffer := rxBuffer, signals := nm.signals ++ payloads.map .messageReceived }
  if oversized then
    { nm with signals := nm.signals ++ [NetworkSignal.errorOccurred "Frame exceeds 16 MiB limit"]
      : NetworkManager }.disconnectFromHost flushed
  else nm

/-- An event at the socket. One that is not connected any more reads nothing. -/
def react (nm : NetworkManager) : SocketEvent → NetworkManager
  | .readyRead chunk flushed => if nm.socket = .unconnected then nm else nm.onReadyRead chunk flushed
  | .socketClosed => if nm.socket = .closing then nm.onSocketDisconnected else nm

/-- The payloads emitted with `messageReceived`. -/
def messages (nm : NetworkManager) : List (List UInt8) :=
  nm.signals.filterMap fun signal => match signal with
    | .messageReceived payload => some payload
    | _ => none

end NetworkManager

/-- The bytes of the stream that an event brings. -/
def SocketEvent.chunk : SocketEvent → List UInt8
  | .readyRead chunk _ => chunk
  | .socketClosed      => []

namespace NetworkManager

/-- A buffer with a complete header is that header and the rest. -/
theorem eq_header_append {b : List UInt8} (h₀ : 0 < b.length) (h₁ : 1 < b.length) (h₂ : 2 < b.length)
    (h₃ : 3 < b.length) : b = b[0] :: b[1] :: b[2] :: b[3] :: b.drop 4 := by
  rw [← List.drop_eq_getElem_cons, ← List.drop_eq_getElem_cons, ← List.drop_eq_getElem_cons,
    ← List.drop_eq_getElem_cons, List.drop_zero]

/-- **The loop takes off the frames of the buffer**, and notices when it stops at a refused header. -/
theorem readLoop_eq (b : List UInt8) :
    (readLoop decodeFrameHeader b).1 = (frameReader.drain b).1 ∧
      (readLoop decodeFrameHeader b).2.1 = (frameReader.drain b).2 ∧
      ((readLoop decodeFrameHeader b).2.2 = true ↔ frameReader.next (frameReader.drain b).2 = .refused) := by
  induction hn : b.length using Nat.strongRecOn generalizing b with
  | _ n ih =>
      rw [readLoop]
      split
      next h₃ =>
        have h₂ : 2 < b.length := Nat.lt_of_succ_lt h₃
        have h₁ : 1 < b.length := Nat.lt_of_succ_lt h₂
        have h₀ : 0 < b.length := Nat.lt_of_succ_lt h₁
        have hnext : frameReader.next b = nextFrame (b[0] :: b[1] :: b[2] :: b[3] :: b.drop 4) :=
          congrArg nextFrame (eq_header_append h₀ h₁ h₂ h₃)
        dsimp only
        split
        next hd =>
          simp only [nextFrame, hd] at hnext
          rw [Reader.drain_of_refused hnext]
          exact ⟨rfl, rfl, iff_of_true rfl hnext⟩
        next len hd =>
          simp only [nextFrame, hd] at hnext
          split
          next hshort =>
            rw [if_pos (by rw [List.length_drop]; omega)] at hnext
            rw [Reader.drain_of_more hnext]
            refine ⟨rfl, rfl, iff_of_false Bool.false_ne_true ?_⟩
            rw [hnext]
            exact nofun
          next hshort =>
            rw [if_neg (by rw [List.length_drop]; omega), List.drop_drop] at hnext
            rw [Reader.drain_unit hnext]
            obtain ⟨hpayloads, hrest, hover⟩ := ih (b.drop (4 + len.toNat)).length
              (by rw [List.length_drop]; omega) _ rfl
            exact ⟨congrArg _ hpayloads, hrest, hover⟩
      next h =>
        have hnext : frameReader.next b = .more := by
          match b, h with
          | [], _ | [_], _ | [_, _], _ | [_, _, _], _ => rfl
          | _ :: _ :: _ :: _ :: _, h => simp at h
        rw [Reader.drain_of_more hnext]
        refine ⟨rfl, rfl, iff_of_false Bool.false_ne_true ?_⟩
        rw [hnext]
        exact nofun

/-! ## Runs -/

section Runs

variable {nm : NetworkManager} {x : List UInt8}

/-- The client after the bytes `x` of the stream: it has emitted their frames, keeps what is left in the
    buffer, and stays connected as long as no header is refused. -/
structure Receiving (x : List UInt8) (nm : NetworkManager) : Prop where
  messages  : nm.messages = (frameReader.drain x).1
  connected : nm.socket = .connected ↔ frameReader.next (frameReader.drain x).2 ≠ .refused
  buffer    : nm.socket ≠ .unconnected → nm.rxBuffer = (frameReader.drain x).2

theorem messages_append (nm : NetworkManager) (payloads : List (List UInt8)) (rxBuffer : List UInt8) :
    messages { nm with rxBuffer := rxBuffer, signals := nm.signals ++ payloads.map .messageReceived } =
      nm.messages ++ payloads := by
  unfold messages
  rw [List.filterMap_append, List.filterMap_map]
  congr 1
  exact List.filterMap_some

theorem messages_quiet (nm : NetworkManager) (signal : NetworkSignal) {socket : SocketState}
    {rxBuffer : List UInt8} (h : ∀ payload, signal ≠ .messageReceived payload) :
    messages { socket := socket, rxBuffer := rxBuffer, signals := nm.signals ++ [signal] } = nm.messages := by
  unfold messages
  rw [List.filterMap_append]
  cases signal with
  | messageReceived payload => exact absurd rfl (h payload)
  | errorOccurred text => exact List.append_nil _
  | disconnected reason => exact List.append_nil _

theorem messages_disconnectFromHost (nm : NetworkManager) (flushed : Bool) :
    (nm.disconnectFromHost flushed).messages = nm.messages := by
  unfold disconnectFromHost
  split_ifs
  · rfl
  · exact messages_quiet nm (.disconnected "Socket closed") (fun _ => nofun)
  · rfl

theorem disconnectFromHost_socket (nm : NetworkManager) (flushed : Bool) :
    (nm.disconnectFromHost flushed).socket ≠ .connected ∧
      ((nm.disconnectFromHost flushed).socket ≠ .unconnected →
        (nm.disconnectFromHost flushed).rxBuffer = nm.rxBuffer) := by
  unfold disconnectFromHost
  split_ifs with hun hfl
  · exact ⟨by rw [hun]; decide, fun h => absurd hun h⟩
  · exact ⟨nofun, fun h => absurd rfl h⟩
  · exact ⟨nofun, fun _ => rfl⟩

/-- **A read**: the frames completed by the chunk are emitted, and a refused header ends the connection. -/
theorem Receiving.onReadyRead (h : Receiving x nm) (hopen : nm.socket ≠ .unconnected) (chunk : List UInt8)
    (flushed : Bool) : Receiving (x ++ chunk) (nm.onReadyRead chunk flushed) := by
  have hbuf := h.buffer hopen
  obtain ⟨hpayloads, hrest, hover⟩ := readLoop_eq (nm.rxBuffer ++ chunk)
  have hdrain := Reader.drain_append (R := frameReader) x chunk
  rw [← hbuf] at hdrain
  have hmessages := (messages_append nm (readLoop decodeFrameHeader (nm.rxBuffer ++ chunk)).1
    (readLoop decodeFrameHeader (nm.rxBuffer ++ chunk)).2.1).trans (congrArg₂ _ h.messages hpayloads)
  rw [hrest] at hmessages
  -- the frames of the longer stream, and what it leaves
  have hemitted : (frameReader.drain (x ++ chunk)).1 =
      (frameReader.drain x).1 ++ (frameReader.drain (nm.rxBuffer ++ chunk)).1 := by rw [hdrain]
  have hleft : (frameReader.drain (x ++ chunk)).2 = (frameReader.drain (nm.rxBuffer ++ chunk)).2 := by rw [hdrain]
  unfold NetworkManager.onReadyRead
  simp only [hrest]
  split_ifs with hrefused
  · rw [hover, ← hleft] at hrefused
    obtain ⟨hsocket, hbuffer⟩ := disconnectFromHost_socket
      { socket := nm.socket, rxBuffer := (frameReader.drain (nm.rxBuffer ++ chunk)).2,
        signals := nm.signals ++ (readLoop decodeFrameHeader (nm.rxBuffer ++ chunk)).1.map .messageReceived ++
          [.errorOccurred "Frame exceeds 16 MiB limit"] } flushed
    refine ⟨?_, iff_of_false hsocket (fun hne => hne hrefused), fun hne => (hbuffer hne).trans hleft.symm⟩
    rw [messages_disconnectFromHost, hemitted, ← hmessages]
    exact messages_quiet
      { nm with signals := nm.signals ++ (readLoop decodeFrameHeader (nm.rxBuffer ++ chunk)).1.map .messageReceived }
      (.errorOccurred "Frame exceeds 16 MiB limit") (fun _ => nofun)
  · rw [hover, ← hleft] at hrefused
    refine ⟨hmessages.trans hemitted.symm, iff_of_true ?_ hrefused, fun _ => hleft.symm⟩
    show nm.socket = .connected
    rw [h.connected]
    intro hold
    have hstays := frameReader.refused_append chunk hold
    rw [← hbuf] at hstays
    rw [hleft, Reader.drain_of_refused hstays] at hrefused
    exact hrefused hstays

/-- **An event**, at a socket in any state. -/
theorem Receiving.react (h : Receiving x nm) (e : SocketEvent) : Receiving (x ++ e.chunk) (nm.react e) := by
  cases e with
  | readyRead chunk flushed =>
      show Receiving (x ++ chunk) (if nm.socket = .unconnected then nm else nm.onReadyRead chunk flushed)
      split_ifs with hun
      · -- the connection has ended at a refused header, which what follows cannot change
        have hold : frameReader.next (frameReader.drain x).2 = .refused := by
          by_contra hne
          rw [← ne_eq, ← h.connected, hun] at hne
          cases hne
        have hdrain := Reader.drain_append_of_refused hold chunk
        refine ⟨h.messages.trans (by rw [hdrain]), ?_, fun hne => absurd hun hne⟩
        rw [hdrain, hun]
        exact iff_of_false nofun (fun hne => hne (frameReader.refused_append chunk hold))
      · exact h.onReadyRead hun chunk flushed
  | socketClosed =>
      show Receiving (x ++ []) (if nm.socket = .closing then nm.onSocketDisconnected else nm)
      rw [List.append_nil]
      split_ifs with hclosing
      · refine ⟨(messages_quiet nm (.disconnected "Socket closed") (fun _ => nofun)).trans h.messages, ?_, fun hne => absurd rfl hne⟩
        have hconn := h.connected
        rw [hclosing] at hconn
        exact iff_of_false nofun (fun hne => by cases hconn.mpr hne)
      · exact h

/-- The bytes of the stream that a run of events brings. -/
def received (es : List SocketEvent) : List UInt8 := (es.map SocketEvent.chunk).flatten

/-- **Every run**, from the start of a connection. -/
theorem receiving_run (es : List SocketEvent) : Receiving (received es) (es.foldl NetworkManager.react {}) := by
  have hrun : ∀ (es : List SocketEvent) (x : List UInt8) (nm : NetworkManager), Receiving x nm →
      Receiving (x ++ received es) (es.foldl NetworkManager.react nm) := by
    intro es
    induction es with
    | nil =>
        intro x nm h
        rw [show x ++ received [] = x from List.append_nil x]
        exact h
    | cons e es ih =>
        intro x nm h
        rw [List.foldl_cons, show x ++ received (e :: es) = (x ++ e.chunk) ++ received es by simp [received]]
        exact ih _ _ (h.react e)
  refine hrun es [] {} ⟨?_, ?_, fun _ => ?_⟩
  all_goals
    rw [Reader.drain_of_more (R := frameReader) rfl]
  · rfl
  · exact iff_of_true rfl nofun

end Runs

end NetworkManager

end CollabEditor
