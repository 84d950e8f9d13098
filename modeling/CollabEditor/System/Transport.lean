import CollabEditor.Client.NetworkManager
import CollabEditor.Server.ClientSession
import CollabEditor.Server.WriteQueue

/-!
# `System.Transport` — a connection is two queues

A connection between one client and its session on the server, from any thread that calls a `send` to the
callback that gets the payload. On the way a payload waits in an event loop or in `write_queue_`, it is cut into
chunks wherever the sockets like, and it is put together again by one of two different readers; the session's
writes end some time after they were started, the sockets may be closed at any time, and what is on the wire then is
lost. In either direction the payloads come out in the order in which they were put in, each once, and only the
last ones may be missing. A payload over the limit ends the connection, and so do the losses.

## Contents
- **The machine.** `Connection`, its events and `step`.
- **Payloads that get through.** `deliverable`, `drain_encoded`.
- **The invariant.** `Received` for the client, which may close at any time; `Inv`, `step_inv`.
- **Runs.** `payloads_in_order`.
-/

namespace CollabEditor

open Framing

/-- What waits in the event loop of the client's network thread. -/
inductive Invocation where
  | sendFrame (payload : List UInt8)
  | disconnectFromHost (flushed : Bool)
  deriving DecidableEq, Repr

def Invocation.payload : Invocation → Option (List UInt8)
  | .sendFrame payload => some payload
  | .disconnectFromHost _ => none

/-- A client, its session on the server, and the bytes between them: `up` to the server and `down` to the client.
    Of the frames handed to the server's socket `transmitted` bytes are on the wire or beyond it. No step reads the
    last three: how often `on_disconnect_` was called, the payloads that `NetworkManager::send` was called with, and
    those that were written to the client's socket. -/
structure Connection where
  posted      : List Invocation := []
  client      : NetworkManager := {}
  up          : List UInt8 := []
  down        : List UInt8 := []
  isOpen      : Bool := true
  reader      : SessionReader := {}
  readFailed  : Bool := false
  writer      : SessionWriter := {}
  transmitted : ℕ := 0
  callbacks   : ℕ := 0
  calls       : List (List UInt8) := []
  sent        : List (List UInt8) := []
  deriving DecidableEq, Repr

namespace Connection

/-! ## The machine -/

inductive Event where
  /-- `NetworkManager::send`, on any thread of the client. -/
  | send (payload : List UInt8)
  /-- `requestDisconnect`; nothing may be left to write when it is handled. -/
  | requestDisconnect (flushed : Bool)
  /-- The client's event loop takes the next invocation. -/
  | invoke
  /-- The next bytes arrive at the server. -/
  | arriveUp (n : ℕ)
  /-- `readyRead` at the client, with the next bytes. -/
  | readyRead (n : ℕ) (flushed : Bool)
  | socketClosed
  /-- A pending read of the session completes, or fails. -/
  | headerRead
  | bodyRead
  | readFails
  /-- Some thread of the server is in `ClientSession::send`. -/
  | serverCall (payload : List UInt8)
  | serverEnqueue (k : ℕ)
  /-- The server's socket takes further bytes of the frame being written. -/
  | transmit (n : ℕ)
  /-- The write completes, or fails. -/
  | written
  | writeFails
  /-- `ClientSession::close`. -/
  | close
  deriving DecidableEq, Repr

/-- `sendFrame`. -/
def sendFrame (c : Connection) (payload : List UInt8) : Connection :=
  if c.client.socket ≠ .connected then
    { c with client := { c.client with signals := c.client.signals ++ [.errorOccurred "Not connected"] } }
  else { c with up := c.up ++ encodeFrame payload, sent := c.sent ++ [payload] }

/-- `if (!disconnected_.exchange(true)) on_disconnect_(self)`. -/
def disconnect (c : Connection) : Connection :=
  { c with
    callbacks := if c.writer.disconnected then c.callbacks else c.callbacks + 1
    writer := { c.writer with disconnected := true } }

/-- The event loop of the client's network thread takes the next invocation. -/
def invoke (c : Connection) : Option Connection :=
  match c.posted with
  | [] => none
  | .sendFrame payload :: posted => some ({ c with posted := posted }.sendFrame payload)
  | .disconnectFromHost flushed :: posted =>
      some { c with posted := posted, client := c.client.disconnectFromHost flushed }

def arriveUp (c : Connection) (n : ℕ) : Option Connection := do
  let reader ← c.reader.step (.arrive (c.up.take n))
  return { c with reader := reader, up := c.up.drop n }

def readyRead (c : Connection) (n : ℕ) (flushed : Bool) : Option Connection :=
  if c.client.socket = .unconnected then none
  else some { c with client := c.client.onReadyRead (c.down.take n) flushed, down := c.down.drop n }

/-- The handler in `do_read_header`; a length over the limit closes the session. -/
def headerRead (c : Connection) : Option Connection :=
  if c.isOpen ∧ !c.readFailed then do
    let reader ← c.reader.headerRead
    match reader.pending with
    | .closed => return { c with reader := reader, isOpen := false }.disconnect
    | _ => return { c with reader := reader }
  else none

/-- The handler in `do_read_body`. -/
def bodyRead (c : Connection) : Option Connection :=
  if c.isOpen ∧ !c.readFailed then do
    let reader ← c.reader.bodyRead
    return { c with reader := reader }
  else none

/-- Either handler, with an error. No read is started after it. -/
def readFails (c : Connection) : Option Connection :=
  if c.readFailed then none else some { c with readFailed := true }.disconnect

def serverEnqueue (c : Connection) (k : ℕ) : Option Connection := do
  let writer ← c.writer.step (.enqueue k)
  return { c with writer := writer }

def transmit (c : Connection) (n : ℕ) : Option Connection :=
  let bytes := (c.writer.handed.flatten.drop c.transmitted).take n
  if c.isOpen then some { c with down := c.down ++ bytes, transmitted := c.transmitted + bytes.length } else none

/-- The handler in `do_write`, when the whole frame has been taken. -/
def written (c : Connection) : Option Connection :=
  if c.isOpen ∧ c.transmitted = c.writer.handed.flatten.length then do
    let writer ← c.writer.step (.complete 0 true)
    return { c with writer := writer }
  else none

/-- The handler in `do_write`, with an error. -/
def writeFails (c : Connection) : Option Connection := do
  let writer ← c.writer.step (.complete 0 false)
  return { c with
    writer := writer
    callbacks := if c.writer.disconnected then c.callbacks else c.callbacks + 1 }

/-- One step. -/
def step (c : Connection) : Event → Option Connection
  | .send payload => some { c with posted := c.posted ++ [.sendFrame payload], calls := c.calls ++ [payload] }
  | .requestDisconnect flushed => some { c with posted := c.posted ++ [.disconnectFromHost flushed] }
  | .invoke => c.invoke
  | .arriveUp n => c.arriveUp n
  | .readyRead n flushed => c.readyRead n flushed
  | .socketClosed => some { c with client := c.client.react .socketClosed }
  | .headerRead => c.headerRead
  | .bodyRead => c.bodyRead
  | .readFails => c.readFails
  | .serverCall payload => some { c with writer := c.writer.call payload }
  | .serverEnqueue k => c.serverEnqueue k
  | .transmit n => c.transmit n
  | .written => c.written
  | .writeFails => c.writeFails
  | .close => some { c with isOpen := false }

/-! ## Payloads that get through -/

/-- The payloads before the first one over the limit. -/
def deliverable (payloads : List (List UInt8)) : List (List UInt8) :=
  payloads.takeWhile fun p => p.length ≤ maxPayloadSize.toNat

/-- A frame over the limit is refused by its header, where the header can say its length at all. -/
theorem next_encodeFrame_oversized {payload : List UInt8} (h : maxPayloadSize.toNat < payload.length)
    (hsize : payload.length < 2 ^ 32) (rest : List UInt8) :
    frameReader.next (encodeFrame payload ++ rest) = .refused := by
  have hlen : (UInt32.ofNat payload.length).toNat = payload.length := Word.toNat_ofNat hsize
  have hlt : maxPayloadSize < UInt32.ofNat payload.length := by
    rw [UInt32.lt_iff_toNat_lt, hlen]
    exact h
  have hdecode : decodeFrameHeader (((UInt32.ofNat payload.length) >>> 24) &&& 0xFF).toUInt8
      (((UInt32.ofNat payload.length) >>> 16) &&& 0xFF).toUInt8
      (((UInt32.ofNat payload.length) >>> 8) &&& 0xFF).toUInt8
      ((UInt32.ofNat payload.length) &&& 0xFF).toUInt8 = none := by
    unfold decodeFrameHeader
    rw [announcedLength_header]
    exact if_pos hlt
  simp only [frameReader, encodeFrame, frameHeader, List.cons_append, List.nil_append, nextFrame, hdecode]

theorem drain_encoded {payloads : List (List UInt8)} (h : ∀ p ∈ payloads, p.length < 2 ^ 32) :
    (frameReader.drain (payloads.map encodeFrame).flatten).1 = deliverable payloads := by
  induction payloads with
  | nil =>
      have hempty : frameReader.next [] = .more := rfl
      exact congrArg Prod.fst (Reader.drain_of_more hempty)
  | cons p ps ih =>
      have hps := ih fun q hq => h q (List.mem_cons_of_mem p hq)
      rw [List.map_cons, List.flatten_cons]
      by_cases hp : p.length ≤ maxPayloadSize.toNat
      · rw [Reader.drain_unit (next_encodeFrame hp _), hps]
        simp [deliverable, hp]
      · rw [Reader.drain_of_refused (next_encodeFrame_oversized (Nat.lt_of_not_le hp) (h p List.mem_cons_self) _)]
        simp [deliverable, hp]

theorem encoded_prefix {payloads more : List (List UInt8)} :
    (payloads.map encodeFrame).flatten <+: ((payloads ++ more).map encodeFrame).flatten := by
  rw [List.map_append, List.flatten_append]
  exact List.prefix_append _ _

/-! ## The invariant -/

/-- The client after the bytes `y`: it has emitted their frames, and keeps what is left until it is closed. -/
structure Received (y : List UInt8) (nm : NetworkManager) : Prop where
  messages : nm.messages = (frameReader.drain y).1
  buffer   : nm.socket ≠ .unconnected → nm.rxBuffer = (frameReader.drain y).2

section

variable {nm : NetworkManager} {y : List UInt8} {w w' : SessionWriter} {c c' : Connection}

theorem Received.disconnectFromHost (h : Received y nm) (flushed : Bool) :
    Received y (nm.disconnectFromHost flushed) := by
  refine ⟨(NetworkManager.messages_disconnectFromHost nm flushed).trans h.messages, fun hne => ?_⟩
  rw [(NetworkManager.disconnectFromHost_socket nm flushed).2 hne]
  refine h.buffer fun hun => hne ?_
  unfold NetworkManager.disconnectFromHost
  rw [if_pos hun]
  exact hun

theorem Received.onReadyRead (h : Received y nm) (hopen : nm.socket ≠ .unconnected) (chunk : List UInt8)
    (flushed : Bool) : Received (y ++ chunk) (nm.onReadyRead chunk flushed) := by
  obtain ⟨hpayloads, hrest, -⟩ := NetworkManager.readLoop_eq (nm.rxBuffer ++ chunk)
  have hdrain := Reader.drain_append (R := frameReader) y chunk
  rw [← h.buffer hopen] at hdrain
  -- what the loop leaves, before a refused header has any effect
  have hread : Received (y ++ chunk) { nm with
      rxBuffer := (NetworkManager.readLoop decodeFrameHeader (nm.rxBuffer ++ chunk)).2.1
      signals := nm.signals ++
        (NetworkManager.readLoop decodeFrameHeader (nm.rxBuffer ++ chunk)).1.map .messageReceived } := by
    constructor
    · rw [NetworkManager.messages_append, h.messages, hpayloads, hdrain]
    · intro _
      show (NetworkManager.readLoop decodeFrameHeader (nm.rxBuffer ++ chunk)).2.1 = _
      rw [hrest, hdrain]
  unfold NetworkManager.onReadyRead
  dsimp only
  split_ifs
  · have hread' : Received (y ++ chunk) { nm with
        rxBuffer := (NetworkManager.readLoop decodeFrameHeader (nm.rxBuffer ++ chunk)).2.1
        signals := nm.signals ++
          (NetworkManager.readLoop decodeFrameHeader (nm.rxBuffer ++ chunk)).1.map .messageReceived ++
            [.errorOccurred "Frame exceeds 16 MiB limit"] } := by
      refine ⟨?_, hread.buffer⟩
      exact (NetworkManager.messages_quiet _ (.errorOccurred "Frame exceeds 16 MiB limit") fun _ => nofun).trans
        hread.messages
    exact hread'.disconnectFromHost flushed
  · exact hread

/-- **A step of the writing side** hands frames to the socket, and completes at most what was handed to it. -/
theorem writer_step (h : w.Orderly) {e : SessionWriter.Event} (hs : w.step e = some w') :
    w.handed <+: w'.handed ∧ (w'.completed = w.completed ∨ e = .complete 0 true ∧ w'.completed = w.handed) := by
  cases e with
  | call payload =>
      cases hs
      unfold SessionWriter.call
      split_ifs <;> exact ⟨List.prefix_refl _, .inl rfl⟩
  | readFails =>
      cases hs
      exact ⟨List.prefix_refl _, .inl rfl⟩
  | enqueue k =>
      obtain ⟨frame, -, rfl⟩ := Option.map_eq_some_iff.mp hs
      unfold SessionWriter.enqueue SessionWriter.doWrite
      dsimp only
      split_ifs
      · split
        · exact ⟨List.prefix_refl _, .inl rfl⟩
        · exact ⟨List.prefix_append _ _, .inl rfl⟩
      · exact ⟨List.prefix_refl _, .inl rfl⟩
  | complete k ok =>
      obtain ⟨front, rest, rfl, hq, ho, rfl⟩ := h.complete_cases hs
      cases ok with
      | false => exact ⟨List.prefix_refl _, .inl rfl⟩
      | true =>
          have hhanded : w.handed = w.completed ++ [front] := by
            cases h with
            | idle hw hq' ho' hh he =>
                rw [ho] at ho'
                cases ho'
            | failed front' rest' hw hd hq' ho' hh he =>
                rw [ho] at ho'
                cases ho'
            | busy front' rest' hw hq' ho' hh he =>
                rw [ho] at ho'
                cases ho'
                exact hh
          simp only [if_true, SessionWriter.written, SessionWriter.doWrite]
          split_ifs
          · split
            · exact ⟨List.prefix_refl _, .inr ⟨trivial, hhanded.symm⟩⟩
            · exact ⟨List.prefix_append _ _, .inr ⟨trivial, hhanded.symm⟩⟩
          · exact ⟨List.prefix_refl _, .inr ⟨trivial, hhanded.symm⟩⟩

/-- The invariant. In either direction what has been read and what is on the wire are the stream. -/
structure Inv (c : Connection) : Prop where
  up          : ∃ x, SessionReader.Reading x c.reader ∧ x ++ c.up = (c.sent.map encodeFrame).flatten
  calls       : ∃ more, c.calls = c.sent ++ more ∧
    (c.client.socket = .connected → more = c.posted.filterMap Invocation.payload)
  down        : ∃ y, Received y c.client ∧ y ++ c.down = c.writer.handed.flatten.take c.transmitted
  orderly     : c.writer.Orderly
  encoded     : c.writer.Encoded
  completed   : c.writer.completed.flatten.length ≤ c.transmitted
  transmitted : c.transmitted ≤ c.writer.handed.flatten.length
  callbacks   : c.callbacks = if c.writer.disconnected then 1 else 0

/-- A change of the writing side. -/
theorem Inv.write (h : c.Inv) {callbacks : ℕ} (horderly : w.Orderly) (hencoded : w.Encoded)
    (hhanded : c.writer.handed <+: w.handed) (hcompleted : w.completed.flatten.length ≤ c.transmitted)
    (hcallbacks : callbacks = if w.disconnected then 1 else 0) :
    { c with writer := w, callbacks := callbacks }.Inv := by
  obtain ⟨y, hy, hdown⟩ := h.down
  obtain ⟨more, hmore⟩ := hhanded
  have hflatten : w.handed.flatten = c.writer.handed.flatten ++ more.flatten := by
    rw [← hmore, List.flatten_append]
  refine ⟨h.up, h.calls, ⟨y, hy, ?_⟩, horderly, hencoded, hcompleted, ?_, hcallbacks⟩
  · show y ++ c.down = w.handed.flatten.take c.transmitted
    rw [hflatten, List.take_append_of_le_length h.transmitted]
    exact hdown
  · show c.transmitted ≤ w.handed.flatten.length
    rw [hflatten, List.length_append]
    exact Nat.le_add_right_of_le h.transmitted

theorem Inv.disconnect (h : c.Inv) : c.disconnect.Inv := by
  refine h.write (h.orderly.aside _ fun _ => rfl) ⟨h.encoded.inside, h.encoded.enqueued⟩ (List.prefix_refl _)
    h.completed ?_
  rw [h.callbacks]
  cases c.writer.disconnected <;> rfl

/-- A read of the session. -/
theorem Inv.read (h : c.Inv) {e : SessionEvent} {reader : SessionReader} (hbytes : e.bytes = [])
    (hs : c.reader.step e = some reader) : { c with reader := reader }.Inv := by
  obtain ⟨x, hx, hup⟩ := h.up
  have hx' := hx.step hs
  rw [hbytes, List.append_nil] at hx'
  exact { h with up := ⟨x, hx', hup⟩ }

/-- A change of the client that leaves it what it has received. -/
theorem Inv.client (h : c.Inv) (nm : NetworkManager) (posted : List Invocation)
    (hreceived : ∀ y, Received y c.client → Received y nm)
    (hposted : nm.socket = .connected → c.client.socket = .connected ∧
      posted.filterMap Invocation.payload = c.posted.filterMap Invocation.payload) :
    { c with client := nm, posted := posted }.Inv := by
  obtain ⟨y, hy, hdown⟩ := h.down
  obtain ⟨more, hcalls, hmore⟩ := h.calls
  refine { h with down := ⟨y, hreceived y hy, hdown⟩, calls := ⟨more, hcalls, fun hconn => ?_⟩ }
  obtain ⟨hold, hsame⟩ := hposted hconn
  exact (hmore hold).trans hsame.symm

/-- **An invocation** of the client's event loop. -/
theorem Inv.invoke (h : c.Inv) {invocation : Invocation} {posted : List Invocation}
    (hp : c.posted = invocation :: posted) (hs : c.invoke = some c') : c'.Inv := by
  unfold Connection.invoke at hs
  rw [hp] at hs
  cases invocation with
  | disconnectFromHost flushed =>
      cases hs
      refine h.client _ _ (fun y hy => hy.disconnectFromHost flushed) fun hconn => ?_
      exact absurd hconn (NetworkManager.disconnectFromHost_socket c.client flushed).1
  | sendFrame payload =>
      cases hs
      unfold sendFrame
      dsimp only
      split_ifs with hconn
      · -- the socket is closed, and the payload is dropped
        refine h.client _ _ (fun y hy => ⟨?_, hy.buffer⟩) fun hopen => absurd hopen hconn
        exact (NetworkManager.messages_quiet c.client (.errorOccurred "Not connected") fun _ => nofun).trans hy.messages
      · have hopen : c.client.socket = .connected := not_not.mp hconn
        obtain ⟨x, hx, hup⟩ := h.up
        obtain ⟨more, hcalls, hmore⟩ := h.calls
        have hnext := hmore hopen
        rw [hp] at hnext
        refine { h with up := ⟨x, hx, ?_⟩, calls := ⟨posted.filterMap Invocation.payload, ?_, fun _ => rfl⟩ }
        · show x ++ (c.up ++ encodeFrame payload) = _
          rw [← List.append_assoc, hup]
          simp
        · show c.calls = (c.sent ++ [payload]) ++ _
          rw [hcalls, hnext, List.append_assoc]
          rfl

/-- **`readyRead`.** -/
theorem Inv.readyRead (h : c.Inv) {n : ℕ} {flushed : Bool} (hs : c.readyRead n flushed = some c') : c'.Inv := by
  unfold Connection.readyRead at hs
  split_ifs at hs with hopen
  cases hs
  obtain ⟨y, hy, hdown⟩ := h.down
  obtain ⟨more, hcalls, hmore⟩ := h.calls
  have hstream : (y ++ c.down.take n) ++ c.down.drop n = c.writer.handed.flatten.take c.transmitted := by
    rw [List.append_assoc, List.take_append_drop]
    exact hdown
  -- a read may end the connection, and never begins one
  have hbefore : (c.client.onReadyRead (c.down.take n) flushed).socket = .connected →
      c.client.socket = .connected := by
    intro hconn
    unfold NetworkManager.onReadyRead at hconn
    dsimp only at hconn
    split_ifs at hconn
    · exact absurd hconn (NetworkManager.disconnectFromHost_socket _ flushed).1
    · exact hconn
  exact { h with
    down := ⟨y ++ c.down.take n, hy.onReadyRead hopen _ flushed, hstream⟩
    calls := ⟨more, hcalls, fun hconn => hmore (hbefore hconn)⟩ }

theorem Inv.socketClosed (h : c.Inv) : { c with client := c.client.react .socketClosed }.Inv := by
  have hreact : c.client.react .socketClosed =
      if c.client.socket = .closing then c.client.onSocketDisconnected else c.client := rfl
  refine h.client _ c.posted (fun y hy => ?_) fun hconn => ⟨?_, rfl⟩
  · rw [hreact]
    split_ifs
    · exact ⟨(NetworkManager.messages_quiet c.client (.disconnected "Socket closed") fun _ => nofun).trans hy.messages,
        fun hne => absurd rfl hne⟩
    · exact hy
  · rw [hreact] at hconn
    split_ifs at hconn
    · cases hconn
    · exact hconn

/-- **The server's socket takes bytes** of what it has been handed. -/
theorem Inv.transmit (h : c.Inv) {n : ℕ} (hs : c.transmit n = some c') : c'.Inv := by
  unfold Connection.transmit at hs
  dsimp only at hs
  split_ifs at hs
  cases hs
  obtain ⟨y, hy, hdown⟩ := h.down
  have hlen : ((c.writer.handed.flatten.drop c.transmitted).take n).length =
      min n (c.writer.handed.flatten.length - c.transmitted) := by
    rw [List.length_take, List.length_drop]
  have htransmitted := h.transmitted
  refine { h with
    down := ⟨y, hy, ?_⟩
    completed := Nat.le_add_right_of_le h.completed
    transmitted := by dsimp only; omega }
  show y ++ (c.down ++ (c.writer.handed.flatten.drop c.transmitted).take n) = _
  rw [← List.append_assoc, hdown, List.take_add, hlen]
  congr 1
  rw [List.take_eq_take_iff, List.length_drop]
  omega

/-- **A write completes, or a frame is queued.** -/
theorem Inv.writer (h : c.Inv) {e : SessionWriter.Event} (hw : c.writer.step e = some w)
    (hfull : e = .complete 0 true → c.transmitted = c.writer.handed.flatten.length)
    (hsame : w.disconnected = c.writer.disconnected) : { c with writer := w }.Inv := by
  obtain ⟨hhanded, hcompleted⟩ := writer_step h.orderly hw
  refine h.write (h.orderly.step hw) (h.encoded.step hw) hhanded ?_ (hsame ▸ h.callbacks)
  rcases hcompleted with hold | ⟨rfl, hall⟩
  · rw [hold]
    exact h.completed
  · rw [hall, hfull rfl]

theorem disconnected_doWrite (w : SessionWriter) : w.doWrite.disconnected = w.disconnected := by
  unfold SessionWriter.doWrite
  split <;> rfl

theorem step_inv {e : Event} (h : c.Inv) (hs : c.step e = some c') : c'.Inv := by
  cases e with
  | send payload =>
      cases hs
      obtain ⟨more, hcalls, hmore⟩ := h.calls
      refine { h with calls := ⟨more ++ [payload], by rw [hcalls, List.append_assoc], fun hconn => ?_⟩ }
      rw [hmore hconn, List.filterMap_append]
      rfl
  | requestDisconnect flushed =>
      cases hs
      refine h.client c.client _ (fun y hy => hy) fun hconn => ⟨hconn, ?_⟩
      rw [List.filterMap_append]
      exact List.append_nil _
  | invoke =>
      cases hp : c.posted with
      | nil =>
          change c.invoke = some c' at hs
          unfold Connection.invoke at hs
          rw [hp] at hs
          cases hs
      | cons invocation posted => exact h.invoke hp hs
  | arriveUp n =>
      obtain ⟨x, hx, hup⟩ := h.up
      cases hs
      refine { h with up := ⟨x ++ c.up.take n, hx.step (e := .arrive (c.up.take n)) rfl, ?_⟩ }
      show x ++ c.up.take n ++ c.up.drop n = _
      rw [List.append_assoc, List.take_append_drop]
      exact hup
  | readyRead n flushed => exact h.readyRead hs
  | socketClosed =>
      cases hs
      exact h.socketClosed
  | headerRead =>
      change c.headerRead = some c' at hs
      unfold Connection.headerRead at hs
      split_ifs at hs
      obtain ⟨reader, hreader, hs⟩ := Option.bind_eq_some_iff.mp hs
      have hread := h.read (e := .headerRead) rfl hreader
      split at hs
      · cases hs
        exact Inv.disconnect { hread with }
      · cases hs
        exact hread
  | bodyRead =>
      change c.bodyRead = some c' at hs
      unfold Connection.bodyRead at hs
      split_ifs at hs
      obtain ⟨reader, hreader, hs⟩ := Option.bind_eq_some_iff.mp hs
      cases hs
      exact h.read (e := .bodyRead) rfl hreader
  | readFails =>
      change c.readFails = some c' at hs
      unfold Connection.readFails at hs
      split_ifs at hs
      cases hs
      exact Inv.disconnect { h with }
  | serverCall payload =>
      cases hs
      refine h.writer (e := .call payload) rfl (fun he => by cases he) ?_
      unfold SessionWriter.call
      split_ifs <;> rfl
  | serverEnqueue k =>
      obtain ⟨w, hw, hs⟩ := Option.bind_eq_some_iff.mp (show c.serverEnqueue k = some c' from hs)
      cases hs
      refine h.writer hw (fun he => by cases he) ?_
      obtain ⟨frame, -, rfl⟩ := Option.map_eq_some_iff.mp hw
      unfold SessionWriter.enqueue
      dsimp only
      split_ifs
      · rw [disconnected_doWrite]
      · rfl
  | transmit n => exact h.transmit hs
  | written =>
      change c.written = some c' at hs
      unfold Connection.written at hs
      split_ifs at hs with hguard
      obtain ⟨w, hw, hs⟩ := Option.bind_eq_some_iff.mp hs
      cases hs
      refine h.writer hw (fun _ => hguard.2) ?_
      obtain ⟨frame, -, rfl⟩ := Option.map_eq_some_iff.mp hw
      simp only [if_true, SessionWriter.written]
      split_ifs
      · rw [disconnected_doWrite]
      · rfl
  | writeFails =>
      obtain ⟨w, hw, hs⟩ := Option.bind_eq_some_iff.mp (show c.writeFails = some c' from hs)
      cases hs
      obtain ⟨hhanded, hcompleted⟩ := writer_step h.orderly hw
      refine h.write (h.orderly.step hw) (h.encoded.step hw) hhanded ?_ ?_
      · have hsame := hcompleted.resolve_right fun hfull => by cases hfull.1
        rw [hsame]
        exact h.completed
      · obtain ⟨frame, -, rfl⟩ := Option.map_eq_some_iff.mp hw
        rw [h.callbacks]
        cases c.writer.disconnected <;> rfl
  | close =>
      cases hs
      exact { h with }

/-! ## Runs -/

theorem run_inv {es : List Event} (hr : Machine.run step {} es = some c) : c.Inv := by
  refine Machine.run_preserves (I := Inv) (fun _ _ _ h hs => step_inv h hs) ?_ hr
  have hempty : frameReader.drain [] = ([], []) := Reader.drain_of_more (R := frameReader) rfl
  exact {
    up := ⟨[], ⟨trivial, rfl⟩, rfl⟩
    calls := ⟨[], rfl, fun _ => rfl⟩
    down := ⟨[], ⟨by rw [hempty]; rfl, fun _ => by rw [hempty]⟩, rfl⟩
    orderly := .idle rfl rfl rfl rfl rfl
    encoded := ⟨nofun, nofun⟩
    completed := Nat.le_refl 0
    transmitted := Nat.le_refl 0
    callbacks := rfl }

/-- **A connection is two queues.** In every state of every run: what `on_message_` was called with is the
    beginning of what `NetworkManager::send` was called with, up to the first payload over the limit, and all of
    it when the client is connected, nothing waits or is on the wire, and the session waits for more. What the
    client has emitted is in the same way the beginning of what was put into `write_queue_`, and all of it when the
    queue and the wire are empty. And `on_disconnect_` was called once if the session is disconnected, and not at
    all otherwise. -/
theorem payloads_in_order {es : List Event} (hr : Machine.run step {} es = some c) :
    ((∀ p ∈ c.calls, p.length < 2 ^ 32) → c.reader.delivered <+: deliverable c.calls ∧
      (c.client.socket = .connected → c.posted = [] → c.up = [] → c.reader.Waiting →
        c.reader.delivered = deliverable c.calls)) ∧
    (∃ payloads : List (List UInt8), c.writer.enqueued = payloads.map encodeFrame ∧
      ((∀ p ∈ payloads, p.length < 2 ^ 32) → c.client.messages <+: deliverable payloads ∧
        (c.writer.queue = [] → c.down = [] → c.client.messages = deliverable payloads))) ∧
    c.callbacks = if c.writer.disconnected then 1 else 0 := by
  have h := run_inv hr
  refine ⟨fun hsizes => ?_, ?_, h.callbacks⟩
  · obtain ⟨x, hx, hup⟩ := h.up
    obtain ⟨more, hcalls, hmore⟩ := h.calls
    have hstream : x <+: (c.calls.map encodeFrame).flatten := by
      rw [hcalls]
      exact (List.prefix_append x c.up).trans (hup ▸ encoded_prefix)
    have hread := Reader.drain_prefix (R := frameReader) hstream
    rw [drain_encoded hsizes, hx.frames] at hread
    refine ⟨(List.prefix_append _ _).trans hread, fun hconn hposted hempty hwait => ?_⟩
    -- everything that was sent has arrived, and the reader has found all of it
    have hall : more = [] := by
      rw [hmore hconn, hposted]
      rfl
    rw [hempty, List.append_nil] at hup
    rw [hall, List.append_nil] at hcalls
    have hdrain := hx.frames
    rw [hup, Reader.drain_stuck (hx.stuck_of_waiting hwait), List.append_nil] at hdrain
    rw [hcalls] at hsizes ⊢
    rw [← drain_encoded hsizes, hdrain]
  · obtain ⟨y, hy, hdown⟩ := h.down
    have hrange : c.writer.enqueued ∈ Set.range (List.map encodeFrame) := by
      rw [Set.range_list_map]
      exact h.encoded.enqueued
    obtain ⟨payloads, hpayloads⟩ := hrange
    refine ⟨payloads, hpayloads.symm, fun hsizes => ?_⟩
    have hhanded : c.writer.handed <+: payloads.map encodeFrame := by
      rw [hpayloads]
      cases h.orderly with
      | idle hw hq ho hh he => exact hh ▸ he ▸ List.prefix_rfl
      | busy front rest hw hq ho hh he | failed front rest hw hd hq ho hh he =>
          rw [hh, he]
          exact ⟨rest, by simp⟩
    have hstream : y <+: (payloads.map encodeFrame).flatten := by
      obtain ⟨unhanded, hunhanded⟩ := hhanded
      rw [← hunhanded, List.flatten_append]
      exact ((List.prefix_append y c.down).trans (hdown ▸ List.take_prefix _ _)).trans (List.prefix_append _ _)
    have hread := Reader.drain_prefix (R := frameReader) hstream
    rw [drain_encoded hsizes, ← hy.messages] at hread
    refine ⟨hread, fun hqueue hempty => ?_⟩
    -- with an empty queue everything was handed over and has been taken
    have hall : c.writer.handed = payloads.map encodeFrame ∧ c.writer.completed = c.writer.handed := by
      rw [hpayloads]
      cases h.orderly with
      | idle hw hq ho hh he => exact ⟨hh.trans he.symm, hh.symm⟩
      | busy front rest hw hq ho hh he | failed front rest hw hd hq ho hh he =>
          rw [hqueue] at hq
          cases hq
    have hcompleted := h.completed
    rw [hall.2] at hcompleted
    rw [hempty, List.append_nil, List.take_of_length_le hcompleted, hall.1] at hdown
    rw [hy.messages, hdown, drain_encoded hsizes]

/-- The client sends two payloads in a row, the server answers while it reads, every chunk is cut somewhere else,
    and then the client leaves with an answer on its way. -/
theorem payloads_in_order_cut :
    let es : List Event := [.send [1, 2], .send [3], .invoke, .arriveUp 5, .headerRead, .invoke, .arriveUp 3, .bodyRead,
      .serverCall [9], .serverCall [8, 7], .serverEnqueue 1, .transmit 4, .arriveUp 10, .headerRead, .bodyRead,
      .readyRead 3 false, .transmit 9, .written, .serverEnqueue 0, .transmit 5, .readyRead 5 false, .written,
      .requestDisconnect true, .invoke, .readFails]
    ∃ c, Machine.run step {} es = some c ∧ c.reader.delivered = [[1, 2], [3]] ∧
      c.client.messages = [[8, 7]] ∧ c.callbacks = 1 ∧
      ((∀ p ∈ c.calls, p.length < 2 ^ 32) → c.reader.delivered <+: deliverable c.calls ∧
        (c.client.socket = .connected → c.posted = [] → c.up = [] → c.reader.Waiting →
          c.reader.delivered = deliverable c.calls)) ∧
      (∃ payloads : List (List UInt8), c.writer.enqueued = payloads.map encodeFrame ∧
        ((∀ p ∈ payloads, p.length < 2 ^ 32) → c.client.messages <+: deliverable payloads ∧
          (c.writer.queue = [] → c.down = [] → c.client.messages = deliverable payloads))) ∧
      c.callbacks = if c.writer.disconnected then 1 else 0 := by
  intro es
  have hrun : (Machine.run step {} es).isSome := by decide +kernel
  refine ⟨_, (Option.some_get hrun).symm, ?_, ?_, ?_, payloads_in_order (Option.some_get hrun).symm⟩
  all_goals decide +kernel +revert

end

end Connection

end CollabEditor
