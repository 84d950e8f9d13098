import CollabEditor.Lib.Diamond
import CollabEditor.Protocol.Messages
import CollabEditor.Protocol.Wire

/-!
# `Client.OTController` — the optimistic client

`LocalDocument` and `OTController`, translated slot by slot. A slot returns the controller's next state and
the list of its effects (messages sent, signals emitted) in order; the ones that dereference `pending_op_`
or `buffer_.front()` return an `Option`, with `none` for the dereference of nothing.

## Contents
- **The records and slots.**
- **Consistency.** `Consistent`: the representation invariant, under which no slot fails.
- **One lemma per slot**, in terms of `outstanding`, the pending operation followed by the buffer:
  `onLocalOperation_spec`, `handleAck_spec`, `handleBroadcast_spec`. The broadcast loop is
  `Diamond.evolve`.
-/

namespace CollabEditor

open Diamond

variable {α : Type}

/-- `collab_client::LocalDocument`. -/
structure LocalDocument (α : Type) where
  content  : List α
  revision : UInt32
  deriving DecidableEq, Repr

/-- `LocalDocument::apply`. -/
def LocalDocument.apply (doc : LocalDocument α) (op : Operation α) : LocalDocument α :=
  { doc with content := CollabEditor.apply doc.content op }

/-- `LocalDocument::set_revision`. -/
def LocalDocument.setRevision (doc : LocalDocument α) (rev : UInt32) : LocalDocument α :=
  { doc with revision := rev }

/-- `OTController::State`. -/
inductive OTState where
  | synchronized
  | awaitingAck
  | awaitingAckWithBuffer
  deriving DecidableEq, Repr

/-- `collab_client::OTController`, with the local document it points to and the user id of its network
    manager. -/
structure OTController (α : Type) where
  userId    : UInt32
  docId     : UInt32
  doc       : LocalDocument α
  revision  : UInt32
  state     : OTState := .synchronized
  pendingOp : Option (Operation α) := none
  buffer    : List (Operation α) := []
  deriving DecidableEq, Repr

/-- What a slot does besides updating the controller. -/
inductive Effect (α : Type) where
  | send (msg : OperationMsg α)
  | revisionChanged (revision : UInt32)
  | remoteOperationApplied (op : Operation α)
  | stateChanged (label : String)
  | fatalError (message : String)
  deriving DecidableEq, Repr

namespace OTController

/-- The message `sendOp` hands to the network manager. -/
def sendOp (c : OTController α) (op : Operation α) : OperationMsg α :=
  { docId := c.docId, revision := c.revision, ops := [toEntry op] }

/-- `emitStateLabel`. -/
def emitStateLabel (c : OTController α) : Effect α :=
  match c.state with
  | .synchronized          => .stateChanged "SYN"
  | .awaitingAck           => .stateChanged "ACK"
  | .awaitingAckWithBuffer => .stateChanged "BUF"

/-- One turn of the loop of `onLocalOperations`; the flag is `state_changed`. -/
def onLocalOperation (c : OTController α) (op : Operation α) :
    OTController α × List (Effect α) × Bool :=
  if op.isNoop then (c, [], false)
  else
    let op := { op with userId := c.userId, revision := c.revision }
    let c := { c with doc := c.doc.apply op }
    match c.state with
    | .synchronized =>
        ({ c with pendingOp := some op, state := .awaitingAck }, [.send (c.sendOp op)], true)
    | .awaitingAck =>
        ({ c with buffer := c.buffer ++ [op], state := .awaitingAckWithBuffer }, [], true)
    | .awaitingAckWithBuffer => ({ c with buffer := c.buffer ++ [op] }, [], false)

/-- The loop of `onLocalOperations`. -/
def localLoop (c : OTController α) : List (Operation α) → OTController α × List (Effect α) × Bool
  | [] => (c, [], false)
  | op :: ops =>
      let (c, effects, changed) := c.onLocalOperation op
      let (c, effects', changed') := localLoop c ops
      (c, effects ++ effects', changed || changed')

/-- `onLocalOperations`. -/
def onLocalOperations (c : OTController α) (ops : List (Operation α)) :
    OTController α × List (Effect α) :=
  let (c, effects, changed) := c.localLoop ops
  (c, if changed then effects ++ [c.emitStateLabel] else effects)

/-- `handleAck`. -/
def handleAck (c : OTController α) (msg : OperationAckMsg) :
    Option (OTController α × List (Effect α)) :=
  let c := { c with revision := msg.revision, doc := c.doc.setRevision msg.revision }
  match c.state with
  | .synchronized => some (c, [.revisionChanged msg.revision, c.emitStateLabel])
  | .awaitingAck =>
      let c := { c with pendingOp := none, state := .synchronized }
      some (c, [.revisionChanged msg.revision, c.emitStateLabel])
  | .awaitingAckWithBuffer => match c.buffer with
      | [] => none
      | op :: rest =>
          let c := { c with
            pendingOp := some op
            buffer := rest
            state := if rest.isEmpty then .awaitingAck else .awaitingAckWithBuffer }
          some (c, [.revisionChanged msg.revision, .send (c.sendOp op), c.emitStateLabel])

/-- The inner loop of `handleBroadcast` over the buffer. -/
def bufferLoop : List (Operation α) → Operation α → List (Operation α) × Operation α
  | [], evolved => ([], evolved)
  | buffered :: rest, evolved =>
      let (bufferedPrime, nextEvolved) := transform buffered evolved
      let (rest, evolved) := bufferLoop rest nextEvolved
      (bufferedPrime :: rest, evolved)

/-- One turn of the outer loop of `handleBroadcast`. -/
def receiveOperation (c : OTController α) (serverOp : Operation α) :
    Option (OTController α × List (Effect α)) :=
  match c.state with
  | .synchronized =>
      some ({ c with doc := c.doc.apply serverOp }, [.remoteOperationApplied serverOp])
  | _ => match c.pendingOp with
      | none => none
      | some pending =>
          let (pendingPrime, evolved) := transform pending serverOp
          let (buffer, evolved) := bufferLoop c.buffer evolved
          some ({ c with pendingOp := some pendingPrime, buffer := buffer, doc := c.doc.apply evolved },
            [.remoteOperationApplied evolved])

/-- The outer loop of `handleBroadcast`. -/
def broadcastLoop (c : OTController α) :
    List (Operation α) → Option (OTController α × List (Effect α))
  | [] => some (c, [])
  | op :: ops => do
      let (c, effects) ← c.receiveOperation op
      let (c, effects') ← broadcastLoop c ops
      return (c, effects ++ effects')

/-- `handleBroadcast`. -/
def handleBroadcast (c : OTController α) (msg : OperationBroadcastMsg α) :
    Option (OTController α × List (Effect α)) :=
  if msg.userId = c.userId then some (c, [])
  else do
    let (c, effects) ← c.broadcastLoop (msg.ops.map (fromEntry · msg.userId msg.revision))
    return ({ c with revision := msg.revision, doc := c.doc.setRevision msg.revision },
      effects ++ [.revisionChanged msg.revision])

/-- `handleError`. -/
def handleError (msg : ErrorMsg) : List (Effect α) :=
  if msg.code = "revision_too_old" then [.fatalError "Document out of sync — reopen it."] else []

/-- `onNetworkMessage`. -/
def onNetworkMessage (c : OTController α) (payload : ServerMsg α) :
    Option (OTController α × List (Effect α)) :=
  match payload with
  | .operationAck msg => if msg.docId = c.docId then c.handleAck msg else some (c, [])
  | .operationBroadcast msg => if msg.docId = c.docId then c.handleBroadcast msg else some (c, [])
  | .error msg => some (c, handleError msg)
  | _ => some (c, [])

/-! ## Consistency -/

/-- The representation invariant: the state label says what is pending and buffered. -/
inductive Consistent (c : OTController α) : Prop where
  | synchronized (hs : c.state = .synchronized) (hp : c.pendingOp = none) (hb : c.buffer = [])
  | awaitingAck (p : Operation α) (hs : c.state = .awaitingAck) (hp : c.pendingOp = some p)
      (hb : c.buffer = [])
  | awaitingAckWithBuffer (p b : Operation α) (rest : List (Operation α))
      (hs : c.state = .awaitingAckWithBuffer) (hp : c.pendingOp = some p) (hb : c.buffer = b :: rest)

/-- The operations not acknowledged yet, oldest first. -/
def outstanding (c : OTController α) : List (Operation α) := c.pendingOp.toList ++ c.buffer

/-- The messages among the effects. -/
def sends (effects : List (Effect α)) : List (OperationMsg α) :=
  effects.filterMap fun e => match e with
    | .send msg => some msg
    | _ => none

@[simp] theorem sends_nil : sends ([] : List (Effect α)) = [] := rfl

theorem sends_append (es es' : List (Effect α)) : sends (es ++ es') = sends es ++ sends es' :=
  List.filterMap_append

@[simp] theorem sends_emitStateLabel (c : OTController α) : sends [c.emitStateLabel] = [] := by
  unfold emitStateLabel
  cases c.state <;> rfl

section Specs

variable {c : OTController α}

theorem Consistent.outstanding_nil (h : c.Consistent) :
    c.outstanding = [] ↔ c.state = .synchronized := by
  unfold outstanding
  cases h with
  | synchronized hs hp hb => simp [hs, hp, hb]
  | awaitingAck p hs hp hb => simp [hs, hp]
  | awaitingAckWithBuffer p b rest hs hp hb => simp [hs, hp]

theorem Consistent.pendingOp_eq (h : c.Consistent) : c.pendingOp = c.outstanding.head? := by
  unfold outstanding
  cases h with
  | synchronized hs hp hb => simp [hp, hb]
  | awaitingAck p hs hp hb => simp [hp]
  | awaitingAckWithBuffer p b rest hs hp hb => simp [hp]

/-- What the controller makes of a local operation. -/
def stamp (c : OTController α) (op : Operation α) : Operation α :=
  { op with userId := c.userId, revision := c.revision }

/-- `c'` is `c` with other outstanding operations and document content. -/
structure SameSession (c c' : OTController α) : Prop where
  userId : c'.userId = c.userId
  docId  : c'.docId = c.docId

theorem SameSession.refl (c : OTController α) : SameSession c c := ⟨rfl, rfl⟩

theorem SameSession.trans {c₁ c₂ c₃ : OTController α} (h : SameSession c₁ c₂) (h' : SameSession c₂ c₃) :
    SameSession c₁ c₃ := ⟨h'.userId.trans h.userId, h'.docId.trans h.docId⟩

theorem onLocalOperation_noop {op : Operation α} (h : op.isNoop = true) :
    c.onLocalOperation op = (c, [], false) := by
  unfold onLocalOperation
  rw [if_pos h]

/-- **A local operation** is applied at once, joins the outstanding ones, and is sent if it is the only
    one. -/
theorem onLocalOperation_spec (h : c.Consistent) {op : Operation α} (hn : op.isNoop = false) :
    (c.onLocalOperation op).1.Consistent ∧ SameSession c (c.onLocalOperation op).1 ∧
      (c.onLocalOperation op).1.revision = c.revision ∧
      (c.onLocalOperation op).1.doc = c.doc.apply (c.stamp op) ∧
      (c.onLocalOperation op).1.outstanding = c.outstanding ++ [c.stamp op] ∧
      sends (c.onLocalOperation op).2.1 =
        if c.outstanding.isEmpty then [c.sendOp (c.stamp op)] else [] := by
  unfold onLocalOperation
  rw [if_neg (by rw [hn]; exact Bool.false_ne_true)]
  obtain ⟨u, d, doc, rev, state, pending, buffer⟩ := c
  cases h with
  | synchronized hs hp hb =>
      cases hs; cases hp; cases hb
      exact ⟨.awaitingAck _ rfl rfl rfl, ⟨rfl, rfl⟩, rfl, rfl, rfl, rfl⟩
  | awaitingAck p hs hp hb =>
      cases hs; cases hp; cases hb
      exact ⟨.awaitingAckWithBuffer p _ [] rfl rfl rfl, ⟨rfl, rfl⟩, rfl, rfl, rfl, rfl⟩
  | awaitingAckWithBuffer p b rest hs hp hb =>
      cases hs; cases hp; cases hb
      exact ⟨.awaitingAckWithBuffer p b (rest ++ [_]) rfl rfl rfl, ⟨rfl, rfl⟩, rfl, rfl, rfl, rfl⟩

theorem sends_onLocalOperations (c : OTController α) (ops : List (Operation α)) :
    sends (c.onLocalOperations ops).2 = sends (c.localLoop ops).2.1 := by
  unfold onLocalOperations
  dsimp only
  split_ifs with h
  · rw [sends_append, sends_emitStateLabel, List.append_nil]
  · rfl

/-- **An acknowledgement** retires the oldest outstanding operation and sends the next one. -/
theorem handleAck_spec (h : c.Consistent) (msg : OperationAckMsg) :
    ∃ c' effects, c.handleAck msg = some (c', effects) ∧ c'.Consistent ∧ SameSession c c' ∧
      c'.revision = msg.revision ∧ c'.doc = c.doc.setRevision msg.revision ∧
      c'.outstanding = c.outstanding.tail ∧
      sends effects = (c.outstanding.tail.head?.map c'.sendOp).toList := by
  obtain ⟨u, d, doc, rev, state, pending, buffer⟩ := c
  cases h with
  | synchronized hs hp hb =>
      cases hs; cases hp; cases hb
      exact ⟨_, _, rfl, .synchronized rfl rfl rfl, ⟨rfl, rfl⟩, rfl, rfl, rfl, rfl⟩
  | awaitingAck p hs hp hb =>
      cases hs; cases hp; cases hb
      exact ⟨_, _, rfl, .synchronized rfl rfl rfl, ⟨rfl, rfl⟩, rfl, rfl, rfl, rfl⟩
  | awaitingAckWithBuffer p b rest hs hp hb =>
      cases hs; cases hp; cases hb
      cases rest with
      | nil => exact ⟨_, _, rfl, .awaitingAck b rfl rfl rfl, ⟨rfl, rfl⟩, rfl, rfl, rfl, rfl⟩
      | cons b' rest =>
          exact ⟨_, _, rfl, .awaitingAckWithBuffer b b' rest rfl rfl rfl, ⟨rfl, rfl⟩, rfl, rfl, rfl, rfl⟩

theorem bufferLoop_eq (buffer : List (Operation α)) (op : Operation α) :
    bufferLoop buffer op = evolve xform buffer op := by
  induction buffer generalizing op with
  | nil => rfl
  | cons b bs ih => simp only [bufferLoop, evolve, transform_swap, ih, xform]

theorem receiveOperation_pending {p : Operation α} (hs : c.state ≠ .synchronized)
    (hp : c.pendingOp = some p) (op : Operation α) :
    c.receiveOperation op = some
      ({ c with
          pendingOp := some (xform p op)
          buffer := (evolve xform c.buffer (xform op p)).1
          doc := c.doc.apply (evolve xform c.buffer (xform op p)).2 },
        [.remoteOperationApplied (evolve xform c.buffer (xform op p)).2]) := by
  unfold receiveOperation
  rw [hp]
  simp only [bufferLoop_eq, transform_swap]
  cases hstate : c.state with
  | synchronized => exact absurd hstate hs
  | awaitingAck => rfl
  | awaitingAckWithBuffer => rfl

/-- **One remote operation** is carried across the outstanding ones, and the result applied. -/
theorem receiveOperation_spec (h : c.Consistent) (op : Operation α) :
    ∃ c' effects, c.receiveOperation op = some (c', effects) ∧ c'.Consistent ∧ SameSession c c' ∧
      c'.doc = c.doc.apply (evolve xform c.outstanding op).2 ∧
      c'.outstanding = (evolve xform c.outstanding op).1 ∧ sends effects = [] := by
  cases h with
  | synchronized hs hp hb =>
      unfold receiveOperation outstanding
      rw [hs, hp, hb]
      exact ⟨_, _, rfl, .synchronized rfl rfl rfl, ⟨rfl, rfl⟩, rfl, rfl, rfl⟩
  | awaitingAck p hs hp hb =>
      rw [receiveOperation_pending (by rw [hs]; decide) hp]
      unfold outstanding
      rw [hp, hb]
      exact ⟨_, _, rfl, .awaitingAck _ hs rfl rfl, ⟨rfl, rfl⟩, rfl, rfl, rfl⟩
  | awaitingAckWithBuffer p b rest hs hp hb =>
      rw [receiveOperation_pending (by rw [hs]; decide) hp]
      unfold outstanding
      rw [hp, hb]
      exact ⟨_, _, rfl, .awaitingAckWithBuffer _ _ _ hs rfl rfl, ⟨rfl, rfl⟩, rfl, rfl, rfl⟩

/-- **A broadcast of one operation** by another user. -/
theorem handleBroadcast_spec (h : c.Consistent) {msg : OperationBroadcastMsg α} {entry : OpEntry α}
    (hu : msg.userId ≠ c.userId) (hops : msg.ops = [entry]) :
    ∃ c' effects, c.handleBroadcast msg = some (c', effects) ∧ c'.Consistent ∧ SameSession c c' ∧
      c'.revision = msg.revision ∧ c'.doc.revision = msg.revision ∧
      c'.doc.content = CollabEditor.apply c.doc.content
        (evolve xform c.outstanding (fromEntry entry msg.userId msg.revision)).2 ∧
      c'.outstanding = (evolve xform c.outstanding (fromEntry entry msg.userId msg.revision)).1 ∧
      sends effects = [] := by
  obtain ⟨c', effects, heq, hcons, hsame, hdoc, hout, hsends⟩ :=
    receiveOperation_spec h (fromEntry entry msg.userId msg.revision)
  unfold handleBroadcast
  rw [if_neg hu, hops, List.map_singleton, broadcastLoop, heq]
  refine ⟨_, _, rfl, ?_, ⟨hsame.userId, hsame.docId⟩, rfl, rfl, ?_, hout, ?_⟩
  · cases hcons with
    | synchronized hs hp hb => exact .synchronized hs hp hb
    | awaitingAck p hs hp hb => exact .awaitingAck p hs hp hb
    | awaitingAckWithBuffer p b rest hs hp hb => exact .awaitingAckWithBuffer p b rest hs hp hb
  · exact congrArg LocalDocument.content hdoc
  · rw [sends_append, sends_append, hsends]
    rfl

end Specs

end OTController

end CollabEditor
