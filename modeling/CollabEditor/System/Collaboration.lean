import CollabEditor.Client.OTController
import CollabEditor.Lib.Machine
import CollabEditor.Server.Requests

/-!
# `System.Collaboration` — one document, its session and its editors

The whole system around one document: the session thread, the clients that have the document open, a FIFO
channel in each direction per client, and the rights that `doc_share_request` may change at any time. A
client session is named by the user id it is authenticated as. Each event is one atomic step of one party,
so a list of events is an arbitrary interleaving. Joining is one step here, so a joiner's snapshot fits what
it is sent afterwards; `System.Openings` has the two steps of the program.

`log`, `sentDown`, `openedAt` and `emitted` record the past (what was stored, sent to a client, contained in
the snapshot it joined with, emitted by a controller); no step reads them. The colours of the users are left
blank.

## Contents
- **The state and its events.** `System`, `Event`, `step`.
- **What each event can do.** `edit_cases`, `receive_cases`, `share_cases`, `process_cases`,
  `deliver_cases`, `join_cases`, `leave_cases`.
- **The start and observations.** `start`, `contentAt`, `Quiet`.
-/

namespace CollabEditor

variable {α : Type}

/-- The parties around one document. -/
structure System (α : Type) where
  session      : DocumentSession α UInt32
  access       : AccessControl
  users        : List UInt32
  /-- `current_doc_id` of each client session. -/
  currentDocId : UInt32 → UInt32
  username     : UInt32 → String
  /-- `AuthManager::find_user_id`. -/
  findUserId   : String → Option UInt32
  clients      : UInt32 → OTController α
  up           : UInt32 → List (OperationMsg α) := fun _ => []
  down         : UInt32 → List (ServerMsg α) := fun _ => []
  base         : Document α
  log          : List (Operation α) := []
  sentDown     : UInt32 → List (ServerMsg α) := fun _ => []
  openedAt     : UInt32 → ℕ := fun _ => 0
  emitted      : UInt32 → List (Effect α) := fun _ => []

namespace System

/-- One step of one party. -/
inductive Event (α : Type) where
  /-- The editor of a user hands over a batch of local operations. -/
  | edit (u : UInt32) (ops : List (Operation α))
  /-- A pool thread handles the oldest operation message of a user. -/
  | receive (u : UInt32)
  /-- A pool thread handles a `doc_share_request` of a user. -/
  | share (u : UInt32) (msg : DocShareRequestMsg)
  /-- The session thread processes its oldest command. -/
  | process
  /-- A client handles the oldest message sent to it. -/
  | deliver (u : UInt32)
  /-- A user opens the document. -/
  | join (u : UInt32)
  /-- A user has closed the document. -/
  | leave (u : UInt32)

/-- Queue messages for the clients. -/
def push (s : System α) (sends : List (UInt32 × ServerMsg α)) : System α :=
  { s with
    down := fun u => s.down u ++ (DocumentSession.messagesTo sends u).map ServerMsg.throughJson
    sentDown := fun u => s.sentDown u ++ (DocumentSession.messagesTo sends u).map ServerMsg.throughJson }

/-- A controller has run a slot: what it sends goes into the user's upward channel. -/
def react (s : System α) (u : UInt32) (c : OTController α) (effects : List (Effect α)) : System α :=
  { s with
    clients := Function.update s.clients u c
    up := Function.update s.up u (s.up u ++ (OTController.sends effects).map OperationMsg.throughJson)
    emitted := Function.update s.emitted u (s.emitted u ++ effects) }

/-- `EditorWidget` builds its operations with `make_insert` and `make_delete`. -/
def editable (s : System α) (u : UInt32) (ops : List (Operation α)) : Prop :=
  u ∈ s.users ∧ ∀ op ∈ ops, op.WellFormed

instance (s : System α) (u : UInt32) (ops : List (Operation α)) : Decidable (s.editable u ops) :=
  inferInstanceAs (Decidable (_ ∧ _))

/-- The operation stored by the step from one state of the document to the next, if one was. -/
def stored (doc : Document α) (cmd : DocCommand α UInt32) : List (Operation α) :=
  match cmd.type, doc.applyWithOt cmd.operation with
  | .operation, (_, .ok op) => [op]
  | _, _ => []

/-- `OTController::onLocalOperations` at a client. -/
def edit (s : System α) (u : UInt32) (ops : List (Operation α)) : Option (System α) :=
  if s.editable u ops then
    let r := (s.clients u).onLocalOperations ops
    some (s.react u r.1 r.2)
  else none

/-- `MessageHandler::handle_operation` on the oldest message of a client. -/
def receive (s : System α) (u : UInt32) : Option (System α) :=
  match s.up u with
  | [] => none
  | msg :: rest =>
      let s := { s with up := Function.update s.up u rest }
      match operationRefusal (s.currentDocId u) (s.access.canEdit msg.docId u)
          (msg.docId == s.session.doc.id) msg with
      | some error => some (s.push [(u, .error error)])
      | none =>
          some { s with
            session := (operationCommands u (s.username u) msg).foldl
              DocumentSession.enqueueCommand s.session }

/-- The messages of a successful `doc_share_request`: the target hears of it only if it is connected and
    in this document. -/
def shareReplies (s : System α) (u targetId : UInt32) (msg : DocShareRequestMsg) :
    List (UInt32 × ServerMsg α) :=
  (u, .docShareResponse true) ::
    if targetId ∈ s.users ∧ s.currentDocId targetId = msg.docId then
      [(targetId, .roleChanged { docId := msg.docId, newRole := msg.role })] else []

/-- `MessageHandler::handle_doc_share`. -/
def share (s : System α) (u : UInt32) (msg : DocShareRequestMsg) : Option (System α) :=
  match shareRefusal (s.access.canShare msg.docId u) (s.findUserId msg.targetUsername) u msg.role with
  | some error => some (s.push [(u, .error error)])
  | none => (s.findUserId msg.targetUsername).map fun targetId =>
      { s with access := s.access.setRole msg.docId targetId msg.role }.push
        (s.shareReplies u targetId msg)

/-- One turn of `DocumentSession::run`. -/
def process (s : System α) : Option (System α) :=
  match s.session.commandQueue with
  | [] => none
  | cmd :: rest =>
      let r := (s.session.setQueue rest).processCommand cmd
      some ({ s with session := r.1, log := s.log ++ stored s.session.doc cmd }.push r.2)

/-- `OTController::onNetworkMessage` on the oldest message to a client. -/
def deliver (s : System α) (u : UInt32) : Option (System α) :=
  if u ∈ s.users then
    match s.down u with
    | [] => none
    | msg :: rest =>
        ((s.clients u).onNetworkMessage msg).map fun r =>
          { s with down := Function.update s.down u rest }.react u r.1 r.2
  else none

/-- The controller of a user who opens the document with the content and revision that the server has. -/
def opened (doc : Document α) (u : UInt32) : OTController α :=
  { userId := u, docId := doc.id, doc := { content := doc.content, revision := doc.revision },
    revision := doc.revision }

/-- The row of a user in the table of connected users. -/
def connected (username : UInt32 → String) (u : UInt32) : ConnectedUser UInt32 :=
  { userId := u, username := username u, color := "", session := some u }

/-- `MessageHandler::handle_doc_join` and `DocumentSession::handle_join` as one step. The controller reads
    what is sent after the response; an earlier membership leaves nothing behind. -/
def join (s : System α) (u : UInt32) : Option (System α) :=
  if u ∉ s.users ∧ s.access.canRead s.session.doc.id u then
    let r := s.session.handleJoin { type := .join, userId := u, username := s.username u, session := some u }
    some ({ s with
      session := r.1
      users := u :: s.users
      currentDocId := Function.update s.currentDocId u s.session.doc.id
      clients := Function.update s.clients u (opened s.session.doc u)
      down := Function.update s.down u []
      sentDown := Function.update s.sentDown u []
      openedAt := Function.update s.openedAt u s.log.length
      emitted := Function.update s.emitted u [] }.push r.2)
  else none

/-- `MessageHandler::handle_doc_leave` and `DocumentSession::handle_leave` as one step, for the request of a
    user whose operations have all been processed. -/
def leave (s : System α) (u : UInt32) : Option (System α) :=
  if u ∈ s.users ∧ s.up u = [] ∧ ∀ cmd ∈ s.session.commandQueue, cmd.userId ≠ u then
    let r := s.session.handleLeave { type := .leave, userId := u, username := s.username u }
    some ({ s with
      session := r.1
      users := s.users.filter (· ≠ u)
      currentDocId := Function.update s.currentDocId u 0 }.push r.2)
  else none

def step (s : System α) : Event α → Option (System α)
  | .edit u ops  => s.edit u ops
  | .receive u   => s.receive u
  | .share u msg => s.share u msg
  | .process     => s.process
  | .deliver u   => s.deliver u
  | .join u      => s.join u
  | .leave u     => s.leave u

/-! ## What each event can do -/

section Cases

variable {s s' : System α}

theorem edit_cases {u : UInt32} {ops : List (Operation α)} (h : s.step (.edit u ops) = some s') :
    u ∈ s.users ∧ (∀ op ∈ ops, op.WellFormed) ∧
      s' = s.react u ((s.clients u).onLocalOperations ops).1
        ((s.clients u).onLocalOperations ops).2 := by
  change s.edit u ops = some s' at h
  unfold edit at h
  split_ifs at h with hok
  cases h
  exact ⟨hok.1, hok.2, rfl⟩

/-- A message is refused and answered, or turned into commands at the end of the queue. -/
theorem receive_cases {u : UInt32} (h : s.step (.receive u) = some s') :
    ∃ msg rest, s.up u = msg :: rest ∧
      ((∃ error, operationRefusal (s.currentDocId u) (s.access.canEdit msg.docId u)
          (msg.docId == s.session.doc.id) msg = some error ∧
        s' = { s with up := Function.update s.up u rest }.push [(u, .error error)]) ∨
      (operationRefusal (s.currentDocId u) (s.access.canEdit msg.docId u)
          (msg.docId == s.session.doc.id) msg = none ∧
        s' = { s with
          up := Function.update s.up u rest
          session := { s.session with
            commandQueue := s.session.commandQueue ++ operationCommands u (s.username u) msg } })) := by
  change s.receive u = some s' at h
  unfold receive at h
  cases hup : s.up u with
  | nil => rw [hup] at h; cases h
  | cons msg rest =>
      rw [hup] at h
      dsimp only at h
      refine ⟨msg, rest, rfl, ?_⟩
      cases hr : operationRefusal (s.currentDocId u) (s.access.canEdit msg.docId u)
          (msg.docId == s.session.doc.id) msg with
      | some error =>
          rw [hr] at h
          cases h
          exact .inl ⟨error, rfl, rfl⟩
      | none =>
          rw [hr] at h
          cases h
          rw [DocumentSession.foldl_enqueueCommand]
          exact .inr ⟨rfl, rfl⟩

/-- A share request is refused and answered, or changes a role and is announced. -/
theorem share_cases {u : UInt32} {msg : DocShareRequestMsg} (h : s.step (.share u msg) = some s') :
    (∃ error, s' = s.push [(u, .error error)]) ∨
      ∃ targetId, s' = { s with access := s.access.setRole msg.docId targetId msg.role }.push
        (s.shareReplies u targetId msg) := by
  change s.share u msg = some s' at h
  unfold share at h
  cases hr : shareRefusal (s.access.canShare msg.docId u) (s.findUserId msg.targetUsername) u msg.role with
  | some error =>
      rw [hr] at h
      cases h
      exact .inl ⟨error, rfl⟩
  | none =>
      rw [hr] at h
      obtain ⟨targetId, _, rfl⟩ := Option.map_eq_some_iff.mp h
      exact .inr ⟨targetId, rfl⟩

theorem process_cases (h : s.step .process = some s') :
    ∃ cmd rest, s.session.commandQueue = cmd :: rest ∧
      s' = { s with
        session := ((s.session.setQueue rest).processCommand cmd).1
        log := s.log ++ stored s.session.doc cmd }.push
          ((s.session.setQueue rest).processCommand cmd).2 := by
  change s.process = some s' at h
  unfold process at h
  cases hq : s.session.commandQueue with
  | nil => rw [hq] at h; cases h
  | cons cmd rest =>
      rw [hq] at h
      cases h
      exact ⟨cmd, rest, rfl, rfl⟩

theorem deliver_cases {u : UInt32} (h : s.step (.deliver u) = some s') :
    u ∈ s.users ∧ ∃ msg rest c effects, s.down u = msg :: rest ∧
      (s.clients u).onNetworkMessage msg = some (c, effects) ∧
      s' = { s with down := Function.update s.down u rest }.react u c effects := by
  change s.deliver u = some s' at h
  unfold deliver at h
  split_ifs at h with hu
  cases hd : s.down u with
  | nil => rw [hd] at h; cases h
  | cons msg rest =>
      rw [hd] at h
      obtain ⟨⟨c, effects⟩, hm, rfl⟩ := Option.map_eq_some_iff.mp h
      exact ⟨hu, msg, rest, c, effects, rfl, hm, rfl⟩

theorem join_cases {u : UInt32} (h : s.step (.join u) = some s') :
    u ∉ s.users ∧ s' = { s with
      session := { s.session with
        connectedUsers := s.session.connectedUsers.insert u (connected s.username u)
        doc := s.session.doc.subscribe u }
      users := u :: s.users
      currentDocId := Function.update s.currentDocId u s.session.doc.id
      clients := Function.update s.clients u (opened s.session.doc u)
      down := Function.update s.down u []
      sentDown := Function.update s.sentDown u []
      openedAt := Function.update s.openedAt u s.log.length
      emitted := Function.update s.emitted u [] }.push
        (s.session.handleJoin
          { type := .join, userId := u, username := s.username u, session := some u }).2 := by
  change s.join u = some s' at h
  unfold join at h
  split_ifs at h with hok
  cases h
  exact ⟨hok.1, rfl⟩

theorem leave_cases {u : UInt32} (h : s.step (.leave u) = some s') :
    s.up u = [] ∧ (∀ cmd ∈ s.session.commandQueue, cmd.userId ≠ u) ∧ s' = { s with
      session := { s.session with
        connectedUsers := s.session.connectedUsers.erase u
        doc := s.session.doc.unsubscribe u }
      users := s.users.filter (· ≠ u)
      currentDocId := Function.update s.currentDocId u 0 }.push
        (s.session.handleLeave { type := .leave, userId := u, username := s.username u }).2 := by
  change s.leave u = some s' at h
  unfold leave at h
  split_ifs at h with hok
  cases h
  exact ⟨hok.2.1, hok.2.2, rfl⟩

end Cases

/-! ## The start and observations -/

/-- The clients `users` have joined the document `doc` and hold its content and revision. -/
def start (doc : Document α) (users : List UInt32) (username : UInt32 → String)
    (findUserId : String → Option UInt32) (access : AccessControl) : System α where
  session :=
    { doc := doc
      connectedUsers := users.foldr (fun u table => table.insert u (connected username u)) ∅ }
  access := access
  users := users
  currentDocId := fun u => if u ∈ users then doc.id else 0
  username := username
  findUserId := findUserId
  clients := opened doc
  base := doc

/-- The content at a revision since the start. -/
def contentAt (s : System α) (revision : UInt32) : List α :=
  Diamond.acts apply s.base.content (s.log.take (revision.toNat - s.base.revision.toNat))

/-- No message and no command is in flight. -/
def Quiet (s : System α) : Prop :=
  s.session.commandQueue = [] ∧ ∀ u ∈ s.users, s.up u = [] ∧ s.down u = []

instance [DecidableEq α] (s : System α) : Decidable s.Quiet := inferInstanceAs (Decidable (_ ∧ _))

end System

end CollabEditor
