import CollabEditor.Lib.Machine
import CollabEditor.Server.Notification
import CollabEditor.Server.Requests

/-!
# `Server.Joining` — a session joins while the document is edited

`handle_doc_join` runs on a pool thread: it reads the document, sends the join response, and enqueues a
`Join` command, which the session thread processes behind whatever was queued before. Here it runs once, for
one session, against the session thread and any commands of other users, with the operations that its client
sends after the response. A turn of the session thread updates the document and the table first and makes
its sends one by one afterwards, so the read may fall between an operation and its broadcast.

`sentBefore`, `sentAfter`, `log` and `asked` record the past (what the joining session was sent up to its
response and after it, the operations processed, the number of operations its client asked for); no step
reads them.

## Contents
- **The parties.** `Joining`, its events and `step`.
- **What is due.** `notice`, `due`, `CaughtUp`.
- **Steps in time.** `Timely`, the condition on a step under which the joiner stays informed.
-/

namespace CollabEditor

open DocumentSession

variable {α σ : Type}

/-- How far `handle_doc_join` has come, with what it has read. -/
inductive JoinStage (α : Type) where
  | entered
  | read (content : List α) (revision : UInt32)
  | responded (revision : UInt32)
  | submitted (revision : UInt32)

/-- The revision that `handle_doc_join` has read. -/
def JoinStage.readRevision : JoinStage α → Option UInt32
  | .entered            => none
  | .read _ revision    => some revision
  | .responded revision => some revision
  | .submitted revision => some revision

/-- The revision in the join response that has been sent. -/
def JoinStage.sentRevision : JoinStage α → Option UInt32
  | .responded revision => some revision
  | .submitted revision => some revision
  | _                   => none

/-- An operation command that the session thread has processed, and the document's revision after it. -/
structure Processed (α : Type) where
  userId   : UInt32
  username : String
  revision : UInt32
  result   : Except String (Operation α)

/-- The parties of one join. -/
structure Joining (α σ : Type) where
  session    : DocumentSession α σ
  stage      : JoinStage α := .entered
  /-- What the session thread still has to send for the command it took last. -/
  pending    : List (σ × ServerMsg α) := []
  /-- The runs of `handle_operation` for the joining session: the commands each still has to enqueue. -/
  tasks      : List (List (DocCommand α σ)) := []
  sentBefore : List (ServerMsg α) := []
  sentAfter  : List (ServerMsg α) := []
  log        : List (Processed α) := []
  asked      : ℕ := 0

namespace Joining

/-- One step of one party. -/
inductive Event (α σ : Type) where
  /-- A session enqueues a command. -/
  | enqueue (c : SessionCommand α σ)
  /-- `handle_doc_join` reads content and revision. -/
  | read
  /-- `handle_doc_join` sends the response. -/
  | respond
  /-- `handle_doc_join` enqueues the `Join` command. -/
  | submit
  /-- `handle_operation` takes up a message of the joining session; `canEdit` is what its rights say. -/
  | operate (msg : OperationMsg α) (canEdit : Bool)
  /-- The `n`th run of `handle_operation` enqueues its next command. -/
  | push (n : ℕ)
  /-- The session thread takes the oldest command. -/
  | process
  /-- The session thread makes its next send. -/
  | deliver

section Steps

variable (auth : σ → Identity) (role : String) (j : σ)

/-- Is the command an operation of the joining user? -/
def own (cmd : DocCommand α σ) : Bool := cmd.type = .operation ∧ cmd.userId = (auth j).userId

/-- The operations of the joining user come from the joining session alone. -/
def Foreign (c : SessionCommand α σ) : Prop := own auth j (c.toCommand auth) = false

instance (c : SessionCommand α σ) : Decidable (Foreign auth j c) := inferInstanceAs (Decidable (_ = _))

/-- Enqueue a command. -/
def enqueued (t : Joining α σ) (cmd : DocCommand α σ) : Joining α σ :=
  { t with session := t.session.enqueueCommand cmd }

/-- The join response. -/
def response (t : Joining α σ) (content : List α) (revision : UInt32) : ServerMsg α :=
  .docJoinResponse
    { success := true, docId := t.session.doc.id, title := t.session.doc.title, content := content,
      revision := revision, role := role,
      users := t.session.connectedUserList.map fun user =>
        { userId := user.userId, username := user.username, color := user.color } }

/-- The entry of the log for a command. -/
def processed (doc : Document α) (cmd : DocCommand α σ) : List (Processed α) :=
  match cmd.type with
  | .operation =>
      [{ userId := cmd.userId, username := cmd.username,
         revision := (doc.applyWithOt cmd.operation).1.revision,
         result := (doc.applyWithOt cmd.operation).2 }]
  | _ => []

def enqueue (t : Joining α σ) (c : SessionCommand α σ) : Option (Joining α σ) :=
  if Foreign auth j c then some (t.enqueued (c.toCommand auth)) else none

def read (t : Joining α σ) : Option (Joining α σ) :=
  match t.stage with
  | .entered => some { t with stage := .read t.session.doc.content t.session.doc.revision }
  | _ => none

def respond (t : Joining α σ) : Option (Joining α σ) :=
  match t.stage with
  | .read content revision =>
      some { t with
        stage := .responded revision
        sentBefore := t.sentBefore ++ [t.response role content revision] }
  | _ => none

def submit (t : Joining α σ) : Option (Joining α σ) :=
  match t.stage with
  | .responded revision =>
      some ({ t with stage := .submitted revision }.enqueued ((SessionCommand.join j).toCommand auth))
  | _ => none

/-- `handle_operation` up to its loop. The session's current document is the one it has joined, and that
    document has a session. -/
def operate (t : Joining α σ) (msg : OperationMsg α) (canEdit : Bool) : Option (Joining α σ) :=
  match t.stage.sentRevision with
  | none => none
  | some _ =>
      match operationRefusal t.session.doc.id canEdit true msg with
      | some error =>
          some { t with
            sentAfter := t.sentAfter ++ [.error error]
            asked := t.asked + msg.ops.length }
      | none =>
          some { t with
            tasks := t.tasks ++ [operationCommands (auth j).userId (auth j).username msg]
            asked := t.asked + msg.ops.length }

/-- One turn of the loop of `handle_operation`. -/
def push (t : Joining α σ) (n : ℕ) : Option (Joining α σ) :=
  match t.tasks[n]? with
  | some (cmd :: rest) => some ({ t with tasks := t.tasks.set n rest }.enqueued cmd)
  | _ => none

/-- `process_command` up to its sends. -/
def process (t : Joining α σ) : Option (Joining α σ) :=
  match t.pending, t.session.commandQueue with
  | [], cmd :: rest =>
      let r := (t.session.setQueue rest).processCommand cmd
      some { t with session := r.1, pending := r.2, log := t.log ++ processed t.session.doc cmd }
  | _, _ => none

/-- One `send` of `broadcast` or `send_to_user`. -/
def deliver [DecidableEq σ] (t : Joining α σ) : Option (Joining α σ) :=
  match t.pending with
  | [] => none
  | (i, msg) :: rest =>
      let t := { t with pending := rest }
      if i = j then
        match t.stage.sentRevision with
        | none   => some { t with sentBefore := t.sentBefore ++ [msg] }
        | some _ => some { t with sentAfter := t.sentAfter ++ [msg] }
      else some t

def step [DecidableEq σ] (t : Joining α σ) : Event α σ → Option (Joining α σ)
  | .enqueue c           => t.enqueue auth j c
  | .read                => t.read
  | .respond             => t.respond role
  | .submit              => t.submit auth j
  | .operate msg canEdit => t.operate auth j msg canEdit
  | .push n              => t.push n
  | .process             => t.process
  | .deliver             => t.deliver j

end Steps

end Joining

/-! ## What is due -/

/-- The revision that an acknowledgement or a broadcast tells of. -/
def ServerMsg.noticeRevision : ServerMsg α → Option UInt32
  | .operationAck msg       => some msg.revision
  | .operationBroadcast msg => some msg.revision
  | _                       => none

/-- Does the message tell of an operation stored after revision `r`? -/
def ServerMsg.newer (r : UInt32) (msg : ServerMsg α) : Bool := msg.noticeRevision.any (r < ·)

theorem newer_of_not_notice {r : UInt32} {msg : ServerMsg α} (h : msg.isNotice = false) :
    msg.newer r = false := by
  cases msg with
  | operationAck msg => cases h
  | operationBroadcast msg => cases h
  | _ => rfl

theorem isAck_of_not_notice {msg : ServerMsg α} (h : msg.isNotice = false) : msg.isAck = false := by
  cases msg with
  | operationAck msg => cases h
  | operationBroadcast msg => cases h
  | _ => rfl

namespace Joining

/-- How a session of user `u` has to hear of an operation: as its own or as another user's. -/
def notice (docId u : UInt32) (e : Processed α) : Option (ServerMsg α) :=
  match e.result with
  | .error _ => none
  | .ok op => some (if u = e.userId then .operationAck { docId := docId, revision := e.revision }
      else .operationBroadcast
        { docId := docId, userId := e.userId, username := e.username, revision := e.revision,
          ops := [toEntry op] })

/-- What a session of user `u` that knows revision `r` has to hear of. -/
def due (docId u r : UInt32) (log : List (Processed α)) : List (ServerMsg α) :=
  (log.filter (r < ·.revision)).filterMap (notice docId u)

/-- The revisions of the stored operations. -/
def storedRevisions (log : List (Processed α)) : List UInt32 :=
  log.filterMap fun e => e.result.toOption.map fun _ => e.revision

section Properties

variable (auth : σ → Identity) (j : σ)

/-- The operations of the joining session that the session thread has not taken yet. -/
def unprocessed (t : Joining α σ) : ℕ := t.session.commandQueue.countP (own auth j) + t.tasks.flatten.length

/-- After its join response with revision `r` the joining session has been sent, in the order of the
    revisions and each exactly once, a broadcast of every later operation of another user and an
    acknowledgement of every one of its own; the later revisions are `r + 1`, `r + 2`, …; and every
    operation its client asked for has been acknowledged, or is still to be processed. -/
structure CaughtUp (t : Joining α σ) (r : UInt32) : Prop where
  notices  : t.sentAfter.filter ServerMsg.isNotice =
    due t.session.doc.id (auth j).userId r t.log
  gapless  : (storedRevisions t.log).filter (r < ·) =
    (List.range' (r.toNat + 1) (t.session.doc.revision.toNat - r.toNat)).map UInt32.ofNat
  answered : t.sentAfter.countP ServerMsg.isAck + t.unprocessed auth j = t.asked

/-! ## Steps in time -/

/-- The condition on taking an operation command: the counter does not wrap; the session is registered
    when an operation of its own is taken, which must not be too old; and once the document has been read
    it is registered when an operation of another user is accepted. -/
def TakenInTime [DecidableEq σ] (t : Joining α σ) (cmd : DocCommand α σ) : Prop :=
  t.session.doc.revision.toNat + 1 < 2 ^ 32 ∧
    if cmd.userId = (auth j).userId then
      t.session.registered (auth j).userId = some j ∧ t.session.doc.Accepts cmd.operation
    else t.stage.readRevision.isSome → t.session.doc.Accepts cmd.operation →
      t.session.registered (auth j).userId = some j

/-- The condition on a step. An operation command is taken in time; the response is not sent before a
    broadcast of what the read has seen, nor after a broadcast of what it has not seen; and the messages of
    the joining session are not refused. -/
def Timely [DecidableEq σ] (t : Joining α σ) : Event α σ → Prop
  | .process => ∀ cmd ∈ t.session.commandQueue.head?, cmd.type = .operation → t.TakenInTime auth j cmd
  | .respond => ∀ r ∈ t.stage.readRevision, ∀ msg ∈ messagesTo t.pending j,
      msg.isNotice = true → msg.newer r = true
  | .deliver => t.stage.sentRevision = none → ∀ r ∈ t.stage.readRevision, ∀ p ∈ t.pending.head?,
      p.1 = j → p.2.newer r = false
  | .operate msg canEdit => operationRefusal t.session.doc.id canEdit true msg = none
  | _ => True

instance [DecidableEq σ] (t : Joining α σ) (cmd : DocCommand α σ) :
    Decidable (t.TakenInTime auth j cmd) :=
  inferInstanceAs (Decidable (_ ∧ if cmd.userId = (auth j).userId then _ ∧ _ else (_ → _ → _)))

instance [DecidableEq σ] (t : Joining α σ) : (e : Event α σ) → Decidable (t.Timely auth j e)
  | .process => inferInstanceAs (Decidable (∀ cmd ∈ t.session.commandQueue.head?, _ → _))
  | .respond => inferInstanceAs (Decidable (∀ r ∈ t.stage.readRevision, ∀ msg ∈ messagesTo t.pending j, _))
  | .deliver =>
      inferInstanceAs (Decidable
        (t.stage.sentRevision = none → ∀ r ∈ t.stage.readRevision, ∀ p ∈ t.pending.head?, _ → _))
  | .operate _ _ => inferInstanceAs (Decidable (_ = none))
  | .enqueue _ | .read | .submit | .push _ => isTrue trivial

end Properties

end Joining

end CollabEditor
