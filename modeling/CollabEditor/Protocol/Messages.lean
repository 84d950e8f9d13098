import CollabEditor.Core.Transform

/-!
# `Protocol.Messages` — what clients and server say to each other

The message records of `protocol.h` and the form an operation takes on the wire. A payload is modelled by
the message it decodes to; the JSON codec shows only in `OpEntry.throughJson`, because `to_json` writes and
`from_json` reads `text` for insertions and `len` for deletions alone.

## Contents
- **Entries.** `OpEntry`, `toEntry`, `fromEntry`, `toEntry_throughJson`.
- **Messages.** The records, and `ServerMsg`, their sum in the server-to-client direction.
- **Requests.** The records of the client-to-server direction besides `OperationMsg`.
-/

namespace CollabEditor

variable {α : Type}

/-- `server::OpEntry`. -/
structure OpEntry (α : Type) where
  op   : String
  pos  : UInt32
  text : List α := []
  len  : UInt32 := 0
  deriving DecidableEq, Repr

/-- `to_entry` of the client, which `DocumentSession::handle_operation` repeats inline. -/
def toEntry (op : Operation α) : OpEntry α :=
  match op.type with
  | .insert => { op := "insert", pos := op.position, text := op.text }
  | .delete => { op := "delete", pos := op.position, len := op.length }

/-- `from_entry` of the client, which `MessageHandler::handle_operation` repeats inline: any `op` other
    than `"insert"` is read as a deletion. -/
def fromEntry (entry : OpEntry α) (userId revision : UInt32) : Operation α :=
  if entry.op = "insert" then makeInsert entry.pos entry.text userId revision
  else makeDelete entry.pos entry.len [] userId revision

@[simp] theorem userId_fromEntry (entry : OpEntry α) (userId revision : UInt32) :
    (fromEntry entry userId revision).userId = userId := by
  unfold fromEntry
  split_ifs <;> rfl

@[simp] theorem revision_fromEntry (entry : OpEntry α) (userId revision : UInt32) :
    (fromEntry entry userId revision).revision = revision := by
  unfold fromEntry
  split_ifs <;> rfl

/-- What `from_json` reads from the output of `to_json`. -/
def OpEntry.throughJson (entry : OpEntry α) : OpEntry α :=
  if entry.op = "insert" then { op := entry.op, pos := entry.pos, text := entry.text }
  else if entry.op = "delete" then { op := entry.op, pos := entry.pos, len := entry.len }
  else { op := entry.op, pos := entry.pos }

/-- The codec loses nothing of an entry built from an operation. -/
@[simp] theorem toEntry_throughJson (op : Operation α) : (toEntry op).throughJson = toEntry op := by
  unfold OpEntry.throughJson toEntry
  cases op.type <;> rfl

/-! ## Messages -/

/-- `server::OperationMsg`. -/
structure OperationMsg (α : Type) where
  docId    : UInt32
  revision : UInt32
  ops      : List (OpEntry α)
  deriving DecidableEq, Repr

/-- `server::OperationAckMsg`. -/
structure OperationAckMsg where
  docId    : UInt32
  revision : UInt32
  deriving DecidableEq, Repr

/-- `server::OperationBroadcastMsg`. -/
structure OperationBroadcastMsg (α : Type) where
  docId    : UInt32
  userId   : UInt32
  username : String
  revision : UInt32
  ops      : List (OpEntry α)
  deriving DecidableEq, Repr

/-- `server::ErrorMsg`. -/
structure ErrorMsg where
  code    : String
  message : String
  deriving DecidableEq, Repr

/-- `server::UserInfo`. -/
structure UserInfo where
  userId   : UInt32
  username : String
  color    : String
  deriving DecidableEq, Repr

/-- `server::DocJoinResponseMsg`. -/
structure DocJoinResponseMsg (α : Type) where
  success  : Bool
  docId    : UInt32 := 0
  title    : String := ""
  content  : List α := []
  revision : UInt32 := 0
  role     : String := ""
  users    : List UserInfo := []
  error    : String := ""
  deriving DecidableEq, Repr

/-- `server::UserJoinedMsg`. -/
structure UserJoinedMsg where
  docId    : UInt32
  userId   : UInt32
  username : String
  color    : String
  deriving DecidableEq, Repr

/-- `server::UserLeftMsg`. -/
structure UserLeftMsg where
  docId    : UInt32
  userId   : UInt32
  username : String
  deriving DecidableEq, Repr

/-- `server::RoleChangedMsg`. -/
structure RoleChangedMsg where
  docId   : UInt32
  newRole : String
  deriving DecidableEq, Repr

/-- `server::AuthResponseMsg`. -/
structure AuthResponseMsg where
  success : Bool
  userId  : UInt32 := 0
  error   : String := ""
  deriving DecidableEq, Repr

/-- `server::DocListEntry`. -/
structure DocListEntry where
  docId       : UInt32
  title       : String
  role        : String
  onlineCount : Int32
  deriving DecidableEq, Repr

/-- `server::DocCreateResponseMsg`. -/
structure DocCreateResponseMsg where
  success : Bool
  docId   : UInt32 := 0
  deriving DecidableEq, Repr

/-- `server::CursorInfo`. -/
structure CursorInfo where
  userId         : UInt32
  username       : String
  color          : String
  position       : UInt32
  selectionStart : Option UInt32
  selectionEnd   : Option UInt32
  deriving DecidableEq, Repr

/-- `server::CursorBroadcastMsg`. -/
structure CursorBroadcastMsg where
  docId   : UInt32
  cursors : List CursorInfo
  deriving DecidableEq, Repr

/-- The messages a client receives. -/
inductive ServerMsg (α : Type) where
  | authResponse (msg : AuthResponseMsg)
  | docListResponse (documents : List DocListEntry)
  | docCreateResponse (msg : DocCreateResponseMsg)
  | operationAck (msg : OperationAckMsg)
  | operationBroadcast (msg : OperationBroadcastMsg α)
  | error (msg : ErrorMsg)
  | docJoinResponse (msg : DocJoinResponseMsg α)
  | docLeaveResponse (success : Bool)
  | docDeleteResponse (success : Bool)
  | docShareResponse (success : Bool)
  | cursorBroadcast (msg : CursorBroadcastMsg)
  | userJoined (msg : UserJoinedMsg)
  | userLeft (msg : UserLeftMsg)
  | roleChanged (msg : RoleChangedMsg)
  | docDeleted (docId : UInt32)
  deriving DecidableEq, Repr

/-! ## Requests -/

/-- `server::AuthRequestMsg`. -/
structure AuthRequestMsg where
  action   : String
  username : String
  password : String
  deriving DecidableEq, Repr

/-- `server::DocShareRequestMsg`. -/
structure DocShareRequestMsg where
  docId          : UInt32
  targetUsername : String
  role           : String
  deriving DecidableEq, Repr

/-- `server::CursorUpdateMsg`. -/
structure CursorUpdateMsg where
  docId          : UInt32
  position       : UInt32
  selectionStart : Option UInt32
  selectionEnd   : Option UInt32
  deriving DecidableEq, Repr

/-! ## The codec -/

/-- A client's operation message after the codec. -/
def OperationMsg.throughJson (msg : OperationMsg α) : OperationMsg α :=
  { msg with ops := msg.ops.map OpEntry.throughJson }

/-- A server message after the codec. -/
def ServerMsg.throughJson : ServerMsg α → ServerMsg α
  | .operationBroadcast msg => .operationBroadcast { msg with ops := msg.ops.map OpEntry.throughJson }
  | msg => msg

/-- Acknowledgements and broadcasts, the messages that tell of stored operations. -/
def ServerMsg.isNotice : ServerMsg α → Bool
  | .operationAck _       => true
  | .operationBroadcast _ => true
  | _                     => false

def ServerMsg.isAck : ServerMsg α → Bool
  | .operationAck _ => true
  | _               => false

theorem isNotice_throughJson (msg : ServerMsg α) : msg.throughJson.isNotice = msg.isNotice := by
  cases msg <;> rfl

end CollabEditor
