import CollabEditor.Lib.Utf8
import CollabEditor.Protocol.Messages
import Mathlib.Data.Int.Notation

/-!
# `Protocol.Json` — what the server reads from a request

The JSON values that `nlohmann::json::parse` returns, and the `from_json` functions of the requests. A
reader returns the exception that `at` or `get_to` throws; it stops at the first one. A number is modelled
by its integral part, which is what the conversion to `uint32_t` keeps, and a string by its characters,
because the parser accepts valid UTF-8 only.

## Contents
- **Values.** `Json`, `JsonException`, and the accessors.
- **Message types.** `MessageType`, `parseMessageType`.
- **Requests.** The `from_json` functions; the `to_json` functions of the clients, and that what they write
  is read back.
-/

namespace CollabEditor

/-- `nlohmann::json`. -/
inductive Json where
  | null
  | bool (b : Bool)
  | number (whole : ℤ)
  | string (s : String)
  | array (items : List Json)
  | object (members : List (String × Json))

/-- `nlohmann::json::exception`. -/
inductive JsonException where
  | notFound (key : String)
  | notObject (type : String)
  | badType (expected type : String)
  | invalidUtf8
  deriving DecidableEq, Repr

/-- `what`; the position of an invalid byte is left out. -/
def JsonException.what : JsonException → String
  | .notFound key          => "[json.exception.out_of_range.403] key '" ++ key ++ "' not found"
  | .notObject type        => "[json.exception.type_error.304] cannot use at() with " ++ type
  | .badType expected type =>
      "[json.exception.type_error.302] type must be " ++ expected ++ ", but is " ++ type
  | .invalidUtf8           => "[json.exception.type_error.316] invalid UTF-8 byte"

namespace Json

/-- `type_name`. -/
def typeName : Json → String
  | .null     => "null"
  | .bool _   => "boolean"
  | .number _ => "number"
  | .string _ => "string"
  | .array _  => "array"
  | .object _ => "object"

/-- The member of an object under a key. -/
def find? : Json → String → Option Json
  | .object members, key => members.lookup key
  | _, _                 => none

/-- `contains`. -/
def contains (j : Json) (key : String) : Bool := (j.find? key).isSome

/-- `at`. -/
def member (j : Json) (key : String) : Except JsonException Json :=
  match j with
  | .object members => match members.lookup key with
      | some value => .ok value
      | none       => .error (.notFound key)
  | _ => .error (.notObject j.typeName)

/-- `get_to` a `std::string`. -/
def getString : Json → Except JsonException String
  | .string s => .ok s
  | j         => .error (.badType "string" j.typeName)

/-- `get_to` a `uint32_t`: a number is cast, and so is a boolean. -/
def getUInt32 : Json → Except JsonException UInt32
  | .number n => .ok (UInt32.ofInt n)
  | .bool b   => .ok (if b then 1 else 0)
  | j         => .error (.badType "number" j.typeName)

/-- `get_to` a `std::vector`. -/
def getVector {β : Type} (read : Json → Except JsonException β) : Json → Except JsonException (List β)
  | .array items => items.mapM read
  | j            => .error (.badType "array" j.typeName)

/-- A member that may be missing or null. -/
def getOptional (j : Json) (key : String) : Except JsonException (Option UInt32) :=
  match j.find? key with
  | none | some .null => .ok none
  | some value        => value.getUInt32.map some

end Json

/-! ## Message types -/

/-- `server::MessageType`. -/
inductive MessageType where
  | authRequest | authResponse
  | docListRequest | docListResponse
  | docCreateRequest | docCreateResponse
  | docJoinRequest | docJoinResponse
  | docLeaveRequest | docLeaveResponse
  | docDeleteRequest | docDeleteResponse
  | docShareRequest | docShareResponse
  | operation | operationAck | operationBroadcast
  | cursorUpdate | cursorBroadcast
  | userJoined | userLeft
  | roleChanged | docDeleted | serverShutdown | error
  | undoRequest | redoRequest
  | snapshotListRequest | snapshotListResponse
  | snapshotViewRequest | snapshotViewResponse
  | snapshotRestoreRequest | snapshotRestoreResponse
  | rateLimit
  | unknown
  deriving DecidableEq, Repr

/-- `kStringToType`. -/
def stringToType : List (String × MessageType) :=
  [("auth_request", .authRequest), ("auth_response", .authResponse),
    ("doc_list_request", .docListRequest), ("doc_list_response", .docListResponse),
    ("doc_create_request", .docCreateRequest), ("doc_create_response", .docCreateResponse),
    ("doc_join_request", .docJoinRequest), ("doc_join_response", .docJoinResponse),
    ("doc_leave_request", .docLeaveRequest), ("doc_leave_response", .docLeaveResponse),
    ("doc_delete_request", .docDeleteRequest), ("doc_delete_response", .docDeleteResponse),
    ("doc_share_request", .docShareRequest), ("doc_share_response", .docShareResponse),
    ("operation", .operation), ("operation_ack", .operationAck),
    ("operation_broadcast", .operationBroadcast), ("cursor_update", .cursorUpdate),
    ("cursor_broadcast", .cursorBroadcast), ("user_joined", .userJoined), ("user_left", .userLeft),
    ("role_changed", .roleChanged), ("doc_deleted", .docDeleted), ("server_shutdown", .serverShutdown),
    ("error", .error), ("undo_request", .undoRequest), ("redo_request", .redoRequest),
    ("snapshot_list_request", .snapshotListRequest), ("snapshot_list_response", .snapshotListResponse),
    ("snapshot_view_request", .snapshotViewRequest), ("snapshot_view_response", .snapshotViewResponse),
    ("snapshot_restore_request", .snapshotRestoreRequest),
    ("snapshot_restore_response", .snapshotRestoreResponse), ("rate_limit", .rateLimit)]

/-- `parse_message_type`. -/
def parseMessageType (type : String) : MessageType := (stringToType.lookup type).getD .unknown

/-! ## Requests -/

section FromJson

variable (j : Json)

/-- `from_json(AuthRequestMsg)`. -/
def AuthRequestMsg.fromJson : Except JsonException AuthRequestMsg := do
  let action ← (← j.member "action").getString
  let username ← (← j.member "username").getString
  let password ← (← j.member "password").getString
  return { action := action, username := username, password := password }

/-- `from_json(DocCreateRequestMsg)`, the title. -/
def docCreateTitle : Except JsonException String := do (← j.member "title").getString

/-- `from_json` of the requests that hold a document id and nothing else. -/
def docIdOf : Except JsonException UInt32 := do (← j.member "docId").getUInt32

/-- `from_json(DocShareRequestMsg)`. -/
def DocShareRequestMsg.fromJson : Except JsonException DocShareRequestMsg := do
  let docId ← (← j.member "docId").getUInt32
  let targetUsername ← (← j.member "targetUsername").getString
  let role ← (← j.member "role").getString
  return { docId := docId, targetUsername := targetUsername, role := role }

/-- `from_json(OpEntry)`. -/
def OpEntry.fromJson : Except JsonException (OpEntry UInt8) := do
  let op ← (← j.member "op").getString
  let pos ← (← j.member "pos").getUInt32
  if op = "insert" then
    let text ← (← j.member "text").getString
    return { op := op, pos := pos, text := Utf8.encode text }
  else if op = "delete" then
    let len ← (← j.member "len").getUInt32
    return { op := op, pos := pos, len := len }
  else
    return { op := op, pos := pos }

/-- `from_json(OperationMsg)`. -/
def OperationMsg.fromJson : Except JsonException (OperationMsg UInt8) := do
  let docId ← (← j.member "docId").getUInt32
  let revision ← (← j.member "revision").getUInt32
  let ops ← (← j.member "ops").getVector OpEntry.fromJson
  return { docId := docId, revision := revision, ops := ops }

/-- `from_json(CursorUpdateMsg)`. -/
def CursorUpdateMsg.fromJson : Except JsonException CursorUpdateMsg := do
  let docId ← (← j.member "docId").getUInt32
  let position ← (← j.member "position").getUInt32
  let selectionStart ← j.getOptional "selectionStart"
  let selectionEnd ← j.getOptional "selectionEnd"
  return {
    docId := docId
    position := position
    selectionStart := selectionStart
    selectionEnd := selectionEnd }

end FromJson

section ToJson

/-- A number of the protocol. -/
def Json.ofUInt32 (n : UInt32) : Json := .number n.toNat

/-- `to_json(AuthRequestMsg)`. -/
def AuthRequestMsg.toJson (msg : AuthRequestMsg) : Json :=
  .object [("type", .string "auth_request"), ("action", .string msg.action),
    ("username", .string msg.username), ("password", .string msg.password)]

/-- `to_json(DocCreateRequestMsg)`. -/
def docCreateRequest (title : String) : Json :=
  .object [("type", .string "doc_create_request"), ("title", .string title)]

/-- `to_json` of the requests that hold a document id and nothing else. -/
def docIdRequest (type : String) (docId : UInt32) : Json :=
  .object [("type", .string type), ("docId", .ofUInt32 docId)]

/-- `to_json(DocShareRequestMsg)`. -/
def DocShareRequestMsg.toJson (msg : DocShareRequestMsg) : Json :=
  .object [("type", .string "doc_share_request"), ("docId", .ofUInt32 msg.docId),
    ("targetUsername", .string msg.targetUsername), ("role", .string msg.role)]

/-- `to_json(OpEntry)` of an insertion. -/
def insertEntry (pos : UInt32) (text : String) : Json :=
  .object [("op", .string "insert"), ("pos", .ofUInt32 pos), ("text", .string text)]

/-- `to_json(OpEntry)` of a deletion. -/
def deleteEntry (pos len : UInt32) : Json :=
  .object [("op", .string "delete"), ("pos", .ofUInt32 pos), ("len", .ofUInt32 len)]

/-- `to_json(OperationMsg)`. -/
def operationRequest (docId revision : UInt32) (ops : List Json) : Json :=
  .object [("type", .string "operation"), ("docId", .ofUInt32 docId), ("revision", .ofUInt32 revision),
    ("ops", .array ops)]

theorem Json.getUInt32_ofUInt32 (n : UInt32) : (Json.ofUInt32 n).getUInt32 = .ok n := by
  have hmod : ((n.toNat : ℤ) % 2 ^ 32).toNat = n.toNat := by
    have hn := n.toNat_lt
    omega
  change Except.ok (UInt32.ofNat ((n.toNat : ℤ) % 2 ^ 32).toNat) = _
  rw [hmod, UInt32.ofNat_toNat]

/-- **A request is read back as it was written.** -/
theorem AuthRequestMsg.fromJson_toJson (msg : AuthRequestMsg) :
    AuthRequestMsg.fromJson msg.toJson = .ok msg := rfl

theorem docCreateTitle_request (title : String) : docCreateTitle (docCreateRequest title) = .ok title := rfl

theorem docIdOf_request (type : String) (docId : UInt32) : docIdOf (docIdRequest type docId) = .ok docId :=
  Json.getUInt32_ofUInt32 docId

theorem DocShareRequestMsg.fromJson_toJson (msg : DocShareRequestMsg) :
    DocShareRequestMsg.fromJson msg.toJson = .ok msg := by
  change ((Json.ofUInt32 msg.docId).getUInt32 >>= fun docId => Except.ok
    ({ docId := docId, targetUsername := msg.targetUsername, role := msg.role } : DocShareRequestMsg)) = _
  rw [Json.getUInt32_ofUInt32]
  rfl

theorem OperationMsg.fromJson_request (docId revision : UInt32) {ops : List Json}
    {entries : List (OpEntry UInt8)} (h : ops.mapM OpEntry.fromJson = .ok entries) :
    OperationMsg.fromJson (operationRequest docId revision ops) =
      .ok { docId := docId, revision := revision, ops := entries } := by
  change ((Json.ofUInt32 docId).getUInt32 >>= fun docId => (Json.ofUInt32 revision).getUInt32 >>= fun revision =>
    ops.mapM OpEntry.fromJson >>= fun ops => Except.ok
      ({ docId := docId, revision := revision, ops := ops } : OperationMsg UInt8)) = _
  rw [Json.getUInt32_ofUInt32, Json.getUInt32_ofUInt32, h]
  rfl

end ToJson

/-! ## Responses -/

/-- `serialize` does not throw: the message's byte strings are valid UTF-8. Its other strings are. -/
def ServerMsg.Serializable : ServerMsg UInt8 → Prop
  | .docJoinResponse msg    => msg.success = true → Utf8.Valid msg.content
  | .operationBroadcast msg => ∀ entry ∈ msg.ops, entry.op = "insert" → Utf8.Valid entry.text
  | _                       => True

instance : (msg : ServerMsg UInt8) → Decidable msg.Serializable
  | .docJoinResponse _    => inferInstanceAs (Decidable (_ → _))
  | .operationBroadcast _ => inferInstanceAs (Decidable (∀ _ ∈ _, _ → _))
  | .authResponse _ | .docListResponse _ | .docCreateResponse _ | .operationAck _ | .error _
  | .docLeaveResponse _ | .docDeleteResponse _ | .docShareResponse _ | .cursorBroadcast _
  | .userJoined _ | .userLeft _ | .roleChanged _ | .docDeleted _ => isTrue trivial

end CollabEditor
