import CollabEditor.Protocol.Json
import Mathlib.Tactic.SplitIfs

/-!
# `Protocol.Codec` — every message, written and read

The `to_json` and `from_json` functions of the responses and broadcasts, and the whole protocol as one type:
`Message` has every message that has both. A writer fails where `dump` throws, on a byte string that is not
valid UTF-8.

## Contents
- **Values.** `Json.getBool`, `Json.getInt32`, `Json.ofBytes`, and how a member of a written object is found.
- **Entries.** `OpEntry`, `DocListEntry`, `UserInfo`, `CursorInfo`, and lists of them.
- **Messages.** One pair of functions a message.
- **The protocol.** `Message`, `Message.Carried`, `codec_roundtrip`; `toJson_ok_iff`, where the writer throws.
-/

namespace CollabEditor

/-! ## Values -/

section Except

variable {ε β γ : Type}

@[simp] theorem ok_bind (x : β) (f : β → Except ε γ) : (Except.ok x >>= f) = f x := rfl

@[simp] theorem map_ok (f : β → γ) (x : β) : f <$> (Except.ok x : Except ε β) = .ok (f x) := rfl

@[simp] theorem pure_eq_ok (x : β) : (pure x : Except ε β) = .ok x := rfl

end Except

namespace Json

/-- `get_to` a `bool`. -/
def getBool : Json → Except JsonException Bool
  | .bool b => .ok b
  | j       => .error (.badType "boolean" j.typeName)

/-- `get_to` an `int`: a number is cast, and so is a boolean. -/
def getInt32 : Json → Except JsonException Int32
  | .number n => .ok (Int32.ofInt n)
  | .bool b   => .ok (if b then 1 else 0)
  | j         => .error (.badType "number" j.typeName)

/-- An `int` of the protocol. -/
def ofInt32 (n : Int32) : Json := .number n.toInt

/-- A `std::string` of document text, which need not be valid UTF-8. -/
def ofBytes (bytes : List UInt8) : Except JsonException Json :=
  match Utf8.decode bytes with
  | some s => .ok (.string s)
  | none   => .error .invalidUtf8

/-- A number that may be missing. -/
def ofOptional : Option UInt32 → Json
  | some n => .ofUInt32 n
  | none   => .null

section Members

variable (key : String) (value : Json) (members : List (String × Json))

@[simp] theorem member_cons_self : (object ((key, value) :: members)).member key = .ok value := by
  simp [member]

@[simp] theorem find?_cons_self : (object ((key, value) :: members)).find? key = some value := by
  simp [find?]

variable {key}

theorem member_cons_of_ne {key' : String} (h : key ≠ key') :
    (object ((key', value) :: members)).member key = (object members).member key := by
  have hk : (key == key') = false := beq_eq_false_iff_ne.mpr h
  simp only [member, List.lookup_cons, hk]

theorem find?_cons_of_ne {key' : String} (h : key ≠ key') :
    (object ((key', value) :: members)).find? key = (object members).find? key := by
  have hk : (key == key') = false := beq_eq_false_iff_ne.mpr h
  simp only [find?, List.lookup_cons, hk]

end Members

attribute [simp] member_cons_of_ne find?_cons_of_ne

attribute [simp] getUInt32_ofUInt32

@[simp] theorem getString_string (s : String) : (string s).getString = .ok s := rfl

@[simp] theorem getBool_bool (b : Bool) : (bool b).getBool = .ok b := rfl

@[simp] theorem getInt32_ofInt32 (n : Int32) : (ofInt32 n).getInt32 = .ok n :=
  congrArg Except.ok (Int32.ofInt_toInt n)

theorem getOptional_of_find? {j : Json} {key : String} {n : Option UInt32}
    (h : j.find? key = some (ofOptional n)) : j.getOptional key = .ok n := by
  unfold getOptional
  rw [h]
  cases n with
  | none => rfl
  | some n =>
      show (ofUInt32 n).getUInt32.map some = .ok (some n)
      rw [getUInt32_ofUInt32]
      rfl

/-- Valid text is written, and read back as it was. -/
theorem ofBytes_of_valid {bytes : List UInt8} (h : Utf8.Valid bytes) :
    ∃ s, ofBytes bytes = .ok (.string s) ∧ Utf8.encode s = bytes := by
  obtain ⟨s, hs, henc⟩ := Utf8.decode_of_valid h
  exact ⟨s, by rw [ofBytes, hs], henc⟩

/-- **A list is read back** if each of its items is. -/
theorem getVector_map {β : Type} {write : β → Json} {read : Json → Except JsonException β}
    (h : ∀ x, read (write x) = .ok x) (xs : List β) : (array (xs.map write)).getVector read = .ok xs := by
  show (xs.map write).mapM read = .ok xs
  induction xs with
  | nil => rfl
  | cons x xs ih => rw [List.map_cons, List.mapM_cons, h, ih]; rfl

end Json

/-! ## Entries -/

/-- `to_json(OpEntry)`. -/
def OpEntry.toJson (entry : OpEntry UInt8) : Except JsonException Json :=
  if entry.op = "insert" then do
    let text ← Json.ofBytes entry.text
    return .object [("op", .string entry.op), ("pos", .ofUInt32 entry.pos), ("text", text)]
  else if entry.op = "delete" then
    return .object [("op", .string entry.op), ("pos", .ofUInt32 entry.pos), ("len", .ofUInt32 entry.len)]
  else return .object [("op", .string entry.op), ("pos", .ofUInt32 entry.pos)]

/-- `from_json(DocListEntry)`. -/
def DocListEntry.fromJson (j : Json) : Except JsonException DocListEntry := do
  let docId ← (← j.member "docId").getUInt32
  let title ← (← j.member "title").getString
  let role ← (← j.member "role").getString
  let onlineCount ← (← j.member "onlineCount").getInt32
  return { docId := docId, title := title, role := role, onlineCount := onlineCount }

/-- `to_json(DocListEntry)`. -/
def DocListEntry.toJson (entry : DocListEntry) : Json :=
  .object [("docId", .ofUInt32 entry.docId), ("title", .string entry.title), ("role", .string entry.role),
    ("onlineCount", .ofInt32 entry.onlineCount)]

/-- `from_json(UserInfo)`. -/
def UserInfo.fromJson (j : Json) : Except JsonException UserInfo := do
  let userId ← (← j.member "userId").getUInt32
  let username ← (← j.member "username").getString
  let color ← (← j.member "color").getString
  return { userId := userId, username := username, color := color }

/-- `to_json(UserInfo)`. -/
def UserInfo.toJson (info : UserInfo) : Json :=
  .object [("userId", .ofUInt32 info.userId), ("username", .string info.username), ("color", .string info.color)]

/-- `from_json(CursorInfo)`. -/
def CursorInfo.fromJson (j : Json) : Except JsonException CursorInfo := do
  let userId ← (← j.member "userId").getUInt32
  let username ← (← j.member "username").getString
  let color ← (← j.member "color").getString
  let position ← (← j.member "position").getUInt32
  let selectionStart ← j.getOptional "selectionStart"
  let selectionEnd ← j.getOptional "selectionEnd"
  return {
    userId := userId
    username := username
    color := color
    position := position
    selectionStart := selectionStart
    selectionEnd := selectionEnd }

/-- `to_json(CursorInfo)`. -/
def CursorInfo.toJson (info : CursorInfo) : Json :=
  .object [("userId", .ofUInt32 info.userId), ("username", .string info.username), ("color", .string info.color),
    ("position", .ofUInt32 info.position), ("selectionStart", .ofOptional info.selectionStart),
    ("selectionEnd", .ofOptional info.selectionEnd)]

/-- An entry with the text of an insertion and the length of a deletion, and nothing else. -/
def OpEntry.Carried (entry : OpEntry UInt8) : Prop :=
  (entry.op ≠ "insert" → entry.text = []) ∧ (entry.op ≠ "delete" → entry.len = 0) ∧ Utf8.Valid entry.text

theorem DocListEntry.fromJson_toJson (entry : DocListEntry) :
    DocListEntry.fromJson entry.toJson = .ok entry := by
  simp [DocListEntry.fromJson, DocListEntry.toJson]

theorem UserInfo.fromJson_toJson (info : UserInfo) : UserInfo.fromJson info.toJson = .ok info := by
  simp [UserInfo.fromJson, UserInfo.toJson]

theorem CursorInfo.fromJson_toJson (info : CursorInfo) : CursorInfo.fromJson info.toJson = .ok info := by
  have hstart : info.toJson.getOptional "selectionStart" = .ok info.selectionStart :=
    Json.getOptional_of_find? (by simp [CursorInfo.toJson])
  have hend : info.toJson.getOptional "selectionEnd" = .ok info.selectionEnd :=
    Json.getOptional_of_find? (by simp [CursorInfo.toJson])
  rw [CursorInfo.fromJson, hstart, hend]
  simp [CursorInfo.toJson]

theorem OpEntry.fromJson_toJson {entry : OpEntry UInt8} (h : entry.Carried) :
    ∃ j, entry.toJson = .ok j ∧ OpEntry.fromJson j = .ok entry := by
  obtain ⟨htext, hlen, hvalid⟩ := h
  obtain ⟨op, pos, text, len⟩ := entry
  by_cases hi : op = "insert"
  · obtain ⟨s, hs, henc⟩ := Json.ofBytes_of_valid hvalid
    subst hi
    have hop : "insert" ≠ "delete" := by decide
    obtain rfl : len = 0 := hlen hop
    refine ⟨_, by rw [OpEntry.toJson, if_pos rfl, hs]; rfl, ?_⟩
    simp [OpEntry.fromJson, henc]
  · obtain rfl : text = [] := htext hi
    by_cases hd : op = "delete"
    · subst hd
      exact ⟨_, by rw [OpEntry.toJson, if_neg hi, if_pos rfl]; rfl, by simp [OpEntry.fromJson]⟩
    · obtain rfl : len = 0 := hlen hd
      exact ⟨_, by rw [OpEntry.toJson, if_neg hi, if_neg hd]; rfl, by simp [OpEntry.fromJson, hi, hd]⟩

/-- A list of entries is written if they all are, and read back. -/
theorem OpEntry.mapM_fromJson {entries : List (OpEntry UInt8)} (h : ∀ entry ∈ entries, entry.Carried) :
    ∃ js, entries.mapM OpEntry.toJson = .ok js ∧ (Json.array js).getVector OpEntry.fromJson = .ok entries := by
  induction entries with
  | nil => exact ⟨[], rfl, rfl⟩
  | cons entry entries ih =>
      obtain ⟨j, hj, hread⟩ := OpEntry.fromJson_toJson (h entry List.mem_cons_self)
      obtain ⟨js, hjs, hreads⟩ := ih fun e he => h e (List.mem_cons_of_mem entry he)
      refine ⟨j :: js, by rw [List.mapM_cons, hj, hjs]; rfl, ?_⟩
      change js.mapM OpEntry.fromJson = .ok entries at hreads
      show (j :: js).mapM OpEntry.fromJson = .ok (entry :: entries)
      rw [List.mapM_cons, hread, hreads]
      rfl

/-! ## Messages -/

/-- `to_json(OperationMsg)`. -/
def OperationMsg.toJson (msg : OperationMsg UInt8) : Except JsonException Json := do
  return operationRequest msg.docId msg.revision (← msg.ops.mapM OpEntry.toJson)

/-- `to_json(CursorUpdateMsg)`. -/
def CursorUpdateMsg.toJson (msg : CursorUpdateMsg) : Json :=
  .object [("type", .string "cursor_update"), ("docId", .ofUInt32 msg.docId), ("position", .ofUInt32 msg.position),
    ("selectionStart", .ofOptional msg.selectionStart), ("selectionEnd", .ofOptional msg.selectionEnd)]

/-- `from_json(AuthResponseMsg)`. -/
def AuthResponseMsg.fromJson (j : Json) : Except JsonException AuthResponseMsg := do
  let success ← (← j.member "success").getBool
  if success then
    let userId ← (← j.member "userId").getUInt32
    return { success := success, userId := userId }
  else if j.contains "error" then
    let error ← (← j.member "error").getString
    return { success := success, error := error }
  else return { success := success }

/-- `to_json(AuthResponseMsg)`. -/
def AuthResponseMsg.toJson (msg : AuthResponseMsg) : Json :=
  .object ([("type", .string "auth_response"), ("success", .bool msg.success)] ++
    if msg.success then [("userId", .ofUInt32 msg.userId)] else [("error", .string msg.error)])

/-- `from_json(DocListResponseMsg)`, the documents. -/
def docListDocuments (j : Json) : Except JsonException (List DocListEntry) := do
  (← j.member "documents").getVector DocListEntry.fromJson

/-- `to_json(DocListResponseMsg)`. -/
def docListResponse (documents : List DocListEntry) : Json :=
  .object [("type", .string "doc_list_response"), ("documents", .array (documents.map DocListEntry.toJson))]

/-- `from_json(DocCreateResponseMsg)`. -/
def DocCreateResponseMsg.fromJson (j : Json) : Except JsonException DocCreateResponseMsg := do
  let success ← (← j.member "success").getBool
  if success then
    let docId ← (← j.member "docId").getUInt32
    return { success := success, docId := docId }
  else return { success := success }

/-- `to_json(DocCreateResponseMsg)`. -/
def DocCreateResponseMsg.toJson (msg : DocCreateResponseMsg) : Json :=
  .object ([("type", .string "doc_create_response"), ("success", .bool msg.success)] ++
    if msg.success then [("docId", .ofUInt32 msg.docId)] else [])

/-- `from_json(DocJoinResponseMsg)`. -/
def DocJoinResponseMsg.fromJson (j : Json) : Except JsonException (DocJoinResponseMsg UInt8) := do
  let success ← (← j.member "success").getBool
  if success then
    let docId ← (← j.member "docId").getUInt32
    let title ← (← j.member "title").getString
    let content ← (← j.member "content").getString
    let revision ← (← j.member "revision").getUInt32
    let role ← (← j.member "role").getString
    let users ← (← j.member "users").getVector UserInfo.fromJson
    return {
      success := success
      docId := docId
      title := title
      content := Utf8.encode content
      revision := revision
      role := role
      users := users }
  else if j.contains "error" then
    let error ← (← j.member "error").getString
    return { success := success, error := error }
  else return { success := success }

/-- `to_json(DocJoinResponseMsg)`. -/
def DocJoinResponseMsg.toJson (msg : DocJoinResponseMsg UInt8) : Except JsonException Json :=
  if msg.success then do
    let content ← Json.ofBytes msg.content
    return .object [("type", .string "doc_join_response"), ("success", .bool msg.success),
      ("docId", .ofUInt32 msg.docId), ("title", .string msg.title), ("content", content),
      ("revision", .ofUInt32 msg.revision), ("role", .string msg.role), ("users", .array (msg.users.map UserInfo.toJson))]
  else return .object [("type", .string "doc_join_response"), ("success", .bool msg.success),
    ("error", .string msg.error)]

/-- `from_json` of the responses that say whether the request succeeded and nothing else. -/
def successOf (j : Json) : Except JsonException Bool := do (← j.member "success").getBool

/-- `to_json` of these responses. -/
def successResponse (type : String) (success : Bool) : Json :=
  .object [("type", .string type), ("success", .bool success)]

/-- `from_json(OperationAckMsg)`. -/
def OperationAckMsg.fromJson (j : Json) : Except JsonException OperationAckMsg := do
  let docId ← (← j.member "docId").getUInt32
  let revision ← (← j.member "revision").getUInt32
  return { docId := docId, revision := revision }

/-- `to_json(OperationAckMsg)`. -/
def OperationAckMsg.toJson (msg : OperationAckMsg) : Json :=
  .object [("type", .string "operation_ack"), ("docId", .ofUInt32 msg.docId), ("revision", .ofUInt32 msg.revision)]

/-- `from_json(OperationBroadcastMsg)`. -/
def OperationBroadcastMsg.fromJson (j : Json) : Except JsonException (OperationBroadcastMsg UInt8) := do
  let docId ← (← j.member "docId").getUInt32
  let userId ← (← j.member "userId").getUInt32
  let username ← (← j.member "username").getString
  let revision ← (← j.member "revision").getUInt32
  let ops ← (← j.member "ops").getVector OpEntry.fromJson
  return { docId := docId, userId := userId, username := username, revision := revision, ops := ops }

/-- `to_json(OperationBroadcastMsg)`. -/
def OperationBroadcastMsg.toJson (msg : OperationBroadcastMsg UInt8) : Except JsonException Json := do
  let ops ← msg.ops.mapM OpEntry.toJson
  return .object [("type", .string "operation_broadcast"), ("docId", .ofUInt32 msg.docId),
    ("userId", .ofUInt32 msg.userId), ("username", .string msg.username), ("revision", .ofUInt32 msg.revision),
    ("ops", .array ops)]

/-- `from_json(CursorBroadcastMsg)`. -/
def CursorBroadcastMsg.fromJson (j : Json) : Except JsonException CursorBroadcastMsg := do
  let docId ← (← j.member "docId").getUInt32
  let cursors ← (← j.member "cursors").getVector CursorInfo.fromJson
  return { docId := docId, cursors := cursors }

/-- `to_json(CursorBroadcastMsg)`. -/
def CursorBroadcastMsg.toJson (msg : CursorBroadcastMsg) : Json :=
  .object [("type", .string "cursor_broadcast"), ("docId", .ofUInt32 msg.docId),
    ("cursors", .array (msg.cursors.map CursorInfo.toJson))]

/-- `from_json(UserJoinedMsg)`. -/
def UserJoinedMsg.fromJson (j : Json) : Except JsonException UserJoinedMsg := do
  let docId ← (← j.member "docId").getUInt32
  let userId ← (← j.member "userId").getUInt32
  let username ← (← j.member "username").getString
  let color ← (← j.member "color").getString
  return { docId := docId, userId := userId, username := username, color := color }

/-- `to_json(UserJoinedMsg)`. -/
def UserJoinedMsg.toJson (msg : UserJoinedMsg) : Json :=
  .object [("type", .string "user_joined"), ("docId", .ofUInt32 msg.docId), ("userId", .ofUInt32 msg.userId),
    ("username", .string msg.username), ("color", .string msg.color)]

/-- `from_json(UserLeftMsg)`. -/
def UserLeftMsg.fromJson (j : Json) : Except JsonException UserLeftMsg := do
  let docId ← (← j.member "docId").getUInt32
  let userId ← (← j.member "userId").getUInt32
  let username ← (← j.member "username").getString
  return { docId := docId, userId := userId, username := username }

/-- `to_json(UserLeftMsg)`. -/
def UserLeftMsg.toJson (msg : UserLeftMsg) : Json :=
  .object [("type", .string "user_left"), ("docId", .ofUInt32 msg.docId), ("userId", .ofUInt32 msg.userId),
    ("username", .string msg.username)]

/-- `from_json(RoleChangedMsg)`. -/
def RoleChangedMsg.fromJson (j : Json) : Except JsonException RoleChangedMsg := do
  let docId ← (← j.member "docId").getUInt32
  let newRole ← (← j.member "newRole").getString
  return { docId := docId, newRole := newRole }

/-- `to_json(RoleChangedMsg)`. -/
def RoleChangedMsg.toJson (msg : RoleChangedMsg) : Json :=
  .object [("type", .string "role_changed"), ("docId", .ofUInt32 msg.docId), ("newRole", .string msg.newRole)]

/-- `to_json(DocDeletedMsg)`; it is read by `docIdOf`. -/
def docDeletedJson (docId : UInt32) : Json :=
  .object [("type", .string "doc_deleted"), ("docId", .ofUInt32 docId)]

/-- `from_json(ServerShutdownMsg)`, the text. -/
def shutdownMessage (j : Json) : Except JsonException String := do (← j.member "message").getString

/-- `to_json(ServerShutdownMsg)`. -/
def serverShutdownJson (message : String) : Json :=
  .object [("type", .string "server_shutdown"), ("message", .string message)]

/-- `from_json(ErrorMsg)`. -/
def ErrorMsg.fromJson (j : Json) : Except JsonException ErrorMsg := do
  let code ← (← j.member "code").getString
  let message ← (← j.member "message").getString
  return { code := code, message := message }

/-- `to_json(ErrorMsg)`. -/
def ErrorMsg.toJson (msg : ErrorMsg) : Json :=
  .object [("type", .string "error"), ("code", .string msg.code), ("message", .string msg.message)]

/-! ## The protocol -/

/-- `to_json` of a server message. -/
def ServerMsg.toJson : ServerMsg UInt8 → Except JsonException Json
  | .authResponse msg          => .ok msg.toJson
  | .docListResponse documents => .ok (CollabEditor.docListResponse documents)
  | .docCreateResponse msg     => .ok msg.toJson
  | .operationAck msg          => .ok msg.toJson
  | .operationBroadcast msg    => msg.toJson
  | .error msg                 => .ok msg.toJson
  | .docJoinResponse msg       => msg.toJson
  | .docLeaveResponse success  => .ok (successResponse "doc_leave_response" success)
  | .docDeleteResponse success => .ok (successResponse "doc_delete_response" success)
  | .docShareResponse success  => .ok (successResponse "doc_share_response" success)
  | .cursorBroadcast msg       => .ok msg.toJson
  | .userJoined msg            => .ok msg.toJson
  | .userLeft msg              => .ok msg.toJson
  | .roleChanged msg           => .ok msg.toJson
  | .docDeleted docId          => .ok (docDeletedJson docId)

/-- The messages that have both a `to_json` and a `from_json`. -/
inductive Message where
  | authRequest (msg : AuthRequestMsg)
  | docCreateRequest (title : String)
  | docJoinRequest (docId : UInt32)
  | docLeaveRequest (docId : UInt32)
  | docDeleteRequest (docId : UInt32)
  | docShareRequest (msg : DocShareRequestMsg)
  | operation (msg : OperationMsg UInt8)
  | cursorUpdate (msg : CursorUpdateMsg)
  | server (msg : ServerMsg UInt8)
  | serverShutdown (message : String)

/-- The type of a server message. -/
def ServerMsg.type : ServerMsg UInt8 → MessageType
  | .authResponse _       => .authResponse
  | .docListResponse _    => .docListResponse
  | .docCreateResponse _  => .docCreateResponse
  | .operationAck _       => .operationAck
  | .operationBroadcast _ => .operationBroadcast
  | .error _              => .error
  | .docJoinResponse _    => .docJoinResponse
  | .docLeaveResponse _   => .docLeaveResponse
  | .docDeleteResponse _  => .docDeleteResponse
  | .docShareResponse _   => .docShareResponse
  | .cursorBroadcast _    => .cursorBroadcast
  | .userJoined _         => .userJoined
  | .userLeft _           => .userLeft
  | .roleChanged _        => .roleChanged
  | .docDeleted _         => .docDeleted

namespace Message

/-- The type of a message. -/
def type : Message → MessageType
  | .authRequest _      => .authRequest
  | .docCreateRequest _ => .docCreateRequest
  | .docJoinRequest _   => .docJoinRequest
  | .docLeaveRequest _  => .docLeaveRequest
  | .docDeleteRequest _ => .docDeleteRequest
  | .docShareRequest _  => .docShareRequest
  | .operation _        => .operation
  | .cursorUpdate _     => .cursorUpdate
  | .server msg         => msg.type
  | .serverShutdown _   => .serverShutdown

/-- `to_json`. -/
def toJson : Message → Except JsonException Json
  | .authRequest msg        => .ok msg.toJson
  | .docCreateRequest title => .ok (CollabEditor.docCreateRequest title)
  | .docJoinRequest docId   => .ok (docIdRequest "doc_join_request" docId)
  | .docLeaveRequest docId  => .ok (docIdRequest "doc_leave_request" docId)
  | .docDeleteRequest docId => .ok (docIdRequest "doc_delete_request" docId)
  | .docShareRequest msg    => .ok msg.toJson
  | .operation msg          => msg.toJson
  | .cursorUpdate msg       => .ok msg.toJson
  | .server msg             => msg.toJson
  | .serverShutdown message => .ok (serverShutdownJson message)

/-- The `from_json` of a message type; the other types have none. -/
def fromJson (type : MessageType) (j : Json) : Option (Except JsonException Message) :=
  match type with
  | .authRequest        => some (.authRequest <$> AuthRequestMsg.fromJson j)
  | .docCreateRequest   => some (.docCreateRequest <$> docCreateTitle j)
  | .docJoinRequest     => some (.docJoinRequest <$> docIdOf j)
  | .docLeaveRequest    => some (.docLeaveRequest <$> docIdOf j)
  | .docDeleteRequest   => some (.docDeleteRequest <$> docIdOf j)
  | .docShareRequest    => some (.docShareRequest <$> DocShareRequestMsg.fromJson j)
  | .operation          => some (.operation <$> OperationMsg.fromJson j)
  | .cursorUpdate       => some (.cursorUpdate <$> CursorUpdateMsg.fromJson j)
  | .authResponse       => some (.server <$> .authResponse <$> AuthResponseMsg.fromJson j)
  | .docListResponse    => some (.server <$> .docListResponse <$> docListDocuments j)
  | .docCreateResponse  => some (.server <$> .docCreateResponse <$> DocCreateResponseMsg.fromJson j)
  | .docJoinResponse    => some (.server <$> .docJoinResponse <$> DocJoinResponseMsg.fromJson j)
  | .docLeaveResponse   => some (.server <$> .docLeaveResponse <$> successOf j)
  | .docDeleteResponse  => some (.server <$> .docDeleteResponse <$> successOf j)
  | .docShareResponse   => some (.server <$> .docShareResponse <$> successOf j)
  | .operationAck       => some (.server <$> .operationAck <$> OperationAckMsg.fromJson j)
  | .operationBroadcast => some (.server <$> .operationBroadcast <$> OperationBroadcastMsg.fromJson j)
  | .cursorBroadcast    => some (.server <$> .cursorBroadcast <$> CursorBroadcastMsg.fromJson j)
  | .userJoined         => some (.server <$> .userJoined <$> UserJoinedMsg.fromJson j)
  | .userLeft           => some (.server <$> .userLeft <$> UserLeftMsg.fromJson j)
  | .roleChanged        => some (.server <$> .roleChanged <$> RoleChangedMsg.fromJson j)
  | .docDeleted         => some (.server <$> .docDeleted <$> docIdOf j)
  | .serverShutdown     => some (.serverShutdown <$> shutdownMessage j)
  | .error              => some (.server <$> .error <$> ErrorMsg.fromJson j)
  | .docListRequest | .undoRequest | .redoRequest | .snapshotListRequest | .snapshotListResponse
  | .snapshotViewRequest | .snapshotViewResponse | .snapshotRestoreRequest | .snapshotRestoreResponse
  | .rateLimit | .unknown => none

/-- What the wire does not carry for a variant of a message has its default, and text is valid UTF-8. -/
def Carried : Message → Prop
  | .operation msg                   => ∀ entry ∈ msg.ops, entry.Carried
  | .server (.operationBroadcast msg) => ∀ entry ∈ msg.ops, entry.Carried
  | .server (.authResponse msg)      => if msg.success then msg.error = "" else msg.userId = 0
  | .server (.docCreateResponse msg) => msg.success = false → msg.docId = 0
  | .server (.docJoinResponse msg)   =>
      if msg.success then msg.error = "" ∧ Utf8.Valid msg.content
      else msg = { success := false, error := msg.error }
  | _ => True

end Message

/-- The type that `parse_message_type` finds in an envelope. -/
def envelopeType (j : Json) : Except JsonException MessageType := do
  return parseMessageType (← (← j.member "type").getString)

/-! ## Round trips -/

section RoundTrips

theorem OperationMsg.fromJson_toJson {msg : OperationMsg UInt8} (h : ∀ entry ∈ msg.ops, entry.Carried) :
    ∃ j, msg.toJson = .ok j ∧ OperationMsg.fromJson j = .ok msg ∧ envelopeType j = .ok .operation := by
  obtain ⟨js, hjs, hread⟩ := OpEntry.mapM_fromJson h
  exact ⟨_, by rw [OperationMsg.toJson, hjs]; rfl, OperationMsg.fromJson_request _ _ hread, rfl⟩

theorem CursorUpdateMsg.fromJson_toJson (msg : CursorUpdateMsg) :
    CursorUpdateMsg.fromJson msg.toJson = .ok msg := by
  have hstart : msg.toJson.getOptional "selectionStart" = .ok msg.selectionStart :=
    Json.getOptional_of_find? (by simp [CursorUpdateMsg.toJson])
  have hend : msg.toJson.getOptional "selectionEnd" = .ok msg.selectionEnd :=
    Json.getOptional_of_find? (by simp [CursorUpdateMsg.toJson])
  rw [CursorUpdateMsg.fromJson, hstart, hend]
  simp [CursorUpdateMsg.toJson]

theorem AuthResponseMsg.fromJson_toJson {msg : AuthResponseMsg}
    (h : if msg.success then msg.error = "" else msg.userId = 0) :
    AuthResponseMsg.fromJson msg.toJson = .ok msg := by
  obtain ⟨success, userId, error⟩ := msg
  cases success with
  | true =>
      obtain rfl : error = "" := h
      simp [AuthResponseMsg.fromJson, AuthResponseMsg.toJson]
  | false =>
      obtain rfl : userId = 0 := h
      simp [AuthResponseMsg.fromJson, AuthResponseMsg.toJson, Json.contains]

theorem docListDocuments_response (documents : List DocListEntry) :
    docListDocuments (docListResponse documents) = .ok documents := by
  simp [docListDocuments, docListResponse, Json.getVector_map DocListEntry.fromJson_toJson]

theorem DocCreateResponseMsg.fromJson_toJson {msg : DocCreateResponseMsg}
    (h : msg.success = false → msg.docId = 0) : DocCreateResponseMsg.fromJson msg.toJson = .ok msg := by
  obtain ⟨success, docId⟩ := msg
  cases success with
  | true => simp [DocCreateResponseMsg.fromJson, DocCreateResponseMsg.toJson]
  | false =>
      obtain rfl : docId = 0 := h rfl
      simp [DocCreateResponseMsg.fromJson, DocCreateResponseMsg.toJson]

theorem DocJoinResponseMsg.fromJson_toJson {msg : DocJoinResponseMsg UInt8}
    (h : if msg.success then msg.error = "" ∧ Utf8.Valid msg.content
      else msg = { success := false, error := msg.error }) :
    ∃ j, msg.toJson = .ok j ∧ DocJoinResponseMsg.fromJson j = .ok msg ∧ envelopeType j = .ok .docJoinResponse := by
  obtain ⟨success, docId, title, content, revision, role, users, error⟩ := msg
  cases success with
  | true =>
      obtain ⟨rfl, hvalid⟩ : error = "" ∧ Utf8.Valid content := h
      obtain ⟨s, hs, henc⟩ := Json.ofBytes_of_valid hvalid
      refine ⟨_, by rw [DocJoinResponseMsg.toJson, if_pos rfl, hs]; rfl, ?_, rfl⟩
      simp [DocJoinResponseMsg.fromJson, Json.getVector_map UserInfo.fromJson_toJson, henc]
  | false =>
      rw [if_neg Bool.false_ne_true] at h
      cases h
      refine ⟨_, by rw [DocJoinResponseMsg.toJson, if_neg Bool.false_ne_true]; rfl, ?_, rfl⟩
      simp [DocJoinResponseMsg.fromJson, Json.contains]

theorem successOf_response (type : String) (success : Bool) :
    successOf (successResponse type success) = .ok success := by
  simp [successOf, successResponse]

theorem OperationAckMsg.fromJson_toJson (msg : OperationAckMsg) :
    OperationAckMsg.fromJson msg.toJson = .ok msg := by
  simp [OperationAckMsg.fromJson, OperationAckMsg.toJson]

theorem OperationBroadcastMsg.fromJson_toJson {msg : OperationBroadcastMsg UInt8}
    (h : ∀ entry ∈ msg.ops, entry.Carried) :
    ∃ j, msg.toJson = .ok j ∧ OperationBroadcastMsg.fromJson j = .ok msg ∧
      envelopeType j = .ok .operationBroadcast := by
  obtain ⟨js, hjs, hread⟩ := OpEntry.mapM_fromJson h
  refine ⟨_, by rw [OperationBroadcastMsg.toJson, hjs]; rfl, ?_, rfl⟩
  simp [OperationBroadcastMsg.fromJson, hread]

theorem CursorBroadcastMsg.fromJson_toJson (msg : CursorBroadcastMsg) :
    CursorBroadcastMsg.fromJson msg.toJson = .ok msg := by
  simp [CursorBroadcastMsg.fromJson, CursorBroadcastMsg.toJson, Json.getVector_map CursorInfo.fromJson_toJson]

theorem UserJoinedMsg.fromJson_toJson (msg : UserJoinedMsg) : UserJoinedMsg.fromJson msg.toJson = .ok msg := by
  simp [UserJoinedMsg.fromJson, UserJoinedMsg.toJson]

theorem UserLeftMsg.fromJson_toJson (msg : UserLeftMsg) : UserLeftMsg.fromJson msg.toJson = .ok msg := by
  simp [UserLeftMsg.fromJson, UserLeftMsg.toJson]

theorem RoleChangedMsg.fromJson_toJson (msg : RoleChangedMsg) :
    RoleChangedMsg.fromJson msg.toJson = .ok msg := by
  simp [RoleChangedMsg.fromJson, RoleChangedMsg.toJson]

theorem ErrorMsg.fromJson_toJson (msg : ErrorMsg) : ErrorMsg.fromJson msg.toJson = .ok msg := by
  simp [ErrorMsg.fromJson, ErrorMsg.toJson]

/-- A record that is read back is the message it stands for. -/
theorem read_message {β : Type} {read : Except JsonException β} {x : β} (f : β → Message) (h : read = .ok x) :
    some (f <$> read) = some (.ok (f x)) := by
  rw [h]
  rfl

theorem read_server {β : Type} {read : Except JsonException β} {x : β} (f : β → ServerMsg UInt8)
    (h : read = .ok x) : some (Message.server <$> f <$> read) = some (.ok (Message.server (f x))) := by
  rw [h]
  rfl

/-- A server message is read back. -/
theorem server_roundtrip (msg : ServerMsg UInt8) (h : (Message.server msg).Carried) :
    ∃ j, msg.toJson = .ok j ∧ Message.fromJson msg.type j = some (.ok (.server msg)) ∧
      envelopeType j = .ok msg.type := by
  cases msg with
  | authResponse msg => exact ⟨_, rfl, read_server _ (AuthResponseMsg.fromJson_toJson h), rfl⟩
  | docListResponse documents => exact ⟨_, rfl, read_server _ (docListDocuments_response documents), rfl⟩
  | docCreateResponse msg => exact ⟨_, rfl, read_server _ (DocCreateResponseMsg.fromJson_toJson h), rfl⟩
  | operationAck msg => exact ⟨_, rfl, read_server _ msg.fromJson_toJson, rfl⟩
  | operationBroadcast msg =>
      obtain ⟨j, hj, hread, htype⟩ := OperationBroadcastMsg.fromJson_toJson h
      exact ⟨j, hj, read_server _ hread, htype⟩
  | error msg => exact ⟨_, rfl, read_server _ msg.fromJson_toJson, rfl⟩
  | docJoinResponse msg =>
      obtain ⟨j, hj, hread, htype⟩ := DocJoinResponseMsg.fromJson_toJson h
      exact ⟨j, hj, read_server _ hread, htype⟩
  | docLeaveResponse success => exact ⟨_, rfl, read_server _ (successOf_response _ success), rfl⟩
  | docDeleteResponse success => exact ⟨_, rfl, read_server _ (successOf_response _ success), rfl⟩
  | docShareResponse success => exact ⟨_, rfl, read_server _ (successOf_response _ success), rfl⟩
  | cursorBroadcast msg => exact ⟨_, rfl, read_server _ msg.fromJson_toJson, rfl⟩
  | userJoined msg => exact ⟨_, rfl, read_server _ msg.fromJson_toJson, rfl⟩
  | userLeft msg => exact ⟨_, rfl, read_server _ msg.fromJson_toJson, rfl⟩
  | roleChanged msg => exact ⟨_, rfl, read_server _ msg.fromJson_toJson, rfl⟩
  | docDeleted docId => exact ⟨_, rfl, read_server _ (docIdOf_request "doc_deleted" docId), rfl⟩

/-- **The codec round-trips over the whole protocol.** A message whose uncarried fields have their defaults is
    written, reading the object with the `from_json` of its type gives the message back, and that type is
    the one its envelope names. -/
theorem codec_roundtrip (msg : Message) (h : msg.Carried) :
    ∃ j, msg.toJson = .ok j ∧ Message.fromJson msg.type j = some (.ok msg) ∧ envelopeType j = .ok msg.type := by
  cases msg with
  | authRequest msg => exact ⟨_, rfl, read_message _ msg.fromJson_toJson, rfl⟩
  | docCreateRequest title => exact ⟨_, rfl, read_message _ (docCreateTitle_request title), rfl⟩
  | docJoinRequest docId => exact ⟨_, rfl, read_message _ (docIdOf_request _ docId), rfl⟩
  | docLeaveRequest docId => exact ⟨_, rfl, read_message _ (docIdOf_request _ docId), rfl⟩
  | docDeleteRequest docId => exact ⟨_, rfl, read_message _ (docIdOf_request _ docId), rfl⟩
  | docShareRequest msg => exact ⟨_, rfl, read_message _ msg.fromJson_toJson, rfl⟩
  | operation msg =>
      obtain ⟨j, hj, hread, htype⟩ := OperationMsg.fromJson_toJson h
      exact ⟨j, hj, read_message _ hread, htype⟩
  | cursorUpdate msg => exact ⟨_, rfl, read_message _ msg.fromJson_toJson, rfl⟩
  | server msg => exact server_roundtrip msg h
  | serverShutdown message => exact ⟨_, rfl, read_message _ (by simp [shutdownMessage, serverShutdownJson]), rfl⟩

/-- A broadcast of an insertion and a deletion. -/
def sampleBroadcast : Message :=
  .server (.operationBroadcast
    { docId := 1, userId := 2, username := "Ω", revision := 3,
      ops := [{ op := "insert", pos := 0, text := Utf8.encode "é" }, { op := "delete", pos := 4, len := 2 }] })

theorem codec_roundtrip_broadcast :
    ∃ j, sampleBroadcast.toJson = .ok j ∧ Message.fromJson .operationBroadcast j = some (.ok sampleBroadcast) ∧
      envelopeType j = .ok .operationBroadcast := by
  refine codec_roundtrip sampleBroadcast fun entry hentry => ?_
  rcases List.mem_cons.mp hentry with rfl | hentry
  · exact ⟨fun h => absurd rfl h, fun _ => rfl, Utf8.valid_encode _⟩
  · obtain rfl := List.mem_singleton.mp hentry
    exact ⟨fun _ => rfl, fun h => absurd rfl h, Utf8.valid_nil⟩

/-! ## Failures of the writer -/

theorem Json.ofBytes_ok_iff (bytes : List UInt8) : (∃ j, Json.ofBytes bytes = .ok j) ↔ Utf8.Valid bytes := by
  constructor
  · rintro ⟨j, hj⟩
    by_contra hinvalid
    rw [Json.ofBytes, Utf8.decode, dif_neg hinvalid] at hj
    cases hj
  · intro h
    obtain ⟨s, hs, _⟩ := Json.ofBytes_of_valid h
    exact ⟨_, hs⟩

theorem OpEntry.toJson_ok_iff (entry : OpEntry UInt8) :
    (∃ j, entry.toJson = .ok j) ↔ (entry.op = "insert" → Utf8.Valid entry.text) := by
  unfold OpEntry.toJson
  split_ifs with hi hd
  · rw [← Json.ofBytes_ok_iff]
    refine ⟨fun ⟨j, hj⟩ _ => ?_, fun h => ?_⟩
    · cases htext : Json.ofBytes entry.text with
      | ok text => exact ⟨text, rfl⟩
      | error e => rw [htext] at hj; cases hj
    · obtain ⟨text, htext⟩ := h hi
      exact ⟨_, by rw [htext]; rfl⟩
  · exact iff_of_true ⟨_, rfl⟩ (fun h => absurd h hi)
  · exact iff_of_true ⟨_, rfl⟩ (fun h => absurd h hi)

theorem mapM_ok_iff {ε β γ : Type} (f : β → Except ε γ) (xs : List β) :
    (∃ ys, xs.mapM f = .ok ys) ↔ ∀ x ∈ xs, ∃ y, f x = .ok y := by
  induction xs with
  | nil => exact iff_of_true ⟨[], rfl⟩ (fun x hx => absurd hx List.not_mem_nil)
  | cons x xs ih =>
      rw [List.forall_mem_cons, ← ih, List.mapM_cons]
      constructor
      · rintro ⟨ys, hys⟩
        cases hx : f x with
        | error e => rw [hx] at hys; cases hys
        | ok y =>
            cases hxs : xs.mapM f with
            | error e => rw [hx, hxs] at hys; cases hys
            | ok ys' => exact ⟨⟨y, rfl⟩, ys', rfl⟩
      · rintro ⟨⟨y, hy⟩, ys, hys⟩
        exact ⟨y :: ys, by rw [hy, hys]; rfl⟩

/-- **`serialize` throws exactly on text that is not valid UTF-8.** -/
theorem toJson_ok_iff (msg : ServerMsg UInt8) : (∃ j, msg.toJson = .ok j) ↔ msg.Serializable := by
  cases msg with
  | operationBroadcast msg =>
      show (∃ j, msg.toJson = .ok j) ↔ ∀ entry ∈ msg.ops, entry.op = "insert" → Utf8.Valid entry.text
      simp only [← OpEntry.toJson_ok_iff]
      rw [← mapM_ok_iff, OperationBroadcastMsg.toJson]
      cases hops : msg.ops.mapM OpEntry.toJson with
      | ok js => exact iff_of_true ⟨_, rfl⟩ ⟨js, rfl⟩
      | error e => exact iff_of_false nofun nofun
  | docJoinResponse msg =>
      show (∃ j, msg.toJson = .ok j) ↔ (msg.success = true → Utf8.Valid msg.content)
      unfold DocJoinResponseMsg.toJson
      split_ifs with hs
      · rw [← Json.ofBytes_ok_iff]
        cases hcontent : Json.ofBytes msg.content with
        | ok content => exact iff_of_true ⟨_, rfl⟩ (fun _ => ⟨content, rfl⟩)
        | error e => exact iff_of_false nofun (fun h => by obtain ⟨j, hj⟩ := h hs; cases hj)
      · exact iff_of_true ⟨_, rfl⟩ (fun h => absurd h hs)
  | _ => exact iff_of_true ⟨_, rfl⟩ trivial

end RoundTrips

end CollabEditor
