import CollabEditor.Server.Calls
import CollabEditor.Server.Requests

/-!
# `Server.MessageHandler` — the handlers

`server::MessageHandler`, the methods of `DocumentManager` that take several steps, and the disconnect
callback of `main`, each as a program of calls in the order of the source. A request is the JSON value that
its payload parses to, or nothing if parsing throws.

## Contents
- **The document manager.**
- **The handlers**, and `handleMessage`, which dispatches and catches.
- **Disconnection.** `handleDisconnect`.
-/

namespace CollabEditor

namespace Handler

/-! ## The document manager -/

/-- `role_to_string`. -/
def roleToString (docId userId : UInt32) : Handler String := do
  match ← getRole docId userId with
  | none         => return "none"
  | some .owner  => return "owner"
  | some .editor => return "editor"
  | some .viewer => return "viewer"

/-- `create_document`. -/
def createDocument (title : String) (ownerId : UInt32) : Handler UInt32 := do
  lock
  let docId ← allocate title
  grant docId ownerId .owner
  writeFiles docId title
  unlock
  return docId

/-- `get_document`. -/
def getDocument (docId : UInt32) : Handler (Option ℕ) := do
  match ← findDocument docId with
  | some ref => return some ref
  | none     => match ← loadFromDisk docId with
      | none     => return none
      | some doc => return some (← publish docId doc)

/-- `delete_document`. -/
def deleteDocument (docId : UInt32) : Handler Unit := do
  lock
  eraseEntries docId
  revokeAllForDocument docId
  removeFiles docId
  unlock

/-- The loop of `list_documents`. -/
def listEntries (userId : UInt32) : List UInt32 → Handler (List DocListEntry)
  | []             => return []
  | docId :: docIds => do
      let (title, online) ← listed docId
      let role ← roleToString docId userId
      let entries ← listEntries userId docIds
      return { docId := docId, title := title, role := role, onlineCount := online } :: entries

/-- `list_documents`. -/
def listDocuments (userId : UInt32) : Handler (List DocListEntry) := do
  lock
  let entries ← listEntries userId (← listDocumentsForUser userId)
  unlock
  return entries

end Handler

namespace MessageHandler

open Handler

/-! ## The handlers -/

/-- `session->send(serialize(msg))`. -/
def sendMsg (i : SessionId) (msg : ServerMsg UInt8) : Handler Unit :=
  if msg.Serializable then send i msg else .throw .invalidUtf8

/-- `send_error`. -/
def sendError (i : SessionId) (code message : String) : Handler Unit := do
  sendMsg i (.error { code := code, message := message })
  if code = "invalid_message" then
    let count ← incrementErrorCount i
    if 3 ≤ count then close i

/-- `check_auth`. -/
def checkAuth (i : SessionId) (type : MessageType) : Handler Bool := do
  if type = .authRequest then return true
  else if ← isAuthenticated i then return true
  else
    sendError i "not_authenticated" "Authentication required"
    return false

/-- `handle_auth_request`. -/
def handleAuthRequest (i : SessionId) (j : Json) : Handler Unit := do
  let msg ← Prog.ofExcept (AuthRequestMsg.fromJson j)
  if msg.action ≠ "login" ∧ msg.action ≠ "register" then
    sendError i "invalid_message" "Invalid action"
  else
    let result ← if msg.action = "register" then registerUser msg.username msg.password
      else login msg.username msg.password
    if result.success then
      setAuth i result.userId msg.username (← generateColor result.userId)
      sendMsg i (.authResponse { success := true, userId := result.userId })
    else
      let error := if result.error = "duplicate_username" then "username_taken" else result.error
      sendMsg i (.authResponse { success := false, error := error })

/-- `handle_doc_list`. -/
def handleDocList (i : SessionId) : Handler Unit := do
  let items ← listDocuments (← userId i)
  sendMsg i (.docListResponse items)

/-- `handle_doc_create`. -/
def handleDocCreate (i : SessionId) (j : Json) : Handler Unit := do
  let title ← Prog.ofExcept (docCreateTitle j)
  let docId ← createDocument title (← userId i)
  sendMsg i (.docCreateResponse { success := true, docId := docId })

/-- `handle_doc_join`. -/
def handleDocJoin (i : SessionId) (j : Json) : Handler Unit := do
  let docId ← Prog.ofExcept (docIdOf j)
  if !(← canRead docId (← userId i)) then
    sendMsg i (.docJoinResponse { success := false, error := "access_denied" })
  else match ← getDocument docId with
    | none     => sendMsg i (.docJoinResponse { success := false, error := "doc_not_found" })
    | some doc => match ← getOrCreateSession docId with
        | none         => sendMsg i (.docJoinResponse { success := false, error := "doc_not_found" })
        | some session => do
            let role ← roleToString docId (← userId i)
            let content ← getContent doc
            let revision ← revision doc
            let connected ← connectedUsers session
            let users := connected.map fun user =>
              ({ userId := user.userId, username := user.username, color := user.color } : UserInfo)
            setCurrentDoc i docId
            let title ← title doc
            sendMsg i (.docJoinResponse
              { success := true, docId := docId, title := title, content := content,
                revision := revision, role := role, users := users })
            let userId ← userId i
            let username ← username i
            let color ← color i
            enqueueCommand session
              { type := .join, userId := userId, username := username, color := color, session := some i }

/-- Enqueue a Leave command of the session's user, if the document has a session. -/
def enqueueLeave (i : SessionId) (docId : UInt32) : Handler Unit := do
  match ← getSession docId with
  | none         => return ()
  | some session =>
      let userId ← userId i
      let username ← username i
      enqueueCommand session { type := .leave, userId := userId, username := username }

/-- `handle_doc_leave`. -/
def handleDocLeave (i : SessionId) (j : Json) : Handler Unit := do
  let docId ← Prog.ofExcept (docIdOf j)
  enqueueLeave i docId
  setCurrentDoc i 0
  sendMsg i (.docLeaveResponse true)

/-- `handle_doc_delete`. -/
def handleDocDelete (i : SessionId) (j : Json) : Handler Unit := do
  let docId ← Prog.ofExcept (docIdOf j)
  if !(← canDelete docId (← userId i)) then
    sendError i "access_denied" "Only owner can delete documents"
    sendMsg i (.docDeleteResponse false)
  else
    match ← getSession docId with
    | none         => pure ()
    | some session => enqueueCommand session { type := .delete }
    deleteDocument docId
    sendMsg i (.docDeleteResponse true)

/-- The answer to a `doc_share_request` whose change of rights has been made. -/
def announceRole (i : SessionId) (targetId : UInt32) (msg : DocShareRequestMsg) : Handler Unit := do
  sendMsg i (.docShareResponse true)
  match ← findSessionByUserId targetId with
  | none        => return ()
  | some target =>
      if (← currentDocId target) = msg.docId then
        sendMsg target (.roleChanged { docId := msg.docId, newRole := msg.role })

/-- `handle_doc_share`. -/
def handleDocShare (i : SessionId) (j : Json) : Handler Unit := do
  let msg ← Prog.ofExcept (DocShareRequestMsg.fromJson j)
  if !(← canShare msg.docId (← userId i)) then
    sendError i "access_denied" "Only owner can manage access"
  else match ← findUserId msg.targetUsername with
    | none          => sendError i "user_not_found" "Target user not found"
    | some targetId =>
        if targetId = (← userId i) then
          sendError i "cannot_modify_own_role" "Cannot modify own role"
        else if msg.role = "none" then
          revoke msg.docId targetId
          announceRole i targetId msg
        else if msg.role = "editor" then
          grant msg.docId targetId .editor
          announceRole i targetId msg
        else if msg.role = "viewer" then
          grant msg.docId targetId .viewer
          announceRole i targetId msg
        else
          sendError i "invalid_message" "Invalid role"

/-- The loop of `handle_operation`. -/
def enqueueOperations (i : SessionId) (session : ℕ) (revision : UInt32) :
    List (OpEntry UInt8) → Handler Unit
  | []             => return ()
  | entry :: entries => do
      let operation := fromEntry entry (← userId i) revision
      let userId ← userId i
      let username ← username i
      enqueueCommand session
        { type := .operation, operation := operation, userId := userId, username := username }
      enqueueOperations i session revision entries

/-- `handle_operation`. -/
def handleOperation (i : SessionId) (j : Json) : Handler Unit := do
  let msg ← Prog.ofExcept (OperationMsg.fromJson j)
  if (← currentDocId i) ≠ msg.docId then
    sendError i "not_in_document" "Not in this document"
  else if !(← canEdit msg.docId (← userId i)) then
    sendError i "access_denied" "No edit permission"
  else if 1000 < msg.ops.length then
    sendError i "invalid_message" "Too many operations (max 1000)"
  else match ← getSession msg.docId with
    | none         => sendError i "doc_not_found" "Document not active"
    | some session => enqueueOperations i session msg.revision msg.ops

/-- `handle_cursor_update`. -/
def handleCursorUpdate (i : SessionId) (j : Json) : Handler Unit := do
  let msg ← Prog.ofExcept (CursorUpdateMsg.fromJson j)
  if (← currentDocId i) ≠ msg.docId then
    return ()
  else match ← getSession msg.docId with
    | none   => return ()
    | some _ =>
        let userId ← userId i
        let username ← username i
        let color ← color i
        updateCursor msg.docId
          { userId := userId, username := username, color := color, position := msg.position,
            selectionStart := msg.selectionStart, selectionEnd := msg.selectionEnd }

/-- The `switch` of `handle_message`. -/
def dispatch (i : SessionId) (type : MessageType) (j : Json) : Handler Unit :=
  match type with
  | .authRequest      => handleAuthRequest i j
  | .docListRequest   => handleDocList i
  | .docCreateRequest => handleDocCreate i j
  | .docJoinRequest   => handleDocJoin i j
  | .docLeaveRequest  => handleDocLeave i j
  | .docDeleteRequest => handleDocDelete i j
  | .docShareRequest  => handleDocShare i j
  | .operation        => handleOperation i j
  | .cursorUpdate     => handleCursorUpdate i j
  | .undoRequest | .redoRequest | .snapshotListRequest | .snapshotViewRequest | .snapshotRestoreRequest =>
      sendError i "not_implemented" "This feature is not available in MVP"
  | _ => sendError i "invalid_message" "Unknown message type"

/-- `handle_message`. -/
def handleMessage (i : SessionId) (payload : Option Json) : Handler Unit :=
  match payload with
  | none   => sendError i "invalid_message" "Invalid JSON"
  | some j => match j.find? "type" with
      | some (.string typeName) => do
          let type := parseMessageType typeName
          if ← checkAuth i type then
            (dispatch i type j).tryCatch fun e =>
              sendError i "invalid_message" ("Malformed message: " ++ e.what)
      | _ => sendError i "invalid_message" "Missing 'type' field"

/-! ## Disconnection -/

/-- The disconnect callback of `main`. -/
def handleDisconnect (i : SessionId) : Handler Unit := do
  if 0 < (← currentDocId i) then
    enqueueLeave i (← currentDocId i)
    removeCursor (← currentDocId i) (← userId i)
  removeSession i

end MessageHandler

end CollabEditor
