import CollabEditor.Server.MessageHandler

/-!
# `Server.Handling` — what a handler does when it runs alone

A handler that runs to its end without interruption is a function of the server's state. `Handled` lists
what a request can do, one case for each kind of change, with the conditions under which the source makes
it, up to what is only counted or put into write queues (`core`). `handleMessage_handled` says that nothing
else can happen.

## Contents
- **The core of the state.** `core`, and the frame lemmas of `sendTo` and `refuse`.
- **The parts of handlers**, as functions of the state.
- **Requests.** `Asks`, `Handled`, one lemma for each handler, `handleMessage_handled`.
- **Disconnection.** `run_handleDisconnect`.
-/

namespace CollabEditor

open Handler MessageHandler

/-- A message that refuses a request. -/
def ServerMsg.isRefusal : ServerMsg UInt8 → Bool
  | .error _                => true
  | .authResponse msg       => !msg.success
  | .docCreateResponse msg  => !msg.success
  | .docJoinResponse msg    => !msg.success
  | .docLeaveResponse ok    => !ok
  | .docDeleteResponse ok   => !ok
  | .docShareResponse ok    => !ok
  | _                       => false

namespace Server

/-! ## The core of the state -/

/-- A client session without its counter of errors and its write queue. -/
def quiet (c : ClientSession) : ClientSession := { c with errorCount := 0, closed := false, sent := [] }

/-- The state without error counters and write queues. -/
def core (s : Server) : Server := { s with clients := fun i => quiet (s.clients i) }

theorem quiet_of_core {s t : Server} (h : s.core = t.core) (i : SessionId) :
    quiet (s.clients i) = quiet (t.clients i) := congrFun (congrArg Server.clients h) i

theorem disconnected_of_core {s t : Server} (h : s.core = t.core) (i : SessionId) :
    (s.clients i).disconnected = (t.clients i).disconnected := by
  have hc := congrArg ClientSession.disconnected (quiet_of_core h i)
  exact hc

theorem core_setClient {s : Server} {i : SessionId} {c : ClientSession}
    (h : quiet c = quiet (s.clients i)) : (s.setClient i c).core = s.core := by
  unfold core setClient
  congr 1
  funext k
  by_cases hk : k = i
  · subst hk
    simp only [Function.update_self]
    exact h
  · simp only [Function.update_of_ne hk]

theorem core_sendTo (s : Server) (i : SessionId) (msg : ServerMsg UInt8) :
    (s.sendTo i msg).core = s.core := by
  unfold sendTo
  split_ifs
  · rfl
  · exact core_setClient rfl

/-- What a session that can still be sent to has been sent. -/
def Replied (s s' : Server) (i : SessionId) (replies : List (ServerMsg UInt8)) : Prop :=
  (s'.clients i).sent =
    if (s.clients i).disconnected then (s.clients i).sent else (s.clients i).sent ++ replies

theorem sent_sendTo (s : Server) (i : SessionId) (msg : ServerMsg UInt8) :
    s.Replied (s.sendTo i msg) i [msg] := by
  unfold Replied sendTo
  split_ifs with h
  · rfl
  · simp only [setClient, Function.update_self]

/-- Count an error; the third one closes the socket. -/
def countError (s : Server) (i : SessionId) : Server :=
  let c := { s.clients i with errorCount := (s.clients i).errorCount + 1 }
  s.setClient i (if 3 ≤ c.errorCount then { c with closed := true } else c)

/-- The state after `send_error`. -/
def refuse (s : Server) (i : SessionId) (code message : String) : Server :=
  let t := s.sendTo i (.error { code := code, message := message })
  if code = "invalid_message" then t.countError i else t

theorem run_sendMsg {i : SessionId} {m : ServerMsg UInt8} (h : m.Serializable) (s : Server) :
    (sendMsg i m).run exec s = (s.sendTo i m, .ok ()) := by
  unfold sendMsg
  rw [if_pos h]
  rfl

theorem setClient_setClient (s : Server) (i : SessionId) (c c' : ClientSession) :
    (s.setClient i c).setClient i c' = s.setClient i c' := by
  unfold setClient
  rw [Function.update_idem]

theorem setClient_self (s : Server) (i : SessionId) (c : ClientSession) :
    (s.setClient i c).clients i = c := Function.update_self _ _ _

theorem setClient_of_ne (s : Server) {i k : SessionId} (hk : k ≠ i) (c : ClientSession) :
    (s.setClient i c).clients k = s.clients k := Function.update_of_ne hk _ _

theorem run_sendError (i : SessionId) (code message : String) (s : Server) :
    (sendError i code message).run exec s = (s.refuse i code message, .ok ()) := by
  unfold sendError refuse
  simp only [Prog.bind_eq, Prog.run_bind, run_sendMsg (m := .error _) trivial]
  by_cases hcode : code = "invalid_message"
  · rw [if_pos hcode, if_pos hcode]
    generalize s.sendTo i _ = t
    unfold countError
    change (if 3 ≤ (t.clients i).errorCount + 1 then close i else Prog.pure ()).run exec _ = _
    by_cases hcount : 3 ≤ (t.clients i).errorCount + 1
    · rw [if_pos hcount]
      simp only [if_pos hcount, Prog.run_invoke, exec, setClient_setClient, setClient_self]
    · rw [if_neg hcount]
      simp only [if_neg hcount, Prog.run_pure, exec]
  · rw [if_neg hcode, if_neg hcode]
    rfl

theorem core_refuse (s : Server) (i : SessionId) (code message : String) :
    (s.refuse i code message).core = s.core := by
  unfold refuse
  dsimp only
  split_ifs
  · unfold countError
    rw [core_setClient (by split_ifs <;> rfl), core_sendTo]
  · rw [core_sendTo]

theorem sent_refuse (s : Server) (i : SessionId) (code message : String) :
    s.Replied (s.refuse i code message) i [.error { code := code, message := message }] := by
  have h := s.sent_sendTo i (.error { code := code, message := message })
  unfold refuse
  dsimp only
  split_ifs
  · unfold Replied countError at *
    rw [setClient_self, ← h]
    split_ifs <;> rfl
  · exact h

/-! ## The parts of handlers -/

/-- The text of a role. -/
def roleName : Option Role → String
  | none         => "none"
  | some .owner  => "owner"
  | some .editor => "editor"
  | some .viewer => "viewer"

theorem run_roleToString (docId userId : UInt32) (s : Server) :
    (roleToString docId userId).run exec s = (s, .ok (roleName (s.access.getRole docId userId))) := by
  unfold roleToString
  change (match s.access.getRole docId userId with
    | none         => (Prog.pure "none" : Handler String)
    | some .owner  => Prog.pure "owner"
    | some .editor => Prog.pure "editor"
    | some .viewer => Prog.pure "viewer").run exec s = _
  cases s.access.getRole docId userId with
  | none => rfl
  | some role => cases role <;> rfl

/-- `create_document`. -/
def createDocument (s : Server) (title : String) (ownerId : UInt32) : Server :=
  let docId := s.manager.nextDocId
  { s with
    manager := (s.manager.allocate title).1.writeFiles docId title
    access := s.access.grant docId ownerId .owner }

theorem run_createDocument {s : Server} (hlock : s.manager.locked = false) (title : String)
    (ownerId : UInt32) :
    (Handler.createDocument title ownerId).run exec s =
      (s.createDocument title ownerId, .ok s.manager.nextDocId) := by
  obtain ⟨env, auth, access, manager, clients, tcpSessions⟩ := s
  obtain ⟨documents, titles, sessions, cursorBuffers, nextDocId, locked, dataDir, objects, allocated⟩ :=
    manager
  cases hlock
  rfl

/-- `get_document`. -/
def getDocument (s : Server) (docId : UInt32) : Server × Option ℕ :=
  match s.manager.documents.lookup docId with
  | some ref => (s, some ref)
  | none     => match s.manager.dataDir.load docId with
      | none     => (s, none)
      | some doc =>
          let r := s.manager.publish docId doc
          ({ s with manager := r.1 }, some r.2)

theorem run_getDocument (docId : UInt32) (s : Server) :
    (Handler.getDocument docId).run exec s = ((s.getDocument docId).1, .ok (s.getDocument docId).2) := by
  unfold Handler.getDocument getDocument
  simp only [Prog.bind_eq, Prog.invoke_bind, Prog.run_call, exec]
  cases s.manager.documents.lookup docId with
  | some ref => rfl
  | none =>
      simp only [Prog.run_call, exec]
      cases s.manager.dataDir.load docId with
      | none => rfl
      | some doc => rfl

/-- `delete_document`. -/
def deleteDocument (s : Server) (docId : UInt32) : Server :=
  { s with
    manager := (s.manager.eraseEntries docId).removeFiles docId
    access := s.access.revokeAllForDocument docId }

theorem run_deleteDocument {s : Server} (hlock : s.manager.locked = false) (docId : UInt32) :
    (Handler.deleteDocument docId).run exec s = (s.deleteDocument docId, .ok ()) := by
  obtain ⟨env, auth, access, manager, clients, tcpSessions⟩ := s
  obtain ⟨documents, titles, sessions, cursorBuffers, nextDocId, locked, dataDir, objects, allocated⟩ :=
    manager
  cases hlock
  unfold Handler.deleteDocument deleteDocument DocumentManager.eraseEntries
  simp only [Prog.bind_eq, Prog.invoke_bind, Prog.run_call, exec, DocumentManager.eraseEntries]
  cases AList.lookup docId sessions with
  | none => rfl
  | some ref => rfl

/-- What `list_documents` tells of one document. -/
def listEntry (s : Server) (userId docId : UInt32) : DocListEntry where
  docId := docId
  title := (s.manager.listed docId).1
  role := roleName (s.access.getRole docId userId)
  onlineCount := (s.manager.listed docId).2

theorem run_listEntries (userId : UInt32) (docIds : List UInt32) (s : Server) :
    (listEntries userId docIds).run exec s = (s, .ok (docIds.map (s.listEntry userId))) := by
  induction docIds with
  | nil => rfl
  | cons docId docIds ih =>
      unfold listEntries
      simp only [Prog.bind_eq, Prog.invoke_bind, Prog.run_call, exec, Prog.run_bind, run_roleToString, ih]
      rfl

theorem run_listDocuments {s : Server} (hlock : s.manager.locked = false) (userId : UInt32) :
    ∃ entries, (listDocuments userId).run exec s = (s, .ok entries) ∧
      entries.map DocListEntry.docId = s.access.listDocumentsForUser userId := by
  obtain ⟨env, auth, access, manager, clients, tcpSessions⟩ := s
  obtain ⟨documents, titles, sessions, cursorBuffers, nextDocId, locked, dataDir, objects, allocated⟩ :=
    manager
  cases hlock
  unfold listDocuments
  simp only [Prog.bind_eq, Prog.invoke_bind, Prog.run_call, exec, Prog.run_bind]
  rw [run_listEntries]
  refine ⟨_, rfl, ?_⟩
  rw [List.map_map]
  exact List.map_id _

/-- `enqueue_command`. -/
def enqueue (s : Server) (ref : ℕ) (cmd : DocCommand UInt8 SessionId) : Server :=
  { s with manager := s.manager.enqueueCommand ref cmd }

/-- The Leave command of a user. -/
def leaveCommand (s : Server) (i : SessionId) : DocCommand UInt8 SessionId :=
  { type := .leave, userId := (s.clients i).userId, username := (s.clients i).username }

/-- The Join command of a session. -/
def joinCommand (s : Server) (i : SessionId) : DocCommand UInt8 SessionId :=
  { type := .join, userId := (s.clients i).userId, username := (s.clients i).username,
    color := (s.clients i).color, session := some i }

def enqueueLeave (s : Server) (i : SessionId) (docId : UInt32) : Server :=
  match s.manager.getSession docId with
  | none     => s
  | some ref => s.enqueue ref (s.leaveCommand i)

theorem run_enqueueLeave (i : SessionId) (docId : UInt32) (s : Server) :
    (MessageHandler.enqueueLeave i docId).run exec s = (s.enqueueLeave i docId, .ok ()) := by
  unfold MessageHandler.enqueueLeave enqueueLeave
  simp only [Prog.bind_eq, Prog.invoke_bind, Prog.run_call, exec]
  cases s.manager.getSession docId with
  | none => rfl
  | some ref => rfl

theorem run_enqueueOperations (i : SessionId) (ref : ℕ) (revision : UInt32)
    (entries : List (OpEntry UInt8)) (s : Server) :
    (enqueueOperations i ref revision entries).run exec s =
      ((operationCommands (s.clients i).userId (s.clients i).username
        { docId := 0, revision := revision, ops := entries }).foldl (fun s cmd => s.enqueue ref cmd) s,
        .ok ()) := by
  induction entries generalizing s with
  | nil => rfl
  | cons entry entries ih =>
      unfold enqueueOperations
      simp only [Prog.bind_eq, Prog.invoke_bind, Prog.run_call, exec]
      rw [ih]
      rfl

/-! ## Requests -/

/-- `set_auth` after a successful login or registration. -/
def authenticate (s : Server) (i : SessionId) (userId : UInt32) (username : String) : Server :=
  let c := s.clients i
  let c := { c with
    userId := userId, username := username, color := s.env.generateColor userId, authenticated := true }
  s.setClient i c

/-- `set_current_doc`. -/
def setCurrentDoc (s : Server) (i : SessionId) (docId : UInt32) : Server :=
  s.setClient i { s.clients i with currentDocId := docId }

/-- `get_document` and `get_or_create_session`, as `handle_doc_join` calls them. -/
def openDocument (s : Server) (docId : UInt32) : Server :=
  let t := (s.getDocument docId).1
  { t with manager := (t.manager.getOrCreateSession docId).1 }

/-- The references that `handle_doc_join` gets. -/
def opened (s : Server) (docId : UInt32) : Option (ℕ × ℕ) :=
  match (s.getDocument docId).2, ((s.getDocument docId).1.manager.getOrCreateSession docId).2 with
  | some doc, some session => some (doc, session)
  | _, _                   => none

/-- The content that `handle_doc_join` reads. -/
def contentAt (s : Server) (ref : ℕ) : List UInt8 := (s.manager.objects ref).session.doc.content

/-- The Delete command, if the document has a session. -/
def enqueueDelete (s : Server) (docId : UInt32) : Server :=
  match s.manager.getSession docId with
  | none     => s
  | some ref => s.enqueue ref { type := .delete }

/-- The loop of `handle_operation`. -/
def enqueueAll (s : Server) (ref : ℕ) (cmds : List (DocCommand UInt8 SessionId)) : Server :=
  cmds.foldl (fun s cmd => s.enqueue ref cmd) s

/-- The cursor that `handle_cursor_update` stores. -/
def cursorOf (s : Server) (i : SessionId) (msg : CursorUpdateMsg) : CursorState where
  userId := (s.clients i).userId
  username := (s.clients i).username
  color := (s.clients i).color
  position := msg.position
  selectionStart := msg.selectionStart
  selectionEnd := msg.selectionEnd

/-- The payload is a JSON object of a message type. -/
def Asks (payload : Option Json) (type : MessageType) (j : Json) : Prop :=
  payload = some j ∧
    ∃ typeName, j.find? "type" = some (.string typeName) ∧ parseMessageType typeName = type

/-- A request authenticates its session as a user. -/
def Authenticates (s : Server) (msg : AuthRequestMsg) (auth : AuthManager) (userId : UInt32) : Prop :=
  (msg.action = "register" ∧
    s.auth.registerUser s.env.sha256Hex (s.env.salt s.auth.nextId) msg.username msg.password =
      (auth, { success := true, userId := userId })) ∨
  (msg.action = "login" ∧ auth = s.auth ∧
    s.auth.login s.env.sha256Hex msg.username msg.password = { success := true, userId := userId })

/-- **What a request can do** to the state, and the replies that its session is sent. -/
inductive Handled (s : Server) (i : SessionId) (payload : Option Json) :
    Server → List (ServerMsg UInt8) → Prop where
  /-- It is refused, or only answered, or ignored. -/
  | kept (replies : List (ServerMsg UInt8)) : Handled s i payload s replies
  | authenticated {j : Json} {msg : AuthRequestMsg} {auth : AuthManager} {userId : UInt32}
      (hj : Asks payload .authRequest j) (hmsg : AuthRequestMsg.fromJson j = .ok msg)
      (h : s.Authenticates msg auth userId) :
      Handled s i payload (authenticate { s with auth := auth } i userId msg.username)
        [.authResponse { success := true, userId := userId }]
  | created {j : Json} {title : String} (hj : Asks payload .docCreateRequest j)
      (htitle : docCreateTitle j = .ok title) (hauth : (s.clients i).authenticated = true) :
      Handled s i payload (s.createDocument title (s.clients i).userId)
        [.docCreateResponse { success := true, docId := s.manager.nextDocId }]
  /-- The response of a join does not serialize. -/
  | torn {j : Json} {docId : UInt32} {doc session : ℕ} (message : String)
      (hj : Asks payload .docJoinRequest j) (hid : docIdOf j = .ok docId)
      (hauth : (s.clients i).authenticated = true)
      (hread : s.access.canRead docId (s.clients i).userId = true)
      (hopen : s.opened docId = some (doc, session))
      (hbad : ¬ Utf8.Valid ((s.openDocument docId).contentAt doc)) :
      Handled s i payload ((s.openDocument docId).setCurrentDoc i docId)
        [.error { code := "invalid_message", message := message }]
  | joined {j : Json} {docId : UInt32} {doc session : ℕ} {msg : DocJoinResponseMsg UInt8}
      (hj : Asks payload .docJoinRequest j) (hid : docIdOf j = .ok docId)
      (hauth : (s.clients i).authenticated = true)
      (hread : s.access.canRead docId (s.clients i).userId = true)
      (hopen : s.opened docId = some (doc, session))
      (hgood : Utf8.Valid ((s.openDocument docId).contentAt doc)) (hmsg : msg.success = true) :
      Handled s i payload
        (((s.openDocument docId).setCurrentDoc i docId).enqueue session (s.joinCommand i))
        [.docJoinResponse msg]
  | left {j : Json} {docId : UInt32} (hj : Asks payload .docLeaveRequest j) (hid : docIdOf j = .ok docId)
      (hauth : (s.clients i).authenticated = true) :
      Handled s i payload ((s.enqueueLeave i docId).setCurrentDoc i 0) [.docLeaveResponse true]
  | deleted {j : Json} {docId : UInt32} (hj : Asks payload .docDeleteRequest j)
      (hid : docIdOf j = .ok docId) (hauth : (s.clients i).authenticated = true)
      (hown : s.access.canDelete docId (s.clients i).userId = true) :
      Handled s i payload ((s.enqueueDelete docId).deleteDocument docId) [.docDeleteResponse true]
  | shared {j : Json} {msg : DocShareRequestMsg} {targetId : UInt32}
      (hj : Asks payload .docShareRequest j) (hmsg : DocShareRequestMsg.fromJson j = .ok msg)
      (hauth : (s.clients i).authenticated = true)
      (hown : s.access.canShare msg.docId (s.clients i).userId = true)
      (htarget : s.auth.findUserId msg.targetUsername = some targetId)
      (hother : targetId ≠ (s.clients i).userId)
      (hrole : msg.role = "none" ∨ msg.role = "editor" ∨ msg.role = "viewer") :
      Handled s i payload { s with access := s.access.setRole msg.docId targetId msg.role }
        [.docShareResponse true]
  | operated {j : Json} {msg : OperationMsg UInt8} {session : ℕ} (hj : Asks payload .operation j)
      (hmsg : OperationMsg.fromJson j = .ok msg) (hauth : (s.clients i).authenticated = true)
      (hdoc : (s.clients i).currentDocId = msg.docId)
      (hedit : s.access.canEdit msg.docId (s.clients i).userId = true)
      (hlength : msg.ops.length ≤ 1000) (hsession : s.manager.getSession msg.docId = some session) :
      Handled s i payload
        (s.enqueueAll session (operationCommands (s.clients i).userId (s.clients i).username msg)) []
  | moved {j : Json} {msg : CursorUpdateMsg} {session : ℕ} (hj : Asks payload .cursorUpdate j)
      (hmsg : CursorUpdateMsg.fromJson j = .ok msg) (hauth : (s.clients i).authenticated = true)
      (hdoc : (s.clients i).currentDocId = msg.docId)
      (hsession : s.manager.getSession msg.docId = some session) :
      Handled s i payload { s with manager := s.manager.updateCursor msg.docId (s.cursorOf i msg) } []

/-- How the handler of a request comes to its end. -/
inductive Concludes (s : Server) (i : SessionId) (payload : Option Json) :
    Server × Except JsonException Unit → Prop where
  | finished {s' t : Server} {replies : List (ServerMsg UInt8)} (h : Handled s i payload t replies)
      (hcore : s'.core = t.core) (hreplied : s.Replied s' i replies) : Concludes s i payload (s', .ok ())
  /-- The caller is going to report the exception. -/
  | threw {t : Server} {e : JsonException}
      (h : ∀ message, Handled s i payload t [.error { code := "invalid_message", message := message }])
      (hsent : (t.clients i).sent = (s.clients i).sent)
      (hlive : (t.clients i).disconnected = (s.clients i).disconnected) :
      Concludes s i payload (t, .error e)

section Handlers

variable {s t : Server} {i : SessionId} {payload : Option Json} {j : Json}

/-- A reply after a change that reaches no write queue. -/
theorem Replied.after {s' : Server} {replies : List (ServerMsg UInt8)} (h : t.Replied s' i replies)
    (hsent : (t.clients i).sent = (s.clients i).sent)
    (hlive : (t.clients i).disconnected = (s.clients i).disconnected) : s.Replied s' i replies := by
  unfold Replied at *
  rw [h, hsent, hlive]

theorem Replied.nil (s : Server) (i : SessionId) : s.Replied s i [] := by
  unfold Replied
  rw [List.append_nil, ite_self]

/-- Replies follow one another. -/
theorem Replied.append {u : Server} {replies replies' : List (ServerMsg UInt8)}
    (h : s.Replied t i replies) (h' : t.Replied u i replies')
    (hlive : (t.clients i).disconnected = (s.clients i).disconnected) :
    s.Replied u i (replies ++ replies') := by
  unfold Replied at *
  rw [h', hlive, h]
  split_ifs
  · rfl
  · rw [List.append_assoc]

theorem concludes_sendError (code message : String) :
    Concludes s i payload ((sendError i code message).run exec s) := by
  rw [run_sendError]
  exact .finished (.kept _) (core_refuse s i code message) (sent_refuse s i code message)

theorem concludes_sendMsg {msg : ServerMsg UInt8} (h : Handled s i payload t [msg])
    (hmsg : msg.Serializable) (hsent : (t.clients i).sent = (s.clients i).sent)
    (hlive : (t.clients i).disconnected = (s.clients i).disconnected) :
    Concludes s i payload ((sendMsg i msg).run exec t) := by
  rw [run_sendMsg hmsg]
  exact .finished h (core_sendTo t i msg) ((t.sent_sendTo i msg).after hsent hlive)

/-- An exception before anything has been changed. -/
theorem concludes_throw (e : JsonException) : Concludes s i payload (s, .error e) :=
  .threw (fun _ => .kept _) rfl rfl

/-- The handler branches. -/
theorem concludes_ite {c : Prop} {_ : Decidable c} {p q : Handler Unit}
    (hp : c → Concludes s i payload (p.run exec t)) (hq : ¬ c → Concludes s i payload (q.run exec t)) :
    Concludes s i payload ((if c then p else q).run exec t) := by
  split_ifs with h
  · exact hp h
  · exact hq h

theorem concludes_unless {b : Bool} {p q : Handler Unit}
    (hp : b = false → Concludes s i payload (p.run exec t))
    (hq : b = true → Concludes s i payload (q.run exec t)) :
    Concludes s i payload ((if !b then p else q).run exec t) := by
  cases b with
  | false => exact hp rfl
  | true => exact hq rfl

/-- What `handle_auth_request` does with the result of a registration or a login. -/
theorem concludes_authResult {msg : AuthRequestMsg} (r : AuthManager × AuthResult)
    (hj : Asks payload .authRequest j) (hmsg : AuthRequestMsg.fromJson j = .ok msg)
    (hyes : r.2.success = true →
      ∃ userId, r.2 = { success := true, userId := userId } ∧ s.Authenticates msg r.1 userId)
    (hno : r.2.success = false → r.1 = s.auth) :
    Concludes s i payload
      ((if r.2.success = true then
          (generateColor r.2.userId).bind fun color =>
            (setAuth i r.2.userId msg.username color).bind fun _ =>
              sendMsg i (.authResponse { success := true, userId := r.2.userId })
        else
          sendMsg i (.authResponse
            { success := false,
              error := if r.2.error = "duplicate_username" then "username_taken" else r.2.error })).run exec
        { s with auth := r.1 }) := by
  obtain ⟨auth, result⟩ := r
  dsimp only at *
  by_cases hsuccess : result.success = true
  · obtain ⟨userId, rfl, hauth⟩ := hyes hsuccess
    rw [if_pos rfl]
    refine concludes_sendMsg (t := authenticate { s with auth := auth } i userId msg.username)
      (.authenticated hj hmsg hauth) trivial ?_ ?_
    · rw [authenticate, setClient_self]
    · rw [authenticate, setClient_self]
  · rw [if_neg hsuccess, hno (Bool.eq_false_iff.mpr hsuccess)]
    exact concludes_sendMsg (.kept _) trivial rfl rfl

theorem concludes_authRequest (hj : Asks payload .authRequest j) :
    Concludes s i payload ((handleAuthRequest i j).run exec s) := by
  unfold handleAuthRequest
  cases hmsg : AuthRequestMsg.fromJson j with
  | error e => exact concludes_throw e
  | ok msg =>
      refine concludes_ite (fun _ => concludes_sendError _ _) fun haction => ?_
      by_cases hregister : msg.action = "register"
      · rw [if_pos hregister]
        refine concludes_authResult
          (s.auth.registerUser s.env.sha256Hex (s.env.salt s.auth.nextId) msg.username msg.password)
          hj hmsg (fun hsuccess => ?_) AuthManager.registerUser_refused
        have hresult := AuthManager.registerUser_success hsuccess
        exact ⟨_, hresult, .inl ⟨hregister, Prod.ext rfl hresult⟩⟩
      · have hlogin : msg.action = "login" := by
          by_contra hne
          exact haction ⟨hne, hregister⟩
        rw [if_neg hregister]
        refine concludes_authResult (s.auth, s.auth.login s.env.sha256Hex msg.username msg.password)
          hj hmsg (fun hsuccess => ?_) fun _ => rfl
        obtain ⟨userId, hresult⟩ := AuthManager.login_success hsuccess
        exact ⟨userId, hresult, .inr ⟨hlogin, rfl, hresult⟩⟩

theorem concludes_docList (hlock : s.manager.locked = false) :
    Concludes s i payload ((handleDocList i).run exec s) := by
  unfold handleDocList
  obtain ⟨entries, hentries, _⟩ := run_listDocuments hlock (s.clients i).userId
  simp only [Prog.bind_eq, Prog.invoke_bind, Prog.run_call, exec, Prog.run_bind, hentries]
  exact concludes_sendMsg (.kept _) trivial rfl rfl

theorem concludes_docCreate (hlock : s.manager.locked = false) (hj : Asks payload .docCreateRequest j)
    (hauth : (s.clients i).authenticated = true) :
    Concludes s i payload ((handleDocCreate i j).run exec s) := by
  unfold handleDocCreate
  cases htitle : docCreateTitle j with
  | error e => exact concludes_throw e
  | ok title =>
      simp only [Prog.ofExcept, Prog.bind_eq, Prog.pure_bind, Prog.invoke_bind, Prog.run_call, exec,
        Prog.run_bind, run_createDocument hlock]
      exact concludes_sendMsg (.created hj htitle hauth) trivial rfl rfl

theorem clients_enqueueLeave (docId : UInt32) : (s.enqueueLeave i docId).clients = s.clients := by
  unfold enqueueLeave
  split
  · rfl
  · rfl

theorem concludes_docLeave (hj : Asks payload .docLeaveRequest j)
    (hauth : (s.clients i).authenticated = true) :
    Concludes s i payload ((handleDocLeave i j).run exec s) := by
  unfold handleDocLeave
  cases hid : docIdOf j with
  | error e => exact concludes_throw e
  | ok docId =>
      simp only [Prog.ofExcept, Prog.bind_eq, Prog.pure_bind, Prog.run_bind, run_enqueueLeave,
        Prog.invoke_bind, Prog.run_call, exec]
      refine concludes_sendMsg (t := (s.enqueueLeave i docId).setCurrentDoc i 0)
        (.left hj hid hauth) trivial ?_ ?_
      · rw [Server.setCurrentDoc, setClient_self, clients_enqueueLeave]
      · rw [Server.setCurrentDoc, setClient_self, clients_enqueueLeave]

theorem clients_enqueueDelete (docId : UInt32) : (s.enqueueDelete docId).clients = s.clients := by
  unfold enqueueDelete
  split
  · rfl
  · rfl

theorem locked_enqueueDelete (docId : UInt32) :
    (s.enqueueDelete docId).manager.locked = s.manager.locked := by
  unfold enqueueDelete
  split
  · rfl
  · rfl

theorem concludes_docDelete (hlock : s.manager.locked = false) (hj : Asks payload .docDeleteRequest j)
    (hauth : (s.clients i).authenticated = true) :
    Concludes s i payload ((handleDocDelete i j).run exec s) := by
  unfold handleDocDelete
  cases hid : docIdOf j with
  | error e => exact concludes_throw e
  | ok docId =>
      refine concludes_unless (fun _ => ?_) fun hown => ?_
      · -- it is refused twice
        simp only [Prog.bind_eq, Prog.run_bind, run_sendError]
        rw [run_sendMsg (m := .docDeleteResponse false) trivial]
        refine .finished (.kept _) ?_
          ((s.sent_refuse i _ _).append (sent_sendTo _ i _) ?_)
        · rw [core_sendTo, core_refuse]
          rfl
        · exact disconnected_of_core (core_refuse s i _ _) i
      · have hdelete : ∀ t : Server, t = s.enqueueDelete docId → Concludes s i payload
            (((Handler.deleteDocument docId).bind fun _ => sendMsg i (.docDeleteResponse true)).run exec t) := by
          rintro t rfl
          rw [Prog.run_bind, run_deleteDocument (by rw [locked_enqueueDelete, hlock])]
          refine concludes_sendMsg (.deleted hj hid hauth hown) trivial ?_ ?_
          · exact congrArg (fun clients => (clients i).sent) (clients_enqueueDelete docId)
          · exact congrArg (fun clients => (clients i).disconnected) (clients_enqueueDelete docId)
        simp only [Prog.bind_eq, Prog.invoke_bind, Prog.run_call, exec]
        unfold enqueueDelete at hdelete
        cases hsession : s.manager.getSession docId with
        | none => exact hdelete s (by rw [hsession])
        | some ref => exact hdelete _ (by rw [hsession]; rfl)

/-- A document that cannot be found is not loaded. -/
theorem getDocument_none {docId : UInt32} (h : (s.getDocument docId).2 = none) :
    (s.getDocument docId).1 = s := by
  unfold getDocument at h ⊢
  split at h
  · cases h
  · split at h
    · rfl
    · cases h

/-- A document that `get_document` returns has an entry. -/
theorem getDocument_some {docId : UInt32} {doc : ℕ} (h : (s.getDocument docId).2 = some doc) :
    (s.getDocument docId).1.manager.documents.lookup docId = some doc := by
  unfold getDocument at h ⊢
  cases hdoc : s.manager.documents.lookup docId with
  | some ref =>
      rw [hdoc] at h
      dsimp only at h ⊢
      rw [hdoc, h]
  | none =>
      rw [hdoc] at h
      dsimp only at h ⊢
      cases hload : s.manager.dataDir.load docId with
      | none => rw [hload] at h; cases h
      | some loaded =>
          rw [hload] at h
          dsimp only at h ⊢
          unfold DocumentManager.publish at h ⊢
          rw [hdoc] at h ⊢
          cases h
          exact AList.lookup_insert _

/-- So `get_or_create_session` succeeds after `get_document`. -/
theorem getOrCreateSession_isSome {m : DocumentManager} {docId : UInt32} {doc : ℕ}
    (h : m.documents.lookup docId = some doc) : ∃ session, (m.getOrCreateSession docId).2 = some session := by
  unfold DocumentManager.getOrCreateSession
  cases m.sessions.lookup docId with
  | some ref => exact ⟨ref, rfl⟩
  | none => rw [h]; exact ⟨doc, rfl⟩

theorem clients_getDocument (docId : UInt32) : (s.getDocument docId).1.clients = s.clients := by
  unfold getDocument
  split
  · rfl
  · split
    · rfl
    · rfl

theorem joinCommand_of_core {s t : Server} (h : s.core = t.core) (i : SessionId) :
    s.joinCommand i = t.joinCommand i := by
  have hc := congrArg (fun c : ClientSession =>
    ({ type := .join, userId := c.userId, username := c.username, color := c.color, session := some i } :
      DocCommand UInt8 SessionId)) (quiet_of_core h i)
  exact hc

/-- A reader's join of a document that can be opened sends its response and enqueues a Join behind it. -/
theorem run_handleDocJoin {docId : UInt32} {doc session : ℕ} (hid : docIdOf j = .ok docId)
    (hread : s.access.canRead docId (s.clients i).userId = true)
    (hopen : s.opened docId = some (doc, session)) :
    ∃ (msg : DocJoinResponseMsg UInt8) (enqueueJoin : Handler Unit),
      msg.success = true ∧ msg.content = (s.openDocument docId).contentAt doc ∧
      (∀ u, enqueueJoin.run exec u = (u.enqueue session (u.joinCommand i), .ok ())) ∧
      (handleDocJoin i j).run exec s =
        ((sendMsg i (.docJoinResponse msg)).bind fun _ => enqueueJoin).run exec
          ((s.openDocument docId).setCurrentDoc i docId) := by
  unfold opened at hopen
  split at hopen
  · case _ doc' session' hdoc hsession =>
      cases hopen
      unfold handleDocJoin
      rw [hid]
      change ∃ msg enqueueJoin, _ ∧ _ ∧ _ ∧ (if !s.access.canRead docId (s.clients i).userId then _ else
        (Handler.getDocument docId).bind _ : Handler Unit).run exec s = _
      rw [hread, if_neg (by decide), Prog.run_bind, run_getDocument]
      simp only [hdoc, Prog.bind_eq, Prog.invoke_bind, Prog.run_call, exec, hsession]
      rw [Prog.run_bind, run_roleToString]
      refine ⟨_, _, ?_, ?_, ?_, rfl⟩
      · rfl
      · rfl
      · exact fun u => rfl
  · cases hopen

theorem clients_openDocument (docId : UInt32) : (s.openDocument docId).clients = s.clients :=
  clients_getDocument docId

theorem clients_setCurrentDoc_self (docId docId' : UInt32) :
    (((s.openDocument docId).setCurrentDoc i docId').clients i) =
      { s.clients i with currentDocId := docId' } := by
  rw [Server.setCurrentDoc, setClient_self, clients_openDocument]

theorem concludes_opened {docId : UInt32} {doc session : ℕ} (hj : Asks payload .docJoinRequest j)
    (hid : docIdOf j = .ok docId) (hauth : (s.clients i).authenticated = true)
    (hread : s.access.canRead docId (s.clients i).userId = true)
    (hopen : s.opened docId = some (doc, session)) :
    Concludes s i payload ((handleDocJoin i j).run exec s) := by
  obtain ⟨msg, enqueueJoin, hmsg, hcontent, hjoin, hrun⟩ := run_handleDocJoin hid hread hopen
  have hself := clients_setCurrentDoc_self (s := s) (i := i) docId docId
  rw [hrun, Prog.run_bind]
  by_cases hvalid : Utf8.Valid msg.content
  · have hserial : (ServerMsg.docJoinResponse msg).Serializable := fun _ => hvalid
    have hcore := core_sendTo ((s.openDocument docId).setCurrentDoc i docId) i (.docJoinResponse msg)
    have hcommand : ((s.openDocument docId).setCurrentDoc i docId).joinCommand i = s.joinCommand i := by
      unfold joinCommand
      rw [hself]
    rw [run_sendMsg hserial]
    dsimp only
    rw [hjoin, joinCommand_of_core hcore, hcommand]
    refine .finished (.joined hj hid hauth hread hopen (hcontent ▸ hvalid) hmsg) ?_ ?_
    · exact congrArg (fun t => enqueue t session (s.joinCommand i)) hcore
    · refine (sent_sendTo _ i (.docJoinResponse msg)).after ?_ ?_
      · rw [hself]
      · rw [hself]
  · -- the response does not serialize
    have hserial : ¬ (ServerMsg.docJoinResponse msg).Serializable := fun h => hvalid (h hmsg)
    unfold sendMsg
    rw [if_neg hserial]
    refine .threw (fun message => .torn message hj hid hauth hread hopen (hcontent ▸ hvalid)) ?_ ?_
    · rw [hself]
    · rw [hself]

theorem concludes_docJoin (hj : Asks payload .docJoinRequest j)
    (hauth : (s.clients i).authenticated = true) :
    Concludes s i payload ((handleDocJoin i j).run exec s) := by
  cases hid : docIdOf j with
  | error e =>
      unfold handleDocJoin
      rw [hid]
      exact concludes_throw e
  | ok docId =>
      by_cases hread : s.access.canRead docId (s.clients i).userId = true
      · cases hdoc : (s.getDocument docId).2 with
        | none =>
            unfold handleDocJoin
            rw [hid]
            refine concludes_unless (fun _ => concludes_sendMsg (.kept _) (by decide) rfl rfl) fun _ => ?_
            rw [Prog.bind_eq, Prog.run_bind, run_getDocument]
            change Concludes s i payload
              (Prog.run exec (match (s.getDocument docId).2 with | none => _ | some doc => _) (s.getDocument docId).1)
            rw [hdoc, getDocument_none hdoc]
            exact concludes_sendMsg (.kept _) (by decide) rfl rfl
        | some doc =>
            obtain ⟨session, hsession⟩ := getOrCreateSession_isSome (getDocument_some hdoc)
            refine concludes_opened hj hid hauth hread (show s.opened docId = some (doc, session) from ?_)
            unfold opened
            rw [hdoc, hsession]
      · unfold handleDocJoin
        rw [hid]
        refine concludes_unless (fun _ => concludes_sendMsg (.kept _) (by decide) rfl rfl) fun hread' => ?_
        exact absurd hread' hread

theorem concludes_cursorUpdate (hj : Asks payload .cursorUpdate j)
    (hauth : (s.clients i).authenticated = true) :
    Concludes s i payload ((handleCursorUpdate i j).run exec s) := by
  unfold handleCursorUpdate
  cases hmsg : CursorUpdateMsg.fromJson j with
  | error e => exact concludes_throw e
  | ok msg =>
      refine concludes_ite (fun _ => .finished (.kept []) rfl (.nil s i)) fun hdoc => ?_
      have hdoc : (s.clients i).currentDocId = msg.docId := not_not.mp hdoc
      simp only [Prog.bind_eq, Prog.invoke_bind, Prog.run_call, exec]
      cases hsession : s.manager.getSession msg.docId with
      | none => exact .finished (.kept []) rfl (.nil s i)
      | some session => exact .finished (.moved hj hmsg hauth hdoc hsession) rfl (.nil s i)

theorem clients_enqueueAll (ref : ℕ) (cmds : List (DocCommand UInt8 SessionId)) :
    (s.enqueueAll ref cmds).clients = s.clients := by
  unfold enqueueAll
  induction cmds generalizing s with
  | nil => rfl
  | cons cmd cmds ih => exact ih

theorem concludes_operation (hj : Asks payload .operation j)
    (hauth : (s.clients i).authenticated = true) :
    Concludes s i payload ((handleOperation i j).run exec s) := by
  unfold handleOperation
  cases hmsg : OperationMsg.fromJson j with
  | error e => exact concludes_throw e
  | ok msg =>
      refine concludes_ite (fun _ => concludes_sendError _ _) fun hdoc => ?_
      have hdoc : (s.clients i).currentDocId = msg.docId := not_not.mp hdoc
      refine concludes_unless (fun _ => concludes_sendError _ _) fun hedit => ?_
      refine concludes_ite (fun _ => concludes_sendError _ _) fun hlength => ?_
      simp only [Prog.bind_eq, Prog.invoke_bind, Prog.run_call, exec]
      cases hsession : s.manager.getSession msg.docId with
      | none => exact concludes_sendError _ _
      | some session =>
          dsimp only
          rw [run_enqueueOperations]
          refine .finished (.operated hj hmsg hauth hdoc hedit (not_lt.mp hlength) hsession) rfl ?_
          exact (Replied.nil _ i).after (congrArg (fun clients => (clients i).sent) (clients_enqueueAll _ _))
            (congrArg (fun clients => (clients i).disconnected) (clients_enqueueAll _ _))

theorem clients_sendTo_of_ne {k : SessionId} (hk : k ≠ i) (msg : ServerMsg UInt8) :
    (s.sendTo i msg).clients k = s.clients k := by
  unfold sendTo
  split_ifs
  · rfl
  · exact setClient_of_ne s hk _

/-- The session that a user id is found under has this user id. -/
theorem userId_sessionByUserId {userId : UInt32} {k : SessionId} (h : s.sessionByUserId userId = some k) :
    (s.clients k).userId = userId := by
  have hk := List.find?_some h
  rw [Bool.and_eq_true] at hk
  exact eq_of_beq hk.2

/-- The roleChanged of a share goes to another session. -/
theorem run_announceRole {targetId : UInt32} (msg : DocShareRequestMsg)
    (hother : targetId ≠ (t.clients i).userId) :
    ∃ s', (announceRole i targetId msg).run exec t = (s', .ok ()) ∧ s'.core = t.core ∧
      t.Replied s' i [.docShareResponse true] := by
  have hcore := core_sendTo t i (.docShareResponse true)
  have hsent := sent_sendTo t i (.docShareResponse true)
  have huser : ((t.sendTo i (.docShareResponse true)).clients i).userId = (t.clients i).userId := by
    have hc := congrArg ClientSession.userId (quiet_of_core hcore i)
    exact hc
  unfold announceRole
  simp only [Prog.bind_eq, Prog.invoke_bind]
  rw [Prog.run_bind, run_sendMsg (m := .docShareResponse true) trivial]
  generalize t.sendTo i (.docShareResponse true) = u at *
  simp only [Prog.run_call, exec]
  cases hfind : u.sessionByUserId targetId with
  | none => exact ⟨u, rfl, hcore, hsent⟩
  | some k =>
      have hk : i ≠ k := by
        rintro rfl
        exact hother ((userId_sessionByUserId hfind).symm.trans huser)
      change ∃ s', (if (u.clients k).currentDocId = msg.docId then
        sendMsg k (.roleChanged { docId := msg.docId, newRole := msg.role }) else pure ()).run exec u = _ ∧ _
      by_cases hdoc : (u.clients k).currentDocId = msg.docId
      · rw [if_pos hdoc, run_sendMsg (m := .roleChanged _) trivial]
        refine ⟨_, rfl, (core_sendTo u k _).trans hcore, ?_⟩
        unfold Replied at hsent ⊢
        rw [clients_sendTo_of_ne hk, hsent]
      · rw [if_neg hdoc]
        exact ⟨u, rfl, hcore, hsent⟩

theorem concludes_docShare (hj : Asks payload .docShareRequest j)
    (hauth : (s.clients i).authenticated = true) :
    Concludes s i payload ((handleDocShare i j).run exec s) := by
  unfold handleDocShare
  cases hmsg : DocShareRequestMsg.fromJson j with
  | error e => exact concludes_throw e
  | ok msg =>
      refine concludes_unless (fun _ => concludes_sendError _ _) fun hown => ?_
      simp only [Prog.bind_eq, Prog.invoke_bind, Prog.run_call, exec]
      cases htarget : s.auth.findUserId msg.targetUsername with
      | none => exact concludes_sendError _ _
      | some targetId =>
          refine concludes_ite (fun _ => concludes_sendError _ _) fun hother => ?_
          have hshared : ∀ access, access = s.access.setRole msg.docId targetId msg.role →
              (msg.role = "none" ∨ msg.role = "editor" ∨ msg.role = "viewer") →
              Concludes s i payload ((announceRole i targetId msg).run exec { s with access := access }) := by
            rintro access rfl hrole
            obtain ⟨s', hrun, hcore, hreplied⟩ := run_announceRole
              (t := { s with access := s.access.setRole msg.docId targetId msg.role }) msg hother
            rw [hrun]
            exact .finished (.shared hj hmsg hauth hown htarget hother hrole) hcore (hreplied.after rfl rfl)
          refine concludes_ite (fun hnone => ?_) fun hnone => ?_
          · exact hshared _ (if_pos hnone).symm (.inl hnone)
          refine concludes_ite (fun heditor => ?_) fun heditor => ?_
          · exact hshared _ ((if_neg hnone).trans (if_pos heditor)).symm (.inr (.inl heditor))
          refine concludes_ite (fun hviewer => ?_) fun _ => concludes_sendError _ _
          · exact hshared _ ((if_neg hnone).trans (if_neg heditor)).symm (.inr (.inr hviewer))

theorem concludes_dispatch {type : MessageType} (hlock : s.manager.locked = false)
    (hj : Asks payload type j) (hauth : type ≠ .authRequest → (s.clients i).authenticated = true) :
    Concludes s i payload ((dispatch i type j).run exec s) := by
  cases type with
  | authRequest => exact concludes_authRequest hj
  | docListRequest => exact concludes_docList hlock
  | docCreateRequest => exact concludes_docCreate hlock hj (hauth (by decide))
  | docJoinRequest => exact concludes_docJoin hj (hauth (by decide))
  | docLeaveRequest => exact concludes_docLeave hj (hauth (by decide))
  | docDeleteRequest => exact concludes_docDelete hlock hj (hauth (by decide))
  | docShareRequest => exact concludes_docShare hj (hauth (by decide))
  | operation => exact concludes_operation hj (hauth (by decide))
  | cursorUpdate => exact concludes_cursorUpdate hj (hauth (by decide))
  | _ => exact concludes_sendError _ _

end Handlers

theorem run_checkAuth (i : SessionId) (type : MessageType) (s : Server) :
    (checkAuth i type).run exec s =
      if type = .authRequest ∨ (s.clients i).authenticated = true then (s, .ok true)
      else (s.refuse i "not_authenticated" "Authentication required", .ok false) := by
  unfold checkAuth
  by_cases htype : type = .authRequest
  · rw [if_pos htype, if_pos (.inl htype)]
    rfl
  · rw [if_neg htype]
    change (if (s.clients i).authenticated = true then pure true else
      (sendError i "not_authenticated" "Authentication required").bind fun _ => pure false).run exec s = _
    by_cases hauth : (s.clients i).authenticated = true
    · rw [if_pos hauth, if_pos (.inr hauth)]
      rfl
    · rw [if_neg hauth, if_neg (not_or.mpr ⟨htype, hauth⟩), Prog.run_bind, run_sendError]
      rfl

/-- An authenticated request is handled by its handler, which may throw. -/
theorem run_handleMessage {s : Server} {i : SessionId} {payload : Option Json} {type : MessageType} {j : Json}
    (hj : Asks payload type j) (hauth : (s.clients i).authenticated = true) :
    (handleMessage i payload).run exec s =
      ((dispatch i type j).tryCatch fun e =>
        sendError i "invalid_message" ("Malformed message: " ++ e.what)).run exec s := by
  obtain ⟨rfl, typeName, htype, rfl⟩ := hj
  unfold handleMessage
  dsimp only
  rw [htype]
  dsimp only
  rw [Prog.bind_eq, Prog.run_bind, run_checkAuth, if_pos (.inr hauth)]
  rfl

/-- **A request does one of the things that `Handled` lists**, and its handler returns. -/
theorem handleMessage_handled {s : Server} (hlock : s.manager.locked = false) (i : SessionId)
    (payload : Option Json) :
    ∃ s' t replies, (handleMessage i payload).run exec s = (s', .ok ()) ∧ Handled s i payload t replies ∧
      s'.core = t.core ∧ s.Replied s' i replies := by
  have hrefused : ∀ code message, ∃ s' t replies,
      (sendError i code message).run exec s = (s', .ok ()) ∧ Handled s i payload t replies ∧
        s'.core = t.core ∧ s.Replied s' i replies := fun code message =>
    ⟨_, s, _, run_sendError i code message s, .kept _, core_refuse s i code message,
      sent_refuse s i code message⟩
  unfold handleMessage
  cases payload with
  | none => exact hrefused _ _
  | some j =>
      dsimp only
      split
      · case _ typeName htype =>
          have hj : Asks (some j) (parseMessageType typeName) j := ⟨rfl, typeName, htype, rfl⟩
          generalize parseMessageType typeName = type at *
          rw [Prog.bind_eq, Prog.run_bind, run_checkAuth]
          by_cases hok : type = .authRequest ∨ (s.clients i).authenticated = true
          · rw [if_pos hok]
            dsimp only
            rw [if_pos rfl, Prog.run_tryCatch]
            have hauth : type ≠ .authRequest → (s.clients i).authenticated = true := fun h =>
              hok.resolve_left h
            cases h : (dispatch i type j).run exec s with
            | mk t result =>
                have hc := concludes_dispatch (i := i) hlock hj hauth
                rw [h] at hc
                cases hc with
                | finished hdone hcore hreplied => exact ⟨_, _, _, rfl, hdone, hcore, hreplied⟩
                | threw hdone hsent hlive =>
                    dsimp only
                    rw [run_sendError]
                    exact ⟨_, _, _, rfl, hdone _, core_refuse _ _ _ _, (sent_refuse _ _ _ _).after hsent hlive⟩
          · rw [if_neg hok]
            exact ⟨_, s, _, rfl, .kept _, core_refuse s i _ _, sent_refuse s i _ _⟩
      · exact hrefused _ _

/-! ## Disconnection -/

/-- The disconnect callback leaves the current document. -/
def leaveCurrent (s : Server) (i : SessionId) : Server :=
  let docId := (s.clients i).currentDocId
  if 0 < docId then
    let t := s.enqueueLeave i docId
    { t with manager := t.manager.removeCursor docId (s.clients i).userId }
  else s

/-- The state after the disconnect callback. -/
def disconnect (s : Server) (i : SessionId) : Server :=
  let t := s.leaveCurrent i
  { t with tcpSessions := t.tcpSessions.filter (· ≠ i) }

theorem run_handleDisconnect (i : SessionId) (s : Server) :
    (handleDisconnect i).run exec s = (s.disconnect i, .ok ()) := by
  unfold handleDisconnect disconnect leaveCurrent
  change (if 0 < (s.clients i).currentDocId then
      (currentDocId i).bind fun docId => (MessageHandler.enqueueLeave i docId).bind fun _ =>
        (currentDocId i).bind fun docId => (userId i).bind fun userId =>
          (removeCursor docId userId).bind fun _ => removeSession i
    else removeSession i).run exec s = _
  by_cases hdoc : 0 < (s.clients i).currentDocId
  · rw [if_pos hdoc]
    simp only [Prog.invoke_bind, Prog.run_call, exec, if_pos hdoc]
    rw [Prog.run_bind, run_enqueueLeave]
    simp only [Prog.run_call, Prog.run_invoke, exec, clients_enqueueLeave]
  · rw [if_neg hdoc]
    dsimp only
    rw [if_neg hdoc]
    rfl

end Server

end CollabEditor
