import CollabEditor.Lib.Prog
import CollabEditor.Protocol.Json
import CollabEditor.Server.AccessControl
import CollabEditor.Server.AuthManager
import CollabEditor.Server.DocumentManager

/-!
# `Server.Calls` — the shared objects of the server and the calls on them

The threads of the server share the accounts, the rights, the documents and the client sessions. `Call` lists
the calls that a message handler makes on them, each one atomic, and `exec` says what a call does and
returns. A handler is a `Prog` of calls. Calls of the logger are left out.

## Contents
- **The state.** `ClientSession`, `Environment`, `Server`.
- **The calls.** `Call`, `Call.Result`, `exec`, and `ready`, which makes a call wait for the manager's lock.
- **Handlers.** `Handler`, with one abbreviation for each call.
-/

namespace CollabEditor

/-- `server::ClientSession`; `sent` is what has been put into its write queue. -/
structure ClientSession where
  authenticated : Bool := false
  userId        : UInt32 := 0
  username      : String := ""
  color         : String := ""
  currentDocId  : UInt32 := 0
  disconnected  : Bool := false
  errorCount    : ℕ := 0
  closed        : Bool := false
  sent          : List (ServerMsg UInt8) := []

/-- What comes from outside: the hash function, the salts drawn at registrations (by the id that the user
    gets), and the colours, which are computed in floating point. -/
structure Environment where
  sha256Hex     : String → String
  salt          : UInt32 → String
  generateColor : UInt32 → String

/-- The objects that the threads of the server share. -/
structure Server where
  env         : Environment
  auth        : AuthManager := {}
  access      : AccessControl := {}
  manager     : DocumentManager := {}
  clients     : SessionId → ClientSession := fun _ => {}
  /-- `TcpServer::sessions_`. -/
  tcpSessions : List SessionId := []

/-- The atomic calls on the shared objects. -/
inductive Call where
  -- ClientSession
  | isAuthenticated (i : SessionId)
  | userId (i : SessionId)
  | username (i : SessionId)
  | color (i : SessionId)
  | currentDocId (i : SessionId)
  | setAuth (i : SessionId) (userId : UInt32) (username color : String)
  | setCurrentDoc (i : SessionId) (docId : UInt32)
  | send (i : SessionId) (msg : ServerMsg UInt8)
  | incrementErrorCount (i : SessionId)
  | close (i : SessionId)
  -- AuthManager
  | registerUser (username password : String)
  | login (username password : String)
  | findUserId (username : String)
  | generateColor (userId : UInt32)
  -- AccessControl
  | getRole (docId userId : UInt32)
  | canRead (docId userId : UInt32)
  | canEdit (docId userId : UInt32)
  | canShare (docId userId : UInt32)
  | canDelete (docId userId : UInt32)
  | grant (docId userId : UInt32) (role : Role)
  | revoke (docId userId : UInt32)
  | revokeAllForDocument (docId : UInt32)
  | listDocumentsForUser (userId : UInt32)
  -- DocumentManager
  | lock
  | unlock
  | allocate (title : String)
  | writeFiles (docId : UInt32) (title : String)
  | eraseEntries (docId : UInt32)
  | removeFiles (docId : UInt32)
  | findDocument (docId : UInt32)
  | loadFromDisk (docId : UInt32)
  | publish (docId : UInt32) (doc : Document UInt8)
  | listed (docId : UInt32)
  | getOrCreateSession (docId : UInt32)
  | getSession (docId : UInt32)
  | updateCursor (docId : UInt32) (state : CursorState)
  | getCursors (docId : UInt32)
  | removeCursor (docId userId : UInt32)
  -- Document and DocumentSession
  | getContent (ref : ℕ)
  | revision (ref : ℕ)
  | title (ref : ℕ)
  | connectedUsers (ref : ℕ)
  | enqueueCommand (ref : ℕ) (cmd : DocCommand UInt8 SessionId)
  -- TcpServer
  | findSessionByUserId (userId : UInt32)
  | removeSession (i : SessionId)

/-- What a call returns. -/
@[reducible] def Call.Result : Call → Type
  | .isAuthenticated _ => Bool
  | .userId _ => UInt32
  | .username _ => String
  | .color _ => String
  | .currentDocId _ => UInt32
  | .setAuth _ _ _ _ => Unit
  | .setCurrentDoc _ _ => Unit
  | .send _ _ => Unit
  | .incrementErrorCount _ => ℕ
  | .close _ => Unit
  | .registerUser _ _ => AuthResult
  | .login _ _ => AuthResult
  | .findUserId _ => Option UInt32
  | .generateColor _ => String
  | .getRole _ _ => Option Role
  | .canRead _ _ => Bool
  | .canEdit _ _ => Bool
  | .canShare _ _ => Bool
  | .canDelete _ _ => Bool
  | .grant _ _ _ => Unit
  | .revoke _ _ => Unit
  | .revokeAllForDocument _ => Unit
  | .listDocumentsForUser _ => List UInt32
  | .lock => Unit
  | .unlock => Unit
  | .allocate _ => UInt32
  | .writeFiles _ _ => Unit
  | .eraseEntries _ => Unit
  | .removeFiles _ => Unit
  | .findDocument _ => Option ℕ
  | .loadFromDisk _ => Option (Document UInt8)
  | .publish _ _ => ℕ
  | .listed _ => String × Int32
  | .getOrCreateSession _ => Option ℕ
  | .getSession _ => Option ℕ
  | .updateCursor _ _ => Unit
  | .getCursors _ => List CursorState
  | .removeCursor _ _ => Unit
  | .getContent _ => List UInt8
  | .revision _ => UInt32
  | .title _ => String
  | .connectedUsers _ => List (ConnectedUser SessionId)
  | .enqueueCommand _ _ => Unit
  | .findSessionByUserId _ => Option SessionId
  | .removeSession _ => Unit

namespace Server

/-- Change one client session. -/
def setClient (s : Server) (i : SessionId) (c : ClientSession) : Server :=
  { s with clients := Function.update s.clients i c }

/-- `ClientSession::send`. -/
def sendTo (s : Server) (i : SessionId) (msg : ServerMsg UInt8) : Server :=
  if (s.clients i).disconnected then s
  else s.setClient i { s.clients i with sent := (s.clients i).sent ++ [msg] }

/-- `TcpServer::find_session_by_user_id`. -/
def sessionByUserId (s : Server) (userId : UInt32) : Option SessionId :=
  s.tcpSessions.find? fun i => (s.clients i).authenticated && (s.clients i).userId == userId

/-- What a call does and returns. -/
def exec : (c : Call) → Server → Server × c.Result
  | .isAuthenticated i, s => (s, (s.clients i).authenticated)
  | .userId i, s => (s, (s.clients i).userId)
  | .username i, s => (s, (s.clients i).username)
  | .color i, s => (s, (s.clients i).color)
  | .currentDocId i, s => (s, (s.clients i).currentDocId)
  | .setAuth i userId username color, s =>
      let c := s.clients i
      let c := { c with userId := userId, username := username, color := color, authenticated := true }
      (s.setClient i c, ())
  | .setCurrentDoc i docId, s => (s.setClient i { s.clients i with currentDocId := docId }, ())
  | .send i msg, s => (s.sendTo i msg, ())
  | .incrementErrorCount i, s =>
      let count := (s.clients i).errorCount + 1
      (s.setClient i { s.clients i with errorCount := count }, count)
  | .close i, s => (s.setClient i { s.clients i with closed := true }, ())
  | .registerUser username password, s =>
      let r := s.auth.registerUser s.env.sha256Hex (s.env.salt s.auth.nextId) username password
      ({ s with auth := r.1 }, r.2)
  | .login username password, s => (s, s.auth.login s.env.sha256Hex username password)
  | .findUserId username, s => (s, s.auth.findUserId username)
  | .generateColor userId, s => (s, s.env.generateColor userId)
  | .getRole docId userId, s => (s, s.access.getRole docId userId)
  | .canRead docId userId, s => (s, s.access.canRead docId userId)
  | .canEdit docId userId, s => (s, s.access.canEdit docId userId)
  | .canShare docId userId, s => (s, s.access.canShare docId userId)
  | .canDelete docId userId, s => (s, s.access.canDelete docId userId)
  | .grant docId userId role, s => ({ s with access := s.access.grant docId userId role }, ())
  | .revoke docId userId, s => ({ s with access := s.access.revoke docId userId }, ())
  | .revokeAllForDocument docId, s => ({ s with access := s.access.revokeAllForDocument docId }, ())
  | .listDocumentsForUser userId, s => (s, s.access.listDocumentsForUser userId)
  | .lock, s => ({ s with manager := { s.manager with locked := true } }, ())
  | .unlock, s => ({ s with manager := { s.manager with locked := false } }, ())
  | .allocate title, s =>
      let r := s.manager.allocate title
      ({ s with manager := r.1 }, r.2)
  | .writeFiles docId title, s => ({ s with manager := s.manager.writeFiles docId title }, ())
  | .eraseEntries docId, s => ({ s with manager := s.manager.eraseEntries docId }, ())
  | .removeFiles docId, s => ({ s with manager := s.manager.removeFiles docId }, ())
  | .findDocument docId, s => (s, s.manager.documents.lookup docId)
  | .loadFromDisk docId, s => (s, s.manager.dataDir.load docId)
  | .publish docId doc, s =>
      let r := s.manager.publish docId doc
      ({ s with manager := r.1 }, r.2)
  | .listed docId, s => (s, s.manager.listed docId)
  | .getOrCreateSession docId, s =>
      let r := s.manager.getOrCreateSession docId
      ({ s with manager := r.1 }, r.2)
  | .getSession docId, s => (s, s.manager.getSession docId)
  | .updateCursor docId state, s => ({ s with manager := s.manager.updateCursor docId state }, ())
  | .getCursors docId, s => (s, s.manager.getCursors docId)
  | .removeCursor docId userId, s => ({ s with manager := s.manager.removeCursor docId userId }, ())
  | .getContent ref, s => (s, (s.manager.objects ref).session.doc.content)
  | .revision ref, s => (s, (s.manager.objects ref).session.doc.revision)
  | .title ref, s => (s, (s.manager.objects ref).session.doc.title)
  | .connectedUsers ref, s => (s, (s.manager.objects ref).session.connectedUserList)
  | .enqueueCommand ref cmd, s => ({ s with manager := s.manager.enqueueCommand ref cmd }, ())
  | .findSessionByUserId userId, s => (s, s.sessionByUserId userId)
  | .removeSession i, s => ({ s with tcpSessions := s.tcpSessions.filter (· ≠ i) }, ())

/-- A call that takes the manager's lock waits while another thread holds it. -/
def ready (c : Call) (s : Server) : Bool :=
  match c with
  | .lock | .findDocument _ | .publish _ _ | .getOrCreateSession _ | .getSession _ | .updateCursor _ _
  | .getCursors _ | .removeCursor _ _ => !s.manager.locked
  | _ => true

end Server

/-- A program of calls that may throw an exception of the JSON library. -/
abbrev Handler := Prog Call Call.Result JsonException

namespace Handler

abbrev call (c : Call) : Handler c.Result := Prog.invoke c

abbrev isAuthenticated (i : SessionId) : Handler Bool := call (.isAuthenticated i)
abbrev userId (i : SessionId) : Handler UInt32 := call (.userId i)
abbrev username (i : SessionId) : Handler String := call (.username i)
abbrev color (i : SessionId) : Handler String := call (.color i)
abbrev currentDocId (i : SessionId) : Handler UInt32 := call (.currentDocId i)
abbrev setAuth (i : SessionId) (userId : UInt32) (username color : String) : Handler Unit :=
  call (.setAuth i userId username color)
abbrev setCurrentDoc (i : SessionId) (docId : UInt32) : Handler Unit :=
  call (.setCurrentDoc i docId)
abbrev send (i : SessionId) (msg : ServerMsg UInt8) : Handler Unit := call (.send i msg)
abbrev incrementErrorCount (i : SessionId) : Handler ℕ := call (.incrementErrorCount i)
abbrev close (i : SessionId) : Handler Unit := call (.close i)
abbrev registerUser (username password : String) : Handler AuthResult :=
  call (.registerUser username password)
abbrev login (username password : String) : Handler AuthResult := call (.login username password)
abbrev findUserId (username : String) : Handler (Option UInt32) := call (.findUserId username)
abbrev generateColor (userId : UInt32) : Handler String := call (.generateColor userId)
abbrev getRole (docId userId : UInt32) : Handler (Option Role) := call (.getRole docId userId)
abbrev canRead (docId userId : UInt32) : Handler Bool := call (.canRead docId userId)
abbrev canEdit (docId userId : UInt32) : Handler Bool := call (.canEdit docId userId)
abbrev canShare (docId userId : UInt32) : Handler Bool := call (.canShare docId userId)
abbrev canDelete (docId userId : UInt32) : Handler Bool := call (.canDelete docId userId)
abbrev grant (docId userId : UInt32) (role : Role) : Handler Unit :=
  call (.grant docId userId role)
abbrev revoke (docId userId : UInt32) : Handler Unit := call (.revoke docId userId)
abbrev revokeAllForDocument (docId : UInt32) : Handler Unit := call (.revokeAllForDocument docId)
abbrev listDocumentsForUser (userId : UInt32) : Handler (List UInt32) :=
  call (.listDocumentsForUser userId)
abbrev lock : Handler Unit := call .lock
abbrev unlock : Handler Unit := call .unlock
abbrev allocate (title : String) : Handler UInt32 := call (.allocate title)
abbrev writeFiles (docId : UInt32) (title : String) : Handler Unit :=
  call (.writeFiles docId title)
abbrev eraseEntries (docId : UInt32) : Handler Unit := call (.eraseEntries docId)
abbrev removeFiles (docId : UInt32) : Handler Unit := call (.removeFiles docId)
abbrev findDocument (docId : UInt32) : Handler (Option ℕ) := call (.findDocument docId)
abbrev loadFromDisk (docId : UInt32) : Handler (Option (Document UInt8)) :=
  call (.loadFromDisk docId)
abbrev publish (docId : UInt32) (doc : Document UInt8) : Handler ℕ := call (.publish docId doc)
abbrev listed (docId : UInt32) : Handler (String × Int32) := call (.listed docId)
abbrev getOrCreateSession (docId : UInt32) : Handler (Option ℕ) :=
  call (.getOrCreateSession docId)
abbrev getSession (docId : UInt32) : Handler (Option ℕ) := call (.getSession docId)
abbrev updateCursor (docId : UInt32) (state : CursorState) : Handler Unit :=
  call (.updateCursor docId state)
abbrev getCursors (docId : UInt32) : Handler (List CursorState) := call (.getCursors docId)
abbrev removeCursor (docId userId : UInt32) : Handler Unit := call (.removeCursor docId userId)
abbrev getContent (ref : ℕ) : Handler (List UInt8) := call (.getContent ref)
abbrev revision (ref : ℕ) : Handler UInt32 := call (.revision ref)
abbrev title (ref : ℕ) : Handler String := call (.title ref)
abbrev connectedUsers (ref : ℕ) : Handler (List (ConnectedUser SessionId)) :=
  call (.connectedUsers ref)
abbrev enqueueCommand (ref : ℕ) (cmd : DocCommand UInt8 SessionId) : Handler Unit :=
  call (.enqueueCommand ref cmd)
abbrev findSessionByUserId (userId : UInt32) : Handler (Option SessionId) :=
  call (.findSessionByUserId userId)
abbrev removeSession (i : SessionId) : Handler Unit := call (.removeSession i)

end Handler

end CollabEditor
