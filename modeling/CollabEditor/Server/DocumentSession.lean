import CollabEditor.Core.Document
import CollabEditor.Protocol.Messages
import Mathlib.Data.List.AList

/-!
# `Server.DocumentSession` — the command loop of one document

`DocumentSession` owns a `Document`, a queue of commands and the table of connected users, keyed by user
id. One thread takes the commands in order; processing a command updates the session and sends messages to
client sessions, here the list of `(session, message)` pairs in the order of the `send` calls. Client
sessions are an arbitrary type `σ`; a `weak_ptr<ClientSession>` is an `Option σ`.

## Contents
- **The session and its command handlers.**
- **Who is sent what.** `messagesTo`, and under `Owned` (a connected user's session belongs to that user)
  `messagesTo_broadcast` and `messagesTo_sendToUser`.
- **`handle_operation`.** `handleOperation_ok` and `handleOperation_error`.
-/

namespace CollabEditor

variable {α σ : Type}

/-- `server::ConnectedUser`. -/
structure ConnectedUser (σ : Type) where
  userId   : UInt32
  username : String
  color    : String
  session  : Option σ
  deriving DecidableEq, Repr

/-- `DocCommand::Type`. -/
inductive CommandType where
  | operation
  | join
  | leave
  | delete
  | shutdown
  deriving DecidableEq, Repr

/-- `server::DocCommand`. -/
structure DocCommand (α σ : Type) where
  type      : CommandType
  operation : Operation α :=
    { type := .insert, position := 0, text := [], length := 0, userId := 0, revision := 0 }
  userId    : UInt32 := 0
  username  : String := ""
  color     : String := ""
  session   : Option σ := none
  deriving DecidableEq, Repr

/-- `server::DocumentSession`. -/
structure DocumentSession (α σ : Type) where
  doc            : Document α
  commandQueue   : List (DocCommand α σ) := []
  connectedUsers : AList (fun _ : UInt32 => ConnectedUser σ) := ∅

namespace DocumentSession

/-- `enqueue_command`. -/
def enqueueCommand (s : DocumentSession α σ) (cmd : DocCommand α σ) : DocumentSession α σ :=
  { s with commandQueue := s.commandQueue ++ [cmd] }

/-- `connected_users`. -/
def connectedUserList (s : DocumentSession α σ) : List (ConnectedUser σ) :=
  s.connectedUsers.entries.map Sigma.snd

/-- `broadcast`: one send to the session of every connected user but the excluded one. -/
def broadcast (s : DocumentSession α σ) (payload : ServerMsg α) (excludeUserId : UInt32) :
    List (σ × ServerMsg α) :=
  s.connectedUsers.entries.filterMap fun e =>
    if e.1 = excludeUserId then none else e.2.session.map (·, payload)

/-- `send_to_user`. -/
def sendToUser (s : DocumentSession α σ) (userId : UInt32) (payload : ServerMsg α) :
    List (σ × ServerMsg α) :=
  match s.connectedUsers.lookup userId with
  | some user => (user.session.map (·, payload)).toList
  | none      => []

/-- `handle_join`. -/
def handleJoin (s : DocumentSession α σ) (cmd : DocCommand α σ) :
    DocumentSession α σ × List (σ × ServerMsg α) :=
  let s := { s with
    connectedUsers := s.connectedUsers.insert cmd.userId
      { userId := cmd.userId, username := cmd.username, color := cmd.color, session := cmd.session }
    doc := s.doc.subscribe cmd.userId }
  (s, s.broadcast (.userJoined
    { docId := s.doc.id, userId := cmd.userId, username := cmd.username, color := cmd.color }) cmd.userId)

/-- `handle_leave`; its broadcast has the default exclusion, user id 0. -/
def handleLeave (s : DocumentSession α σ) (cmd : DocCommand α σ) :
    DocumentSession α σ × List (σ × ServerMsg α) :=
  let s := { s with
    connectedUsers := s.connectedUsers.erase cmd.userId
    doc := s.doc.unsubscribe cmd.userId }
  (s, s.broadcast (.userLeft { docId := s.doc.id, userId := cmd.userId, username := cmd.username }) 0)

/-- `handle_operation`. -/
def handleOperation (s : DocumentSession α σ) (cmd : DocCommand α σ) :
    DocumentSession α σ × List (σ × ServerMsg α) :=
  match s.doc.applyWithOt cmd.operation with
  | (doc, .error error) =>
      let s := { s with doc := doc }
      (s, s.sendToUser cmd.userId (.error { code := "revision_too_old", message := error }))
  | (doc, .ok op) =>
      let s := { s with doc := doc }
      (s, s.sendToUser cmd.userId (.operationAck { docId := doc.id, revision := doc.revision }) ++
        s.broadcast (.operationBroadcast
          { docId := doc.id, userId := cmd.userId, username := cmd.username, revision := doc.revision,
            ops := [toEntry op] }) cmd.userId)

/-- `handle_delete`. -/
def handleDelete (s : DocumentSession α σ) : DocumentSession α σ × List (σ × ServerMsg α) :=
  ({ s with connectedUsers := ∅ }, s.broadcast (.docDeleted s.doc.id) 0)

/-- `process_command`. -/
def processCommand (s : DocumentSession α σ) (cmd : DocCommand α σ) :
    DocumentSession α σ × List (σ × ServerMsg α) :=
  match cmd.type with
  | .join      => s.handleJoin cmd
  | .leave     => s.handleLeave cmd
  | .operation => s.handleOperation cmd
  | .delete    => s.handleDelete
  | .shutdown  => (s, [])

/-- The session with what is left of its queue. -/
def setQueue (s : DocumentSession α σ) (queue : List (DocCommand α σ)) : DocumentSession α σ :=
  { s with commandQueue := queue }

/-- One turn of the loop of `run`: take the oldest command and process it. -/
def processNext (s : DocumentSession α σ) :
    Option (DocumentSession α σ × List (σ × ServerMsg α)) :=
  match s.commandQueue with
  | []          => none
  | cmd :: rest => some ((s.setQueue rest).processCommand cmd)

@[simp] theorem setQueue_doc (s : DocumentSession α σ) (queue : List (DocCommand α σ)) :
    (s.setQueue queue).doc = s.doc := rfl
@[simp] theorem setQueue_commandQueue (s : DocumentSession α σ) (queue : List (DocCommand α σ)) :
    (s.setQueue queue).commandQueue = queue := rfl
theorem processCommand_operation (s : DocumentSession α σ) {cmd : DocCommand α σ}
    (h : cmd.type = .operation) : s.processCommand cmd = s.handleOperation cmd := by
  unfold processCommand
  rw [h]

theorem processCommand_id (s : DocumentSession α σ) (cmd : DocCommand α σ) :
    (s.processCommand cmd).1.doc.id = s.doc.id := by
  unfold processCommand
  cases cmd.type with
  | operation =>
      obtain ⟨_, _, h⟩ | ⟨doc', op', h, _, _, _, _, _, hid, _⟩ := s.doc.applyWithOt_cases cmd.operation
      · unfold handleOperation
        rw [h]
      · unfold handleOperation
        rw [h]
        exact hid
  | _ => rfl

theorem processCommand_queue (s : DocumentSession α σ) (cmd : DocCommand α σ) :
    (s.processCommand cmd).1.commandQueue = s.commandQueue := by
  unfold processCommand
  cases cmd.type with
  | operation =>
      change (s.handleOperation cmd).1.commandQueue = _
      unfold handleOperation
      split
      · rfl
      · rfl
  | _ => rfl

/-- The connected users after a command. -/
def usersAfter (users : AList (fun _ : UInt32 => ConnectedUser σ)) (cmd : DocCommand α σ) :
    AList (fun _ : UInt32 => ConnectedUser σ) :=
  match cmd.type with
  | .join   => users.insert cmd.userId
      { userId := cmd.userId, username := cmd.username, color := cmd.color, session := cmd.session }
  | .leave  => users.erase cmd.userId
  | .delete => ∅
  | _       => users

theorem processCommand_users (s : DocumentSession α σ) (cmd : DocCommand α σ) :
    (s.processCommand cmd).1.connectedUsers = usersAfter s.connectedUsers cmd := by
  unfold processCommand usersAfter
  cases cmd.type with
  | operation =>
      change (s.handleOperation cmd).1.connectedUsers = _
      unfold handleOperation
      split
      · rfl
      · rfl
  | _ => rfl

/-- A turn of the loop takes the oldest command. -/
theorem processNext_cases {s t : DocumentSession α σ} {sends : List (σ × ServerMsg α)}
    (h : s.processNext = some (t, sends)) :
    ∃ cmd rest, s.commandQueue = cmd :: rest ∧ (s.setQueue rest).processCommand cmd = (t, sends) := by
  unfold processNext at h
  cases hq : s.commandQueue with
  | nil => rw [hq] at h; cases h
  | cons cmd rest =>
      rw [hq] at h
      exact ⟨cmd, rest, rfl, Option.some.inj h⟩

theorem foldl_enqueueCommand (cmds : List (DocCommand α σ)) (s : DocumentSession α σ) :
    cmds.foldl enqueueCommand s = { s with commandQueue := s.commandQueue ++ cmds } := by
  induction cmds generalizing s with
  | nil => simp
  | cons cmd cmds ih => rw [List.foldl_cons, ih]; simp [enqueueCommand]

/-! ## Who is sent what -/

theorem payload_of_mem_broadcast {s : DocumentSession α σ} {payload : ServerMsg α} {exclude : UInt32}
    {p : σ × ServerMsg α} (h : p ∈ s.broadcast payload exclude) : p.2 = payload := by
  unfold broadcast at h
  obtain ⟨e, _, he⟩ := List.mem_filterMap.mp h
  split_ifs at he
  obtain ⟨_, _, rfl⟩ := Option.map_eq_some_iff.mp he
  rfl

theorem payload_of_mem_sendToUser {s : DocumentSession α σ} {payload : ServerMsg α} {u : UInt32}
    {p : σ × ServerMsg α} (h : p ∈ s.sendToUser u payload) : p.2 = payload := by
  unfold sendToUser at h
  split at h
  · obtain ⟨_, _, rfl⟩ := Option.map_eq_some_iff.mp (Option.mem_toList.mp h)
    rfl
  · cases h

/-- The messages among `sends` that go to one session. -/
def messagesTo [DecidableEq σ] (sends : List (σ × ServerMsg α)) (i : σ) : List (ServerMsg α) :=
  sends.filterMap fun e => if e.1 = i then some e.2 else none

/-- The session connected under a user id. -/
def registered (s : DocumentSession α σ) (u : UInt32) : Option σ :=
  (s.connectedUsers.lookup u).bind ConnectedUser.session

/-- Every connected user's session is a session of that user. -/
def Owned (userOf : σ → UInt32) (s : DocumentSession α σ) : Prop :=
  ∀ u user, s.connectedUsers.lookup u = some user → ∃ i, user.session = some i ∧ userOf i = u

/-- Picking one key out of a table with distinct keys is looking it up. -/
theorem filterMap_key {β γ : Type} {l : List (Sigma fun _ : UInt32 => β)} (h : l.NodupKeys)
    (f : β → Option γ) (k : UInt32) :
    l.filterMap (fun e => if e.1 = k then f e.2 else none) = ((l.dlookup k).bind f).toList := by
  induction l with
  | nil => rfl
  | cons e l ih =>
      obtain ⟨a, b⟩ := e
      obtain ⟨hnot, hrest⟩ := List.nodupKeys_cons.mp h
      by_cases hak : a = k
      · subst hak
        have htail : l.filterMap (fun e => if e.1 = a then f e.2 else none) = [] := by
          rw [ih hrest, List.dlookup_eq_none.mpr hnot]
          rfl
        rw [List.dlookup_cons_eq, List.filterMap_cons, htail]
        simp only [if_true, Option.bind_some]
        cases f b <;> rfl
      · rw [List.dlookup_cons_ne _ _ (Ne.symm hak), List.filterMap_cons]
        simp only [if_neg hak]
        exact ih hrest

section Sends

variable [DecidableEq σ] {userOf : σ → UInt32} {s : DocumentSession α σ}

theorem messagesTo_append (xs ys : List (σ × ServerMsg α)) (i : σ) :
    messagesTo (xs ++ ys) i = messagesTo xs i ++ messagesTo ys i := List.filterMap_append

theorem mem_messagesTo {sends : List (σ × ServerMsg α)} {i : σ} {msg : ServerMsg α}
    (h : msg ∈ messagesTo sends i) : (i, msg) ∈ sends := by
  unfold messagesTo at h
  obtain ⟨p, hp, hmsg⟩ := List.mem_filterMap.mp h
  split_ifs at hmsg with hi
  cases hmsg
  rw [← hi]
  exact hp

/-- A broadcast reaches exactly the sessions connected under a user id other than the excluded one. -/
theorem messagesTo_broadcast (h : s.Owned userOf) (payload : ServerMsg α) (exclude : UInt32) (i : σ) :
    messagesTo (s.broadcast payload exclude) i =
      if userOf i ≠ exclude ∧ s.registered (userOf i) = some i then [payload] else [] := by
  unfold messagesTo broadcast
  rw [List.filterMap_filterMap]
  -- an entry contributes only if its key is the user of session `i`
  have hkey : ∀ e ∈ s.connectedUsers.entries,
      ((if e.1 = exclude then none else e.2.session.map (·, payload)).bind
        fun e => if e.1 = i then some e.2 else none) =
      (if e.1 = userOf i then
        (if userOf i ≠ exclude ∧ e.2.session = some i then some payload else none) else none) := by
    intro e he
    obtain ⟨j, hj, huser⟩ := h e.1 e.2 (AList.mem_lookup_iff.mpr he)
    rw [hj]
    by_cases hij : j = i
    · subst hij
      by_cases hex : e.1 = exclude
      · simp [huser, hex]
      · simp [huser, hex]
    · by_cases hex : e.1 = exclude
      · simp [hex, hij]
      · simp [hex, hij]
  rw [List.filterMap_congr hkey, filterMap_key s.connectedUsers.nodupKeys
    (fun user => if userOf i ≠ exclude ∧ user.session = some i then some payload else none)]
  unfold registered AList.lookup
  cases hl : List.dlookup (userOf i) s.connectedUsers.entries with
  | none => simp
  | some user =>
      by_cases hc : userOf i ≠ exclude ∧ user.session = some i
      · simp [hc]
      · simp only [Option.bind_some, if_neg hc]
        rfl

/-- `send_to_user` reaches exactly the session connected under that user id. -/
theorem messagesTo_sendToUser (h : s.Owned userOf) (payload : ServerMsg α) (u : UInt32) (i : σ) :
    messagesTo (s.sendToUser u payload) i =
      if userOf i = u ∧ s.registered (userOf i) = some i then [payload] else [] := by
  unfold messagesTo sendToUser registered
  cases hl : s.connectedUsers.lookup u with
  | none =>
      by_cases hu : userOf i = u
      · rw [hu, hl]
        simp
      · simp [hu]
  | some user =>
      obtain ⟨j, hj, huser⟩ := h u user hl
      dsimp only
      rw [hj]
      by_cases hu : userOf i = u
      · rw [hu, hl, Option.bind_some, hj]
        by_cases hij : j = i
        · simp [hij]
        · simp [hij]
      · have hij : j ≠ i := fun hij => hu (hij ▸ huser)
        simp [hij, hu]

end Sends

/-! ## `handle_operation` -/

section Operation

variable {s : DocumentSession α σ} {cmd : DocCommand α σ} {doc : Document α}

theorem handleOperation_fst (s : DocumentSession α σ) (cmd : DocCommand α σ) :
    (s.handleOperation cmd).1 = { s with doc := (s.doc.applyWithOt cmd.operation).1 } := by
  unfold handleOperation
  rcases s.doc.applyWithOt cmd.operation with ⟨doc, error | op⟩ <;> rfl

theorem handleOperation_ok {op : Operation α} (h : s.doc.applyWithOt cmd.operation = (doc, .ok op)) :
    (s.handleOperation cmd).2 =
      s.sendToUser cmd.userId (.operationAck { docId := doc.id, revision := doc.revision }) ++
        s.broadcast (.operationBroadcast
          { docId := doc.id, userId := cmd.userId, username := cmd.username, revision := doc.revision,
            ops := [toEntry op] }) cmd.userId := by
  unfold handleOperation
  rw [h]
  rfl

theorem handleOperation_error {error : String}
    (h : s.doc.applyWithOt cmd.operation = (doc, .error error)) :
    (s.handleOperation cmd).2 =
      s.sendToUser cmd.userId (.error { code := "revision_too_old", message := error }) := by
  unfold handleOperation
  rw [h]
  rfl

/-- Only a stored operation is acknowledged. -/
theorem accepts_of_ack {p : σ × ServerMsg α} (h : p ∈ (s.processCommand cmd).2) (hack : p.2.isAck = true) :
    cmd.type = .operation ∧ s.doc.Accepts cmd.operation := by
  unfold processCommand at h
  cases ht : cmd.type with
  | operation =>
      refine ⟨rfl, fun hold => ?_⟩
      rw [ht] at h
      have happ : s.doc.applyWithOt cmd.operation = (s.doc, .error "revision_too_old") := by
        unfold Document.applyWithOt
        exact if_pos hold
      change p ∈ (s.handleOperation cmd).2 at h
      rw [handleOperation_error happ] at h
      rw [payload_of_mem_sendToUser h] at hack
      cases hack
  | shutdown => rw [ht] at h; cases h
  | _ =>
      rw [ht] at h
      rw [payload_of_mem_broadcast h] at hack
      cases hack

/-- **Who hears of an accepted operation**: the session connected under the author's id gets one
    acknowledgement, every other connected session one broadcast, and nobody else anything. -/
theorem messagesTo_handleOperation [DecidableEq σ] {userOf : σ → UInt32} (ho : s.Owned userOf)
    {op : Operation α} (h : s.doc.applyWithOt cmd.operation = (doc, .ok op)) (i : σ) :
    messagesTo (s.handleOperation cmd).2 i =
      if s.registered (userOf i) = some i then
        [if userOf i = cmd.userId then .operationAck { docId := doc.id, revision := doc.revision }
          else .operationBroadcast
            { docId := doc.id, userId := cmd.userId, username := cmd.username, revision := doc.revision,
              ops := [toEntry op] }]
      else [] := by
  rw [handleOperation_ok h, messagesTo_append, messagesTo_sendToUser ho, messagesTo_broadcast ho]
  by_cases hr : s.registered (userOf i) = some i
  · by_cases hu : userOf i = cmd.userId
    · simp [hu]
    · simp [hr, hu]
  · simp [hr]

end Operation

end DocumentSession

end CollabEditor
