import CollabEditor.Server.DocumentSession

/-!
# `Server.Notification` — who hears of an operation

Client sessions send commands; the document's session keeps its members by user id. After any sequence of
joins, leaves and operations the session registered under a user id is the one that joined last under it,
unless any session of that user has left since (`registered_processAll`). An applied operation is
acknowledged to the session registered under its author's id, broadcast to the sessions registered under
the other ids, and reported to nobody else (`operation_reported`). Sessions of different users are
registered exactly while they are members; a user with two sessions is not (`second_session_gets_the_ack`).

## Contents
- **Commands of sessions.** `SessionCommand`, `processAll`.
- **Membership.** `lastJoined` by user id, `member` by session, `lastJoined_eq_iff`.
- **Reports.**
-/

namespace CollabEditor

namespace DocumentSession

variable {α σ : Type}

/-! ## Commands of sessions -/

/-- What a client session can have enqueued. -/
inductive SessionCommand (α σ : Type) where
  | join (i : σ)
  | leave (i : σ)
  | operation (i : σ) (entry : OpEntry α) (revision : UInt32)

/-- What a client session is authenticated as. -/
structure Identity where
  userId   : UInt32
  username : String
  color    : String

/-- The commands that `handle_doc_join`, `handle_doc_leave` and `handle_operation` enqueue. -/
def SessionCommand.toCommand (auth : σ → Identity) : SessionCommand α σ → DocCommand α σ
  | .join i =>
      { type := .join, userId := (auth i).userId, username := (auth i).username, color := (auth i).color,
        session := some i }
  | .leave i => { type := .leave, userId := (auth i).userId, username := (auth i).username }
  | .operation i entry revision =>
      { type := .operation, operation := fromEntry entry (auth i).userId revision,
        userId := (auth i).userId, username := (auth i).username }

/-- The session after a sequence of commands. -/
def processAll (auth : σ → Identity) (s : DocumentSession α σ) (cmds : List (SessionCommand α σ)) :
    DocumentSession α σ :=
  cmds.foldl (fun s c => (s.processCommand (c.toCommand auth)).1) s

theorem processAll_snoc (auth : σ → Identity) (s : DocumentSession α σ) (cmds : List (SessionCommand α σ))
    (c : SessionCommand α σ) :
    processAll auth s (cmds ++ [c]) = ((processAll auth s cmds).processCommand (c.toCommand auth)).1 := by
  unfold processAll
  rw [List.foldl_append]
  rfl

/-! ## Membership -/

/-- The session that joined last under a user id, if no session of that user has left since. -/
def lastJoined (auth : σ → Identity) (u : UInt32) : List (SessionCommand α σ) → Option σ :=
  List.foldl (fun last c => match c with
    | .join i  => if (auth i).userId = u then some i else last
    | .leave i => if (auth i).userId = u then none else last
    | .operation _ _ _ => last) none

/-- Has the session joined and not left? -/
def member [DecidableEq σ] (j : σ) : List (SessionCommand α σ) → Bool :=
  List.foldl (fun inside c => match c with
    | .join i  => if i = j then true else inside
    | .leave i => if i = j then false else inside
    | .operation _ _ _ => inside) false

/-- The session that a command comes from. -/
def SessionCommand.sender : SessionCommand α σ → σ
  | .join i => i
  | .leave i => i
  | .operation i _ _ => i

section Membership

variable {auth : σ → Identity} {s : DocumentSession α σ} {cmds : List (SessionCommand α σ)}

theorem lastJoined_snoc (u : UInt32) (c : SessionCommand α σ) :
    lastJoined auth u (cmds ++ [c]) = match c with
      | .join i  => if (auth i).userId = u then some i else lastJoined auth u cmds
      | .leave i => if (auth i).userId = u then none else lastJoined auth u cmds
      | .operation _ _ _ => lastJoined auth u cmds := by
  unfold lastJoined
  rw [List.foldl_append]
  rfl

theorem member_snoc [DecidableEq σ] (j : σ) (c : SessionCommand α σ) :
    member j (cmds ++ [c]) = match c with
      | .join i  => if i = j then true else member j cmds
      | .leave i => if i = j then false else member j cmds
      | .operation _ _ _ => member j cmds := by
  unfold member
  rw [List.foldl_append]
  rfl

/-- The table after a sequence of commands: one row for each user id with a session, and it is that
    session's. -/
theorem lookup_processAll (hs : s.connectedUsers = ∅) (u : UInt32) :
    ((processAll auth s cmds).connectedUsers.lookup u).map ConnectedUser.session =
      (lastJoined auth u cmds).map some := by
  induction cmds using List.reverseRecOn with
  | nil =>
      show (s.connectedUsers.lookup u).map _ = _
      rw [hs]
      rfl
  | append_singleton cmds c ih =>
      rw [processAll_snoc, lastJoined_snoc]
      cases c with
      | join i =>
          simp only [SessionCommand.toCommand, processCommand, handleJoin]
          by_cases hu : (auth i).userId = u
          · subst hu
            rw [AList.lookup_insert]
            simp only [if_true, Option.map_some]
          · rw [AList.lookup_insert_ne (Ne.symm hu)]
            simp only [if_neg hu]
            exact ih
      | leave i =>
          simp only [SessionCommand.toCommand, processCommand, handleLeave]
          by_cases hu : (auth i).userId = u
          · subst hu
            rw [AList.lookup_erase]
            simp only [if_true, Option.map_none]
          · rw [AList.lookup_erase_ne (Ne.symm hu)]
            simp only [if_neg hu]
            exact ih
      | operation i entry revision =>
          rw [processCommand_operation _ rfl, handleOperation_fst]
          exact ih

theorem registered_processAll (hs : s.connectedUsers = ∅) (u : UInt32) :
    (processAll auth s cmds).registered u = lastJoined auth u cmds := by
  have h := @lookup_processAll _ _ auth _ cmds hs u
  unfold registered
  cases hl : (processAll auth s cmds).connectedUsers.lookup u with
  | none =>
      rw [hl, Option.map_none] at h
      cases hj : lastJoined auth u cmds with
      | none => rfl
      | some i => rw [hj] at h; cases h
  | some user =>
      rw [hl, Option.map_some] at h
      cases hj : lastJoined auth u cmds with
      | none => rw [hj] at h; cases h
      | some i =>
          rw [hj] at h
          injection h

/-- A session that is registered under a user id is a session of that user. -/
theorem userId_of_lastJoined {u : UInt32} {i : σ} (h : lastJoined auth u cmds = some i) :
    (auth i).userId = u := by
  induction cmds using List.reverseRecOn with
  | nil => cases h
  | append_singleton cmds c ih =>
      rw [lastJoined_snoc] at h
      cases c with
      | join j =>
          dsimp only at h
          split_ifs at h with hu
          · cases h
            exact hu
          · exact ih h
      | leave j =>
          dsimp only at h
          split_ifs at h with hu
          exact ih h
      | operation j entry revision => exact ih h

theorem owned_processAll (hs : s.connectedUsers = ∅) :
    (processAll auth s cmds).Owned fun i => (auth i).userId := by
  intro u user hl
  have h := @lookup_processAll _ _ auth _ cmds hs u
  rw [hl, Option.map_some] at h
  cases hj : lastJoined auth u cmds with
  | none => rw [hj] at h; cases h
  | some i =>
      rw [hj] at h
      injection h with h
      exact ⟨i, h, userId_of_lastJoined hj⟩

/-- **One session per user**: if no other session of the user has sent commands, being registered is being
    a member. -/
theorem lastJoined_eq_iff [DecidableEq σ] {j : σ}
    (hone : ∀ c ∈ cmds, (auth c.sender).userId = (auth j).userId → c.sender = j) :
    lastJoined auth (auth j).userId cmds = some j ↔ member j cmds = true := by
  induction cmds using List.reverseRecOn with
  | nil => simp [lastJoined, member]
  | append_singleton cmds c ih =>
      have ih := ih fun c' hc' => hone c' (List.mem_append_left _ hc')
      have hc := hone c (List.mem_append_right _ List.mem_cons_self)
      rw [lastJoined_snoc, member_snoc]
      cases c with
      | join i =>
          have hi : (auth i).userId = (auth j).userId ↔ i = j := ⟨hc, fun h => by rw [h]⟩
          simp only [hi]
          split_ifs with hij
          · simp [hij]
          · exact ih
      | leave i =>
          have hi : (auth i).userId = (auth j).userId ↔ i = j := ⟨hc, fun h => by rw [h]⟩
          simp only [hi]
          split_ifs with hij
          · simp
          · exact ih
      | operation i entry revision => exact ih

end Membership

/-! ## Reports -/

/-- How the author's registered session, and the other registered sessions, hear of revision
    `doc.revision`. -/
def report (auth : σ → Identity) (doc : Document α) (op : Operation α) (i j : σ) : ServerMsg α :=
  if (auth j).userId = (auth i).userId then
    .operationAck { docId := doc.id, revision := doc.revision }
  else .operationBroadcast
    { docId := doc.id, userId := (auth i).userId, username := (auth i).username, revision := doc.revision,
      ops := [toEntry op] }

/-- Joins and leaves report no operation. -/
theorem isNotice_join_leave (s : DocumentSession α σ) (cmd : DocCommand α σ)
    (h : cmd.type = .join ∨ cmd.type = .leave) : ∀ p ∈ (s.processCommand cmd).2, p.2.isNotice = false := by
  intro p hp
  unfold processCommand at hp
  rcases h with ht | ht
  all_goals
    rw [ht] at hp
    rw [payload_of_mem_broadcast hp]
    rfl

/-- What the session's processing of an operation sends after a sequence of commands. -/
def reply (auth : σ → Identity) (s : DocumentSession α σ) (cmds : List (SessionCommand α σ)) (i : σ)
    (entry : OpEntry α) (revision : UInt32) : List (σ × ServerMsg α) :=
  ((processAll auth s cmds).processCommand
    ((SessionCommand.operation i entry revision).toCommand auth)).2

/-- The document and the stored operation that the processing of an operation leads to. -/
def Applied (auth : σ → Identity) (s : DocumentSession α σ) (cmds : List (SessionCommand α σ)) (i : σ)
    (entry : OpEntry α) (revision : UInt32) (doc : Document α) (op : Operation α) : Prop :=
  (processAll auth s cmds).doc.applyWithOt (fromEntry entry (auth i).userId revision) = (doc, .ok op)

section Reports

variable [DecidableEq σ] {auth : σ → Identity} {s : DocumentSession α σ}
  {cmds : List (SessionCommand α σ)} {i : σ} {entry : OpEntry α} {revision : UInt32} {doc : Document α}
  {op : Operation α}

/-- **Who hears of an applied operation**, after any sequence of commands of any sessions: the session
    registered under the author's user id by one acknowledgement of the new revision, the session registered
    under each other user id by one broadcast of it, and no other session. A session that is the only one of
    its user is registered exactly while it is a member. -/
theorem operation_reported (hs : s.connectedUsers = ∅)
    (h : Applied auth s cmds i entry revision doc op) :
    doc.revision = (processAll auth s cmds).doc.revision + 1 ∧ ∀ j,
      messagesTo (reply auth s cmds i entry revision) j =
        (if lastJoined auth (auth j).userId cmds = some j then [report auth doc op i j] else []) ∧
      ((∀ c ∈ cmds, (auth c.sender).userId = (auth j).userId → c.sender = j) →
        (lastJoined auth (auth j).userId cmds = some j ↔ member j cmds = true)) := by
  refine ⟨?_, fun j => ⟨?_, lastJoined_eq_iff⟩⟩
  · rcases (processAll auth s cmds).doc.applyWithOt_cases (fromEntry entry (auth i).userId revision) with
      ⟨_, _, happ⟩ | ⟨doc', op', happ, _, _, hrev, _⟩
    · rw [Applied, happ] at h
      cases h
    · rw [Applied, happ] at h
      cases h
      exact hrev
  · unfold reply
    unfold Applied at h
    rw [processCommand_operation _ rfl, messagesTo_handleOperation (owned_processAll hs) h,
      registered_processAll hs]
    rfl

/-- The report that the sessions' own view asks for: an acknowledgement to the session that submitted the
    operation, and a broadcast to every other member. -/
def ReportedBySession (auth : σ → Identity) (s : DocumentSession α σ) (cmds : List (SessionCommand α σ))
    (i : σ) (entry : OpEntry α) (revision : UInt32) : Prop :=
  ∀ doc op, Applied auth s cmds i entry revision doc op →
    messagesTo (reply auth s cmds i entry revision) i =
        [.operationAck { docId := doc.id, revision := doc.revision }] ∧
      ∀ j, j ≠ i → member j cmds = true → messagesTo (reply auth s cmds i entry revision) j =
        [.operationBroadcast
          { docId := doc.id, userId := (auth i).userId, username := (auth i).username,
            revision := doc.revision, ops := [toEntry op] }]

end Reports

/-- A document session without members. -/
def emptySession : DocumentSession Char ℕ := { doc := Document.create 1 "t" }

/-- Sessions 1 and 2 of user 7, and a session 3 of user 8. -/
def twoDevices (i : ℕ) : Identity := { userId := if i = 3 then 8 else 7, username := "", color := "" }

theorem operation_reported_devices :
    messagesTo (reply twoDevices emptySession [.join 1, .join 2, .join 3] 3
        { op := "insert", pos := 0, text := ['x'] } 0) 2 =
      [.operationBroadcast
        { docId := 1, userId := 8, username := "", revision := 1,
          ops := [{ op := "insert", pos := 0, text := ['x'] }] }] := by
  have h : Applied twoDevices emptySession [.join 1, .join 2, .join 3] 3
      { op := "insert", pos := 0, text := ['x'] } 0 _ _ := rfl
  exact ((operation_reported rfl h).2 2).1.trans (by decide)

/-- **Reports go to users, not to sessions.** After sessions 1 and 2 of one user have joined, the
    acknowledgement of an operation of session 1 goes to session 2; and a session that has not joined gets
    no acknowledgement. -/
theorem second_session_gets_the_ack :
    ¬ ReportedBySession twoDevices emptySession [.join 1, .join 2] 1
        { op := "insert", pos := 0, text := ['x'] } 0 ∧
      ¬ ReportedBySession twoDevices emptySession [] 1 { op := "insert", pos := 0, text := ['x'] } 0 :=
  ⟨fun h => absurd (h _ _ rfl).1 (by decide), fun h => absurd (h _ _ rfl).1 (by decide)⟩

end DocumentSession

end CollabEditor
