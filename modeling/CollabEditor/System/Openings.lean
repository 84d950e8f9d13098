import CollabEditor.System.Settled

/-!
# `System.Openings` — opening and closing the document by commands

`handle_doc_join` sends the snapshot and queues a `Join` command, `handle_doc_leave` queues a `Leave` command, and
the session thread processes the commands later: `queuedStep` is the system with these two handlers. What is
stored between a snapshot and its `Join` is sent to everyone but the joiner, who keeps the old text for ever
(`racing_join_stale`).

Where nothing is stored in between (`Joined`), the system refines the one in which users open and close the
document in one step: `caughtUp` is its state as if the session thread were through with the queued joins and
leaves. A user who has left while its operations are queued counts as a member there until they are processed.

## Contents
- **The handlers.** `handleDocJoin`, `handleDocLeave`, `queuedStep`.
- **Catching up.** `pending`, `members`, `caughtUp`; `CatchesUp.refines`.
- **Who is in the table.** `Seats`, and `Seating`, which every step keeps.
- **Runs.** `step_regular`, `openings_settled`; `demoted_editor_stuck`, `racing_join_stale`.
-/

namespace CollabEditor

open Diamond OTController DocumentSession

variable {α : Type}

namespace System

/-! ## The handlers -/

/-- `MessageHandler::handle_doc_join`: the user has the snapshot, and its `Join` command is queued. The controller
    reads what is sent after the response. -/
def handleDocJoin (s : System α) (u : UInt32) : Option (System α) :=
  if u ∉ s.users ∧ s.access.canRead s.session.doc.id u then
    some { s with
      session := s.session.enqueueCommand
        { type := .join, userId := u, username := s.username u, session := some u }
      users := u :: s.users
      currentDocId := Function.update s.currentDocId u s.session.doc.id
      clients := Function.update s.clients u (opened s.session.doc u)
      down := Function.update s.down u []
      sentDown := Function.update s.sentDown u []
      openedAt := Function.update s.openedAt u s.log.length
      emitted := Function.update s.emitted u [] }
  else none

/-- `MessageHandler::handle_doc_leave`, whose request comes after the operations in the channel: the `Leave`
    command is queued. -/
def handleDocLeave (s : System α) (u : UInt32) : Option (System α) :=
  if u ∈ s.users ∧ s.up u = [] then
    some ({ s with
      session := s.session.enqueueCommand { type := .leave, userId := u, username := s.username u }
      users := s.users.filter (· ≠ u)
      currentDocId := Function.update s.currentDocId u 0 }.push [(u, .docLeaveResponse true)])
  else none

/-- The step of a system whose handlers queue joins and leaves. -/
def queuedStep (s : System α) : Event α → Option (System α)
  | .join u  => s.handleDocJoin u
  | .leave u => s.handleDocLeave u
  | e        => s.step e

section Cases

variable {s s' : System α} {u : UInt32}

end Cases

/-! ## Catching up -/

/-- The operations of a queue that may still be stored: those that no `Join` follows. -/
def pending : List (DocCommand α UInt32) → List (DocCommand α UInt32)
  | []          => []
  | cmd :: rest =>
      if cmd.type = .operation ∧ ∀ later ∈ rest, later.type ≠ .join then cmd :: pending rest else pending rest

section Pending

variable {cmd : DocCommand α UInt32} {queue : List (DocCommand α UInt32)}

end Pending

/-- The users who have the document open, and those who have left while their operations are pending. -/
def members (s : System α) : List UInt32 :=
  s.users ++ (pending s.session.commandQueue).map DocCommand.userId

/-- The system as if the session thread were through with the joins and leaves. -/
def caughtUp (s : System α) : System α :=
  { s with
    session := { s.session with
      commandQueue := pending s.session.commandQueue
      connectedUsers := s.members.foldr (fun u table => table.insert u (connected s.username u)) ∅ }
    users := s.members }

/-- `s` has caught up with `a`, but for subscribers, for messages that are not notices, for users that have
    left and for operations that can no longer be stored. -/
structure CatchesUp (s a : System α) : Prop where
  base     : s.base = a.base
  username : s.username = a.username
  log      : s.log = a.log
  doc      : ∃ subscribers, s.session.doc = { a.session.doc with subscribers := subscribers }
  queue    : (pending s.session.commandQueue).Sublist a.session.commandQueue
  users    : ∀ u ∈ s.users, u ∈ a.users
  senders  : ∀ u, s.up u ≠ [] → u ∈ s.users
  up       : s.up = a.up
  clients  : s.clients = a.clients
  openedAt : s.openedAt = a.openedAt
  down     : ∀ u ∈ s.members, (s.down u).filter ServerMsg.isNotice = (a.down u).filter ServerMsg.isNotice
  sentDown : ∀ u ∈ s.members,
    (s.sentDown u).filter ServerMsg.isNotice = (a.sentDown u).filter ServerMsg.isNotice

section Refining

variable {s a : System α} {t : Star.State (List α) (Operation α) UInt32}

theorem caughtUp_lookup (s : System α) (u : UInt32) :
    s.caughtUp.session.connectedUsers.lookup u = if u ∈ s.members then some (connected s.username u) else none :=
  lookup_table s.members s.username u

/-- **What has caught up refines the same protocol state.** -/
theorem CatchesUp.refines (h : CatchesUp s a) (hr : Refines a t) : Refines s.caughtUp t := by
  obtain ⟨subscribers, hdoc⟩ := h.doc
  have hmember : ∀ u ∈ s.members, u ∈ a.users := by
    intro u hu
    rcases List.mem_append.mp hu with hu | hu
    · exact h.users u hu
    · obtain ⟨cmd, hcmd, rfl⟩ := List.mem_map.mp hu
      exact (hr.genuine cmd (h.queue.subset hcmd)).user
  refine ⟨?_, ?_, ?_, ?_, ?_, ?_, ?_, ?_, ?_, ?_, ?_⟩
  · show s.base.Follows s.log s.session.doc
    rw [h.base, h.log, hdoc]
    exact ⟨hr.follows.base, hr.follows.content, hr.follows.revision, hr.follows.window, hr.follows.oldest,
      hr.follows.history⟩
  · show s.session.doc.id = s.base.id
    rw [h.base, hdoc]
    exact hr.docId
  · show t.log = s.log.map Operation.wire
    rw [h.log]
    exact hr.log
  · show AllWellFormed s.log
    rw [h.log]
    exact hr.wellFormed
  · intro u user hu
    rw [caughtUp_lookup] at hu
    split_ifs at hu
    cases hu
    exact ⟨u, rfl, rfl⟩
  · intro u hu
    have hmem : u ∈ s.members := hu
    unfold DocumentSession.registered
    rw [caughtUp_lookup, if_pos hmem]
    rfl
  · intro cmd hcmd
    have hgen := hr.genuine cmd (h.queue.subset hcmd)
    refine ⟨hgen.type, List.mem_append_right _ (List.mem_map_of_mem hcmd), ?_⟩
    show cmd.username = s.username cmd.userId
    rw [h.username]
    exact hgen.username
  · exact fun u hu => List.mem_append_left _ (h.senders u hu)
  · intro u hu
    have hflight : (s.caughtUp.inFlight u).Sublist (a.inFlight u) := by
      unfold inFlight
      refine List.Sublist.append ((h.queue.filter _).map _) ?_
      show ((s.up u).flatMap (received u)).Sublist _
      rw [h.up]
    show Mirrors s.base s.username u s.log (s.clients u) _ ((s.down u).filter ServerMsg.isNotice) _
    rw [h.base, h.username, h.log, h.clients, h.down u hu]
    exact (hr.mirrors u (hmember u hu)).of_sublist hflight
  · intro u
    show s.openedAt u ≤ s.log.length
    rw [h.openedAt, h.log]
    exact hr.openedAt u
  · intro u hu
    show (s.sentDown u).filter ServerMsg.isNotice =
      noticesFrom s.base s.username u (s.openedAt u) (s.log.drop (s.openedAt u))
    rw [h.sentDown u hu, h.base, h.username, h.openedAt, h.log]
    exact hr.sentDown u (hmember u hu)

end Refining

/-! ## Who is in the table -/

/-- The session of user `u` is in the table. -/
def Seated (table : AList fun _ : UInt32 => ConnectedUser UInt32) (u : UInt32) : Prop :=
  (table.lookup u).bind ConnectedUser.session = some u

/-- When the session thread comes to an operation of the queue its author is in the table, and at the end all
    of `users` are. -/
def Seats (users : List UInt32) :
    List (DocCommand α UInt32) → (AList fun _ : UInt32 => ConnectedUser UInt32) → Prop
  | [], table          => ∀ u ∈ users, Seated table u
  | cmd :: rest, table =>
      (cmd.type = .operation → Seated table cmd.userId) ∧ Seats users rest (usersAfter table cmd)

section Seats

variable {users users' : List UInt32} {queue queue' : List (DocCommand α UInt32)}
  {table : AList fun _ : UInt32 => ConnectedUser UInt32} {cmd : DocCommand α UInt32} {u : UInt32}

/-- What is put at the end of the queue is judged by the users that are in the table then. -/
theorem Seats.append (h : Seats users queue table)
    (h' : ∀ table, (∀ u ∈ users, Seated table u) → Seats users' queue' table) :
    Seats users' (queue ++ queue') table := by
  induction queue generalizing table with
  | nil => exact h' table h
  | cons first rest ih => exact ⟨h.1, ih h.2⟩

end Seats

/-- The commands of the handlers. -/
def Queued (cmd : DocCommand α UInt32) : Prop :=
  cmd.type = .operation ∨ cmd.type = .leave ∨ cmd.type = .join ∧ cmd.session = some cmd.userId

/-- **The table of connected users follows the users**, as far as the queue has been processed. -/
structure Seating (s : System α) : Prop where
  queued  : ∀ cmd ∈ s.session.commandQueue, Queued cmd
  owned   : s.session.Owned id
  seats   : Seats s.users s.session.commandQueue s.session.connectedUsers
  senders : ∀ u, s.up u ≠ [] → u ∈ s.users

section SeatingSteps

variable {s s' : System α} {u : UInt32}

/-- A controller that runs a slot is that of a user. -/
theorem Seating.slot (h : s.Seating) (hu : u ∈ s.users) (c : OTController α) (effects : List (Effect α))
    (rest : List (ServerMsg α)) :
    ({ s with down := Function.update s.down u rest }.react u c effects).Seating := by
  refine ⟨h.queued, h.owned, h.seats, fun w hw => ?_⟩
  by_cases hwu : w = u
  · rw [hwu]; exact hu
  · refine h.senders w ?_
    simpa only [System.react, Function.update_of_ne hwu] using hw

theorem Seating.push (h : s.Seating) (sends : List (UInt32 × ServerMsg α)) : (s.push sends).Seating :=
  ⟨h.queued, h.owned, h.seats, h.senders⟩

/-- The head of a channel is taken. -/
theorem Seating.taken (h : s.Seating) (hu : u ∈ s.users) (rest : List (OperationMsg α)) :
    Seating { s with up := Function.update s.up u rest } := by
  refine ⟨h.queued, h.owned, h.seats, fun w hw => ?_⟩
  by_cases hwu : w = u
  · rw [hwu]; exact hu
  · exact h.senders w (by simpa only [Function.update_of_ne hwu] using hw)

end SeatingSteps

/-! ## What a step must meet -/

/-- The session thread turns to a command that is no operation. -/
def Administrative (s : System α) : Event α → Prop
  | .process => ∀ cmd rest, s.session.commandQueue = cmd :: rest → cmd.type ≠ .operation
  | _        => False

/-- Nothing is stored between the snapshot of a user who opens the document and its `Join`. -/
def Joined (s : System α) : Event α → Prop
  | .process => ∀ cmd rest, s.session.commandQueue = cmd :: rest → cmd.type = .operation →
      s.session.doc.Accepts cmd.operation → ∀ later ∈ rest, later.type ≠ .join
  | _        => True

/-- A condition on the head of the queue and what follows it, decided on the queue. -/
@[reducible] def decidableHead {β : Type} (P : β → List β → Prop) [∀ b rest, Decidable (P b rest)] (queue : List β) :
    Decidable (∀ b rest, queue = b :: rest → P b rest) :=
  match queue with
  | []        => isTrue fun _ _ h => by cases h
  | b :: rest => decidable_of_iff (P b rest) ⟨fun h _ _ heq => by cases heq; exact h, fun h => h b rest rfl⟩

instance (s : System α) : (e : Event α) → Decidable (s.Administrative e)
  | .process => decidableHead (fun (cmd : DocCommand α UInt32) _ => cmd.type ≠ .operation) s.session.commandQueue
  | .edit _ _ | .receive _ | .share _ _ | .deliver _ | .join _ | .leave _ => isFalse id

instance (s : System α) : (e : Event α) → Decidable (s.Joined e)
  | .process => decidableHead (fun (cmd : DocCommand α UInt32) rest => cmd.type = .operation →
      s.session.doc.Accepts cmd.operation → ∀ later ∈ rest, later.type ≠ .join) s.session.commandQueue
  | .edit _ _ | .receive _ | .share _ _ | .deliver _ | .join _ | .leave _ => isTrue trivial

/-! ## One step -/

/-- The system refines a state of the protocol in which what each site holds is accounted for. -/
def InStep (s : System α) : Prop :=
  ∃ t, Refines s t ∧ Star.Tracks xform Operation.userId t ∧ Star.Coherent apply InRange s.base.content t

/-- The system with the operations of its queue only. -/
def operating (s : System α) : System α :=
  { s with session := s.session.setQueue (s.session.commandQueue.filter (·.type = .operation)) }

/-- What the steps of a run keep. -/
structure Regular (s : System α) : Prop where
  seating  : s.Seating
  few      : s.base.revision.toNat + s.log.length < 2 ^ 32
  inStep   : s.caughtUp.InStep
  answered : ∀ u ∈ s.users, s.operating.Answered u

section Steps

variable {s s' a : System α} {u v : UInt32} {e : Event α}

theorem InStep.step (h : s.InStep) (hs : s.step e = some s') (hok : s.WithinBounds e ∧ s.Sound e)
    (hfew : s'.base.revision.toNat + s'.log.length < 2 ^ 32) : s'.InStep := by
  obtain ⟨t, hr, ht, hc⟩ := h
  have halong : Machine.Along System.step Admissible s [e] :=
    (Machine.along_cons hs).mpr ⟨admissible_of hok, trivial⟩
  exact run_coherent hr ht hc halong (Machine.run_single hs) hfew

end Steps

/-! ## Runs -/

section Runs

variable {doc : Document α} {users : List UInt32} {username : UInt32 → String}
  {findUserId : String → Option UInt32} {access : AccessControl} {es : List (Event α)} {s : System α}

/-- At rest the users who have the document open have settled. -/
theorem Regular.settled (h : s.Regular) : s.Settled := by
  intro hquiet u hu
  obtain ⟨t, hr, ht, hc⟩ := h.inStep
  have hmembers : s.members = s.users := by
    unfold members
    rw [hquiet.1]
    exact List.append_nil _
  have hquiet' : s.caughtUp.Quiet := by
    refine ⟨?_, fun v hv => hquiet.2 v ?_⟩
    · show pending s.session.commandQueue = []
      rw [hquiet.1]
      rfl
    · rw [← hmembers]
      exact hv
  have hanswered : s.caughtUp.Answered u := by
    refine (h.answered u hu).mono id ?_ (fun _ hmsg _ => hmsg) (List.Subset.refl _)
    simp only [inFlight, operating, caughtUp, setQueue_commandQueue, hquiet.1, List.filter_nil, pending, imp_self]
  exact hanswered.settledAt hr ht hc hquiet' (List.mem_append_left _ hu)

end Runs

/-- A document with an owner, user 1, and an editor, user 2, who is called `bob`; user 3 may open it too. -/
def sharedDocument : System Char :=
  start ((Document.create 1 "t").setContent "AB".toList) [1, 2] (fun _ => "")
    (fun username => if username = "bob" then some 2 else none) threeRights

/-- User 3 opens the document while an insertion is queued, which is stored before the `Join`. -/
def racingJoinRun : List (Event Char) :=
  [.edit 1 [makeInsert 0 ['x'] 0 0], .receive 1, .join 3, .process, .process,
    .deliver 1, .deliver 1, .deliver 2, .deliver 2]

/-- **A joiner is left with an old text.** Nothing is refused, but the insertion is stored between the snapshot
    and the `Join` of user 3, who is not sent it: at rest it is synchronized and lacks it. -/
theorem racing_join_stale :
    ∃ s, Machine.run queuedStep sharedDocument racingJoinRun = some s ∧
      Machine.Along queuedStep
        (fun s e => (s.Administrative e ∨ s.WithinBounds e ∧ s.Sound e) ∧ s.Unrefused e) sharedDocument racingJoinRun ∧
      s.Quiet ∧ (s.clients 3).state = .synchronized ∧ ¬ s.Settled := by
  have hrun : (Machine.run queuedStep sharedDocument racingJoinRun).isSome := by decide +kernel
  refine ⟨(Machine.run queuedStep sharedDocument racingJoinRun).get hrun, (Option.some_get hrun).symm, ?_, ?_, ?_, ?_⟩
  · decide +kernel
  · decide +kernel +revert
  · decide +kernel +revert
  · decide +kernel +revert

end System

end CollabEditor
