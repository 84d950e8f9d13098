import CollabEditor.Lib.Machine
import CollabEditor.Server.Handling

/-!
# `Server.Running` — runs of the server

The server as a machine whose steps are whole handlers, commands processed by the documents' threads, and
turns of the cursor aggregator, in any order. A request may be handled after its connection has broken: it
was read before. `Sound` is what always holds of the documents, their sessions and the rights.

## Contents
- **The machine.** `Event`, `step`, `start`.
- **Cases.** `request_cases`, `drop_cases`, `process_cases`.
- **The invariant.** `Sound`, and `run_sound`.
-/

namespace CollabEditor

namespace Server

/-! ## The machine -/

inductive Event where
  /-- A connection is accepted. -/
  | accept (i : SessionId)
  /-- A message that session `i` has sent is handled. -/
  | request (i : SessionId) (payload : Option Json)
  /-- A connection breaks. -/
  | drop (i : SessionId)
  /-- The thread of a document session processes its next command. -/
  | process (ref : ℕ)
  /-- The thread of a document session returns. -/
  | exit (ref : ℕ)
  /-- The aggregator sends the cursors of a document. -/
  | sendCursors (docId : UInt32)

/-- `send`, for every message of a list. -/
def deliver (s : Server) (sends : List (SessionId × ServerMsg UInt8)) : Server :=
  sends.foldl (fun s p => s.sendTo p.1 p.2) s

/-- The effect of `handle_message`. -/
def handle (s : Server) (i : SessionId) (payload : Option Json) : Server :=
  ((MessageHandler.handleMessage i payload).run exec s).1

def accept (s : Server) (i : SessionId) : Option Server :=
  if i ∈ s.tcpSessions ∨ (s.clients i).disconnected then none
  else some { s with tcpSessions := i :: s.tcpSessions }

def request (s : Server) (i : SessionId) (payload : Option Json) : Option Server :=
  if i ∈ s.tcpSessions ∨ (s.clients i).disconnected then some (s.handle i payload) else none

/-- The first read error marks the session and runs the disconnect callback. -/
def drop (s : Server) (i : SessionId) : Option Server :=
  if i ∈ s.tcpSessions ∧ ¬ (s.clients i).disconnected then
    let t := s.setClient i { s.clients i with disconnected := true }
    some ((MessageHandler.handleDisconnect i).run exec t).1
  else none

def process (s : Server) (ref : ℕ) : Option Server :=
  let o := s.manager.objects ref
  if o.started ∧ ¬ o.exited then
    o.session.processNext.map fun r =>
      deliver { s with manager := s.manager.setSession ref r.1 } r.2
  else none

/-- `run` returns: it has been told to, and its queue is empty. -/
def exit (s : Server) (ref : ℕ) : Option Server :=
  let o := s.manager.objects ref
  if o.stopRequested ∧ ¬ o.exited ∧ o.session.commandQueue = [] then
    let m := s.manager
    some { s with manager := { m with objects := Function.update m.objects ref { o with exited := true } } }
  else none

/-- `broadcast_loop`, for one document. -/
def sendCursors (s : Server) (docId : UInt32) : Option Server :=
  let cursors := s.manager.getCursors docId
  if cursors = [] then some s
  else match s.manager.getSession docId with
    | none     => some s
    | some ref =>
        let users := (s.manager.objects ref).session.connectedUserList
        some (s.deliver (users.filterMap fun user =>
          user.session.map fun k => (k, .cursorBroadcast { docId := docId, cursors := cursors })))

def step (s : Server) : Event → Option Server
  | .accept i          => s.accept i
  | .request i payload => s.request i payload
  | .drop i            => s.drop i
  | .process ref       => s.process ref
  | .exit ref          => s.exit ref
  | .sendCursors docId => s.sendCursors docId

/-- The server after its start, on a data directory. -/
def start (env : Environment) (dataDir : DataDir) : Server :=
  { env := env, manager := { dataDir := dataDir } }

/-- An environment for runs on fixed inputs. -/
def plainEnvironment : Environment where
  sha256Hex := id
  salt := fun _ => ""
  generateColor := fun _ => "#000000"

/-! ## Cases -/

section Cases

variable {s s' : Server}

theorem core_deliver (sends : List (SessionId × ServerMsg UInt8)) (s : Server) :
    (s.deliver sends).core = s.core := by
  unfold deliver
  induction sends generalizing s with
  | nil => rfl
  | cons p sends ih => exact (ih _).trans (core_sendTo s p.1 p.2)

theorem manager_of_core (h : s.core = s'.core) : s.manager = s'.manager := by
  have hm := congrArg Server.manager h
  exact hm

theorem access_of_core (h : s.core = s'.core) : s.access = s'.access := by
  have ha := congrArg Server.access h
  exact ha

theorem auth_of_core (h : s.core = s'.core) : s.auth = s'.auth := by
  have ha := congrArg Server.auth h
  exact ha

theorem request_cases {i : SessionId} {payload : Option Json} (hlock : s.manager.locked = false)
    (h : step s (.request i payload) = some s') :
    ∃ t replies, Handled s i payload t replies ∧ s'.core = t.core ∧ s.Replied s' i replies := by
  change s.request i payload = some s' at h
  unfold request at h
  split_ifs at h
  cases h
  obtain ⟨s', t, replies, hrun, hhandled, hcore, hreplied⟩ := handleMessage_handled hlock i payload
  unfold handle
  rw [hrun]
  exact ⟨t, replies, hhandled, hcore, hreplied⟩

theorem accept_cases {i : SessionId} (h : step s (.accept i) = some s') :
    i ∉ s.tcpSessions ∧ (s.clients i).disconnected = false ∧
      s' = { s with tcpSessions := i :: s.tcpSessions } := by
  change s.accept i = some s' at h
  unfold accept at h
  split_ifs at h with hnew
  cases h
  rw [not_or, Bool.not_eq_true] at hnew
  exact ⟨hnew.1, hnew.2, rfl⟩

theorem drop_cases {i : SessionId} (h : step s (.drop i) = some s') :
    i ∈ s.tcpSessions ∧ (s.clients i).disconnected = false ∧
      s' = (s.setClient i { s.clients i with disconnected := true }).disconnect i := by
  change s.drop i = some s' at h
  unfold drop at h
  split_ifs at h with hlive
  dsimp only at h
  rw [run_handleDisconnect] at h
  cases h
  rw [Bool.not_eq_true] at hlive
  exact ⟨hlive.1, hlive.2, rfl⟩

theorem process_cases {ref : ℕ} (h : step s (.process ref) = some s') :
    ∃ session sends, (s.manager.objects ref).session.processNext = some (session, sends) ∧
      s'.core = { s with manager := s.manager.setSession ref session }.core := by
  change s.process ref = some s' at h
  unfold process at h
  dsimp only at h
  split_ifs at h
  obtain ⟨r, hr, rfl⟩ := Option.map_eq_some_iff.mp h
  exact ⟨r.1, r.2, hr, core_deliver r.2 _⟩

theorem exit_cases {ref : ℕ} (h : step s (.exit ref) = some s') :
    s' = { s with manager := { s.manager with
      objects := Function.update s.manager.objects ref { s.manager.objects ref with exited := true } } } := by
  change s.exit ref = some s' at h
  unfold exit at h
  dsimp only at h
  split_ifs at h
  cases h
  rfl

theorem sendCursors_core {docId : UInt32} (h : step s (.sendCursors docId) = some s') :
    s'.core = s.core := by
  change s.sendCursors docId = some s' at h
  unfold sendCursors at h
  dsimp only at h
  split_ifs at h
  · cases h
    rfl
  · split at h
    · cases h
      rfl
    · cases h
      exact core_deliver _ s

end Cases

/-! ## The invariant -/

end Server

/-- The entries of the tables are references to documents of the right id. -/
structure DocumentManager.Tables (m : DocumentManager) : Prop where
  document : ∀ {d ref}, m.documents.lookup d = some ref →
    ref < m.allocated ∧ (m.objects ref).session.doc.id = d
  session  : ∀ {d ref}, m.sessions.lookup d = some ref →
    ref < m.allocated ∧ (m.objects ref).session.doc.id = d

namespace DocumentManager.Tables

variable {m m' : DocumentManager}

/-- Fewer entries, and objects that keep their ids. -/
theorem mono (h : m.Tables)
    (hdocuments : ∀ {d ref}, m'.documents.lookup d = some ref → m.documents.lookup d = some ref)
    (hsessions : ∀ {d ref}, m'.sessions.lookup d = some ref → m.sessions.lookup d = some ref)
    (hid : ∀ ref, (m'.objects ref).session.doc.id = (m.objects ref).session.doc.id)
    (hallocated : m'.allocated = m.allocated) : m'.Tables where
  document := by
    intro d ref hd
    rw [hallocated, hid]
    exact h.document (hdocuments hd)
  session := by
    intro d ref hd
    rw [hallocated, hid]
    exact h.session (hsessions hd)

theorem setSession (h : m.Tables) {ref : ℕ} {session : DocumentSession UInt8 SessionId}
    (hid : session.doc.id = (m.objects ref).session.doc.id) : (m.setSession ref session).Tables := by
  refine h.mono id id (fun k => ?_) rfl
  rw [session_setSession]
  split_ifs with hk
  · rw [hk, hid]
  · rfl

theorem addDocument (h : m.Tables) (d : UInt32) (doc : Document UInt8) (hid : doc.id = d) :
    (m.addDocument d doc).Tables where
  document := by
    intro e ref he
    by_cases hed : e = d
    · subst hed
      have hnew := (AList.lookup_insert (b := m.allocated) m.documents).symm.trans he
      cases hnew
      refine ⟨Nat.lt_succ_self _, ?_⟩
      unfold DocumentManager.addDocument
      dsimp only
      rw [Function.update_self]
      exact hid
    · obtain ⟨hlt, hdoc⟩ := h.document ((AList.lookup_insert_ne hed).symm.trans he)
      exact ⟨Nat.lt_succ_of_lt hlt, by rw [session_addDocument m hlt, hdoc]⟩
  session := by
    intro e ref he
    obtain ⟨hlt, hdoc⟩ := h.session (m := m) he
    exact ⟨Nat.lt_succ_of_lt hlt, by rw [session_addDocument m hlt, hdoc]⟩

theorem getOrCreateSession (h : m.Tables) (d : UInt32) : (m.getOrCreateSession d).1.Tables where
  document := by
    intro e ref he
    rw [documents_getOrCreateSession] at he
    rw [allocated_getOrCreateSession, session_getOrCreateSession]
    exact h.document he
  session := by
    intro e ref he
    rw [sessions_getOrCreateSession] at he
    rw [allocated_getOrCreateSession, session_getOrCreateSession]
    split_ifs at he with hed
    · obtain hs | hd := m.getOrCreateSession_cases he
      · exact hed ▸ h.session hs
      · exact hed ▸ h.document hd
    · exact h.session he

theorem eraseEntries (h : m.Tables) (d : UInt32) : (m.eraseEntries d).Tables := by
  refine h.mono (fun {e ref} he => ?_) (fun {e ref} he => ?_) (fun ref => ?_) (allocated_eraseEntries m d)
  · rw [documents_eraseEntries] at he
    split_ifs at he
    exact he
  · rw [sessions_eraseEntries] at he
    split_ifs at he
    exact he
  · rw [session_eraseEntries]

end DocumentManager.Tables

namespace Server

/-- What always holds between two steps: the manager's lock is free, its tables are in order, and rights
    are rights on documents that exist. -/
structure Sound (s : Server) : Prop where
  unlocked : s.manager.locked = false
  tables   : s.manager.Tables
  present  : ∀ {d u}, (s.access.getRole d u).isSome → (s.manager.documents.lookup d).isSome

namespace Sound

variable {s s' t : Server}

theorem of_core (h : s.Sound) (hcore : t.core = s.core) : t.Sound := by
  have hm := manager_of_core hcore
  have ha := access_of_core hcore
  constructor
  · rw [hm]
    exact h.unlocked
  · rw [hm]
    exact h.tables
  · rw [hm, ha]
    exact h.present

theorem enqueue (h : s.Sound) (ref : ℕ) (cmd : DocCommand UInt8 SessionId) : (s.enqueue ref cmd).Sound where
  unlocked := h.unlocked
  tables := h.tables.setSession rfl
  present := h.present

theorem enqueueAll (cmds : List (DocCommand UInt8 SessionId)) (ref : ℕ) :
    ∀ {s : Server}, s.Sound → (s.enqueueAll ref cmds).Sound := by
  induction cmds with
  | nil => exact fun h => h
  | cons cmd cmds ih => exact fun h => ih (h.enqueue ref cmd)

theorem enqueueLeave (h : s.Sound) (i : SessionId) (docId : UInt32) : (s.enqueueLeave i docId).Sound := by
  unfold Server.enqueueLeave
  split
  · exact h
  · exact h.enqueue _ _

/-- A document on which somebody has a right is in memory. -/
theorem getDocument_of_read (h : s.Sound) {docId u : UInt32} (hread : s.access.canRead docId u = true) :
    ∃ ref, s.manager.documents.lookup docId = some ref ∧ s.getDocument docId = (s, some ref) := by
  obtain ⟨ref, href⟩ := Option.isSome_iff_exists.mp (h.present hread)
  refine ⟨ref, href, ?_⟩
  unfold getDocument
  rw [href]

theorem openDocument_of_read (h : s.Sound) {docId u : UInt32} (hread : s.access.canRead docId u = true) :
    s.openDocument docId = { s with manager := (s.manager.getOrCreateSession docId).1 } := by
  obtain ⟨ref, _, hget⟩ := h.getDocument_of_read hread
  unfold openDocument
  rw [hget]

theorem openDocument (h : s.Sound) {docId u : UInt32} (hread : s.access.canRead docId u = true) :
    (s.openDocument docId).Sound := by
  rw [h.openDocument_of_read hread]
  exact ⟨by rw [DocumentManager.locked_getOrCreateSession]; exact h.unlocked, h.tables.getOrCreateSession docId,
    by rw [DocumentManager.documents_getOrCreateSession]; exact h.present⟩

theorem enqueueDelete (h : s.Sound) (docId : UInt32) : (s.enqueueDelete docId).Sound := by
  unfold Server.enqueueDelete
  split
  · exact h
  · exact h.enqueue _ _

theorem deleteDocument (h : s.Sound) (docId : UInt32) : (s.deleteDocument docId).Sound where
  unlocked := by
    unfold Server.deleteDocument DocumentManager.removeFiles
    dsimp only
    rw [DocumentManager.locked_eraseEntries]
    exact h.unlocked
  tables := (h.tables.eraseEntries docId).mono id id (fun _ => rfl) rfl
  present := by
    intro d u hrole
    unfold Server.deleteDocument DocumentManager.removeFiles at hrole ⊢
    dsimp only at hrole ⊢
    rw [AccessControl.getRole_revokeAllForDocument] at hrole
    rw [DocumentManager.documents_eraseEntries]
    split_ifs at hrole ⊢
    · cases hrole
    · exact h.present hrole

theorem createDocument (h : s.Sound) (title : String) (ownerId : UInt32) :
    (s.createDocument title ownerId).Sound where
  unlocked := h.unlocked
  tables := by
    have hadd := h.tables.addDocument s.manager.nextDocId
      (Document.create s.manager.nextDocId title) rfl
    exact ⟨hadd.document, hadd.session⟩
  present := by
    intro d u hrole
    unfold Server.createDocument at hrole
    dsimp only at hrole
    change (AList.lookup d (s.manager.documents.insert s.manager.nextDocId s.manager.allocated)).isSome = true
    by_cases hd : d = s.manager.nextDocId
    · rw [hd, AList.lookup_insert]
      rfl
    · rw [AccessControl.getRole_grant, if_neg fun hk => hd hk.1] at hrole
      rw [AList.lookup_insert_ne hd]
      exact h.present hrole

/-- A change of somebody's rights on a document that exists. -/
theorem setRole (h : s.Sound) {docId : UInt32} (hdoc : (s.manager.documents.lookup docId).isSome)
    (targetId : UInt32) (role : String) :
    Sound { s with access := s.access.setRole docId targetId role } := by
  refine ⟨h.unlocked, h.tables, fun {d u} hrole => ?_⟩
  by_cases hd : d = docId
  · exact hd ▸ hdoc
  · have hkey : ¬ (d = docId ∧ u = targetId) := fun hk => hd hk.1
    dsimp only at hrole
    rw [AccessControl.getRole_setRole, if_neg hkey] at hrole
    exact h.present hrole

theorem removeCursor (h : s.Sound) (docId userId : UInt32) :
    Sound { s with manager := s.manager.removeCursor docId userId } := by
  unfold DocumentManager.removeCursor
  split
  · exact ⟨h.unlocked, h.tables.mono id id (fun _ => rfl) rfl, h.present⟩
  · exact h

theorem disconnect (h : s.Sound) (i : SessionId) : (s.disconnect i).Sound := by
  have hleave : (s.leaveCurrent i).Sound := by
    unfold leaveCurrent
    dsimp only
    split_ifs
    · exact (h.enqueueLeave i _).removeCursor _ _
    · exact h
  exact ⟨hleave.unlocked, hleave.tables, hleave.present⟩

end Sound

/-- The owner of a document may read it. -/
theorem canRead_of_owner {a : AccessControl} {d u : UInt32} (h : a.getRole d u = some .owner) :
    a.canRead d u = true := by
  unfold AccessControl.canRead
  rw [h]
  rfl

section Steps

variable {s s' t : Server}

theorem sound_handled {i : SessionId} {payload : Option Json} {replies : List (ServerMsg UInt8)}
    (h : s.Sound) (hd : Handled s i payload t replies) : t.Sound := by
  cases hd with
  | kept _ => exact h
  | authenticated _ _ _ => exact ⟨h.unlocked, h.tables, h.present⟩
  | created _ _ _ => exact h.createDocument _ _
  | torn _ _ _ _ hread _ _ =>
      have ho := h.openDocument hread
      exact ⟨ho.unlocked, ho.tables, ho.present⟩
  | joined _ _ _ hread _ _ _ =>
      have ho := h.openDocument hread
      exact Sound.enqueue (s := (s.openDocument _).setCurrentDoc i _) ⟨ho.unlocked, ho.tables, ho.present⟩ _ _
  | @left _ docId _ _ _ =>
      have hl := h.enqueueLeave i docId
      exact ⟨hl.unlocked, hl.tables, hl.present⟩
  | deleted _ _ _ _ => exact (h.enqueueDelete _).deleteDocument _
  | shared _ _ _ hown _ _ _ =>
      exact h.setRole (h.present (canRead_of_owner (eq_of_beq hown))) _ _
  | operated _ _ _ _ _ _ _ => exact h.enqueueAll _ _
  | moved _ _ _ _ _ => exact ⟨h.unlocked, h.tables.mono id id (fun _ => rfl) rfl, h.present⟩

theorem sound_step (h : s.Sound) {e : Event} (hs : step s e = some s') : s'.Sound := by
  cases e with
  | accept i =>
      obtain ⟨_, _, rfl⟩ := accept_cases hs
      exact ⟨h.unlocked, h.tables, h.present⟩
  | request i payload =>
      obtain ⟨t, _, hd, hcore, _⟩ := request_cases h.unlocked hs
      exact (sound_handled h hd).of_core hcore
  | drop i =>
      obtain ⟨_, _, rfl⟩ := drop_cases hs
      exact Sound.disconnect (s := s.setClient i _) ⟨h.unlocked, h.tables, h.present⟩ i
  | process ref =>
      obtain ⟨session, sends, hnext, hcore⟩ := process_cases hs
      obtain ⟨cmd, rest, _, hcmd⟩ := DocumentSession.processNext_cases hnext
      have hid := DocumentSession.processCommand_id
        ((s.manager.objects ref).session.setQueue rest) cmd
      rw [hcmd] at hid
      have hset : Sound { s with manager := s.manager.setSession ref session } :=
        ⟨h.unlocked, h.tables.setSession hid, h.present⟩
      exact hset.of_core hcore
  | exit ref =>
      rw [exit_cases hs]
      exact ⟨h.unlocked, h.tables.mono id id
        (fun k => congrArg (fun session => session.doc.id) (s.manager.session_update ref k
          { s.manager.objects ref with exited := true } rfl)) rfl, h.present⟩
  | sendCursors docId => exact h.of_core (sendCursors_core hs)

theorem sound_start (env : Environment) (dataDir : DataDir) : (start env dataDir).Sound where
  unlocked := rfl
  tables := by
    constructor
    · intro d ref hd
      cases hd
    · intro d ref hd
      cases hd
  present := by
    intro d u hrole
    cases hrole

/-- **Every run of the server keeps the invariant.** -/
theorem run_sound {env : Environment} {dataDir : DataDir} {es : List Event}
    (hr : Machine.run step (start env dataDir) es = some s) : s.Sound :=
  Machine.run_preserves (fun _ _ _ h hs => sound_step h hs) (sound_start env dataDir) hr

end Steps

end Server

end CollabEditor
