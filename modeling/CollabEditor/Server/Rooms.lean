import CollabEditor.Server.Running

/-!
# `Server.Rooms` — the sessions of the documents

What each part of a handler does to the objects of the heap (`sessionOf`) and to the sessions in the table
of the manager (`room`), and from it what a step can make of the session of one document (`Moved`).

## Contents
- **Objects.** `sessionOf`.
- **Rooms.** `room`, `Housed`, `housed_step`.
- **Steps.** `Moved`, `moved_step`.
-/

namespace CollabEditor

namespace Server

/-! ## Objects -/

/-- The session of an object of the heap. -/
def sessionOf (s : Server) (ref : ℕ) : DocumentSession UInt8 SessionId := (s.manager.objects ref).session

section Objects

variable {s t : Server} {i : SessionId} {ref : ℕ} {docId : UInt32}

theorem sessionOf_enqueue (r : ℕ) (cmd : DocCommand UInt8 SessionId) :
    (s.enqueue r cmd).sessionOf ref =
      if ref = r then (s.sessionOf ref).enqueueCommand cmd else s.sessionOf ref := by
  unfold sessionOf Server.enqueue DocumentManager.enqueueCommand
  dsimp only
  rw [DocumentManager.session_setSession]
  split_ifs with h
  · rw [h]
  · rfl

theorem sessionOf_enqueueAll (r : ℕ) (cmds : List (DocCommand UInt8 SessionId)) :
    (s.enqueueAll r cmds).sessionOf ref =
      if ref = r then { s.sessionOf ref with commandQueue := (s.sessionOf ref).commandQueue ++ cmds }
      else s.sessionOf ref := by
  induction cmds generalizing s with
  | nil =>
      rw [List.append_nil, ite_self]
      rfl
  | cons cmd cmds ih =>
      refine (ih (s := s.enqueue r cmd)).trans ?_
      rw [sessionOf_enqueue]
      split_ifs with h
      · unfold DocumentSession.enqueueCommand
        rw [List.append_assoc, List.singleton_append]
      · rfl

theorem sessionOf_enqueueLeave : (s.enqueueLeave i docId).sessionOf ref =
    match s.manager.getSession docId with
    | none   => s.sessionOf ref
    | some r => if ref = r then (s.sessionOf ref).enqueueCommand (s.leaveCommand i) else s.sessionOf ref := by
  unfold enqueueLeave
  cases s.manager.getSession docId with
  | none => rfl
  | some r => exact sessionOf_enqueue r _

theorem sessionOf_disconnect : (s.disconnect i).sessionOf ref =
    if 0 < (s.clients i).currentDocId then (s.enqueueLeave i (s.clients i).currentDocId).sessionOf ref
    else s.sessionOf ref := by
  unfold disconnect leaveCurrent DocumentManager.removeCursor
  dsimp only
  split_ifs
  · split
    · rfl
    · rfl
  · rfl

/-- The session that a join is enqueued on is a session of the document it names. -/
theorem opened_id (h : s.Sound) {u : UInt32} (hread : s.access.canRead docId u = true) {doc session : ℕ}
    (hopen : s.opened docId = some (doc, session)) : (s.sessionOf session).doc.id = docId := by
  obtain ⟨r, hr, hget⟩ := h.getDocument_of_read hread
  unfold opened at hopen
  rw [hget] at hopen
  dsimp only at hopen
  cases hsession : (s.manager.getOrCreateSession docId).2 with
  | none => rw [hsession] at hopen; cases hopen
  | some session' =>
      rw [hsession] at hopen
      cases hopen
      obtain hs | hd := s.manager.getOrCreateSession_cases hsession
      · exact (h.tables.session hs).2
      · exact (h.tables.document hd).2

theorem sessionOf_openDocument (h : s.Sound) {u : UInt32} (hread : s.access.canRead docId u = true) (k : ℕ) :
    (s.openDocument docId).sessionOf k = s.sessionOf k := by
  rw [h.openDocument_of_read hread]
  exact s.manager.session_getOrCreateSession docId k

theorem sessionOf_deleteDocument (k : ℕ) : (s.deleteDocument docId).sessionOf k = s.sessionOf k :=
  s.manager.session_eraseEntries docId k

theorem sessionOf_createDocument (title : String) (ownerId : UInt32) :
    (s.createDocument title ownerId).sessionOf ref =
      if ref = s.manager.allocated then { doc := Document.create s.manager.nextDocId title }
      else s.sessionOf ref := by
  unfold sessionOf Server.createDocument DocumentManager.allocate DocumentManager.writeFiles
    DocumentManager.addDocument
  dsimp only
  split_ifs with href
  · rw [href, Function.update_self]
  · rw [Function.update_of_ne href]

/-- Enqueuing commands changes nothing but the objects. -/
theorem enqueueAll_frame (cmds : List (DocCommand UInt8 SessionId)) (ref : ℕ) :
    ∀ s : Server, ∃ objects, s.enqueueAll ref cmds = { s with manager := { s.manager with objects := objects } } := by
  induction cmds with
  | nil => exact fun s => ⟨s.manager.objects, rfl⟩
  | cons cmd cmds ih =>
      intro s
      obtain ⟨objects, h⟩ := ih (s.enqueue ref cmd)
      exact ⟨objects, h⟩

end Objects

/-! ## Rooms -/

/-- The session of a document. -/
def room (s : Server) (d : UInt32) : Option (DocumentSession UInt8 SessionId) :=
  (s.manager.getSession d).map s.sessionOf

/-- Nobody has come in yet. -/
def Blank (r : DocumentSession UInt8 SessionId) : Prop :=
  r.commandQueue = [] ∧ r.connectedUsers = ∅ ∧ r.doc.subscribers = ∅

section Rooms

variable {s t : Server} {i : SessionId} {d docId : UInt32}

theorem room_of_manager (h : s.manager = t.manager) (d : UInt32) : s.room d = t.room d := by
  unfold room sessionOf
  rw [h]

/-- Objects of different documents are different. -/
theorem Sound.ref_eq (h : s.Sound) {r r' : ℕ} (hr : s.manager.getSession d = some r)
    (hr' : s.manager.getSession docId = some r') : r = r' ↔ d = docId := by
  constructor
  · rintro rfl
    rw [← (h.tables.session hr).2, ← (h.tables.session hr').2]
  · rintro rfl
    rw [hr] at hr'
    exact Option.some.inj hr'

theorem room_enqueue (h : s.Sound) {r : ℕ} (hr : s.manager.getSession docId = some r)
    (cmd : DocCommand UInt8 SessionId) :
    (s.enqueue r cmd).room d = if d = docId then (s.room d).map (·.enqueueCommand cmd) else s.room d := by
  have hsame : (s.enqueue r cmd).manager.getSession d = s.manager.getSession d := rfl
  unfold room
  rw [hsame]
  cases hd : s.manager.getSession d with
  | none => exact (ite_self _).symm
  | some ref =>
      rw [Option.map_some, Option.map_some, sessionOf_enqueue]
      simp only [h.ref_eq hd hr]
      split_ifs
      · rfl
      · rfl

theorem room_enqueueAll (h : s.Sound) {r : ℕ} (hr : s.manager.getSession docId = some r)
    (cmds : List (DocCommand UInt8 SessionId)) :
    (s.enqueueAll r cmds).room d = if d = docId then
      (s.room d).map fun room => { room with commandQueue := room.commandQueue ++ cmds } else s.room d := by
  have hsame : (s.enqueueAll r cmds).manager.getSession d = s.manager.getSession d := by
    obtain ⟨objects, hframe⟩ := enqueueAll_frame cmds r s
    rw [hframe]
    rfl
  unfold room
  rw [hsame]
  cases hd : s.manager.getSession d with
  | none => exact (ite_self _).symm
  | some ref =>
      rw [Option.map_some, Option.map_some, sessionOf_enqueueAll]
      simp only [h.ref_eq hd hr]
      split_ifs
      · rfl
      · rfl

theorem room_enqueueLeave (h : s.Sound) :
    (s.enqueueLeave i docId).room d =
      if d = docId then (s.room d).map (·.enqueueCommand (s.leaveCommand i)) else s.room d := by
  unfold enqueueLeave
  cases hr : s.manager.getSession docId with
  | none =>
      split_ifs with hd
      · unfold room
        rw [hd, hr]
        rfl
      · rfl
  | some r => exact room_enqueue h hr _

theorem room_createDocument (h : s.Sound) (title : String) (ownerId : UInt32) :
    (s.createDocument title ownerId).room d = s.room d := by
  have hsame : (s.createDocument title ownerId).manager.getSession d = s.manager.getSession d := rfl
  unfold room
  rw [hsame]
  cases hd : s.manager.getSession d with
  | none => rfl
  | some ref =>
      rw [Option.map_some, Option.map_some, sessionOf_createDocument,
        if_neg (Nat.ne_of_lt (h.tables.session hd).1)]

theorem room_deleteDocument :
    (s.deleteDocument docId).room d = if d = docId then none else s.room d := by
  have hsame : (s.deleteDocument docId).manager.getSession d =
      if d = docId then none else s.manager.getSession d := s.manager.sessions_eraseEntries docId d
  unfold room
  rw [hsame]
  split_ifs
  · rfl
  · cases s.manager.getSession d with
    | none => rfl
    | some ref => rw [Option.map_some, Option.map_some, sessionOf_deleteDocument]

theorem room_enqueueDelete (h : s.Sound) (hd : d ≠ docId) : (s.enqueueDelete docId).room d = s.room d := by
  unfold enqueueDelete
  cases hr : s.manager.getSession docId with
  | none => rfl
  | some r =>
      rw [room_enqueue h hr, if_neg hd]

theorem room_disconnect : (s.disconnect i).room d =
    if 0 < (s.clients i).currentDocId then (s.enqueueLeave i (s.clients i).currentDocId).room d else s.room d := by
  unfold disconnect leaveCurrent DocumentManager.removeCursor
  dsimp only
  split_ifs
  · split
    · rfl
    · rfl
  · rfl

end Rooms

/-- A document in memory has the session of the table, or nobody has come in yet. -/
def Housed (s : Server) : Prop :=
  ∀ d ref, s.manager.documents.lookup d = some ref →
    s.manager.getSession d = some ref ∨ Blank (s.sessionOf ref)

section Housed

variable {s s' t : Server} {i : SessionId} {d docId : UInt32} {e : Event} {payload : Option Json}

/-- The room that a reader's join finds. -/
theorem room_openDocument (h : s.Sound) (hh : s.Housed) {u : UInt32} (hread : s.access.canRead docId u = true)
    {doc session : ℕ} (hopen : s.opened docId = some (doc, session)) :
    (s.openDocument docId).manager.getSession docId = some session ∧
      (s.room docId = some (s.sessionOf session) ∨ s.room docId = none ∧ Blank (s.sessionOf session)) ∧
      ∀ d, (s.openDocument docId).room d = if d = docId then some (s.sessionOf session) else s.room d := by
  obtain ⟨ref, href, hget⟩ := h.getDocument_of_read hread
  have hsession : (s.manager.getOrCreateSession docId).2 = some session := by
    unfold opened at hopen
    rw [hget] at hopen
    dsimp only at hopen
    cases hs : (s.manager.getOrCreateSession docId).2 with
    | none => rw [hs] at hopen; cases hopen
    | some session' => rw [hs] at hopen; cases hopen; rfl
  have hlookup : ∀ d, (s.openDocument docId).manager.getSession d =
      if d = docId then some session else s.manager.getSession d := by
    intro d
    rw [h.openDocument_of_read hread, ← hsession]
    exact s.manager.sessions_getOrCreateSession docId d
  refine ⟨(hlookup docId).trans (if_pos rfl), ?_, fun d => ?_⟩
  · unfold room
    cases hs : s.manager.getSession docId with
    | some r =>
        have hr : session = r := by
          have hsome := hsession
          unfold DocumentManager.getOrCreateSession at hsome
          rw [show s.manager.sessions.lookup docId = some r from hs] at hsome
          exact (Option.some.inj hsome).symm
        exact .inl (by rw [hr]; rfl)
    | none =>
        refine .inr ⟨rfl, ?_⟩
        obtain hs' | hd := s.manager.getOrCreateSession_cases hsession
        · rw [show s.manager.sessions.lookup docId = none from hs] at hs'
          cases hs'
        · obtain hs' | hblank := hh _ _ hd
          · rw [hs] at hs'
            cases hs'
          · exact hblank
  · unfold room
    rw [hlookup]
    split_ifs
    · rw [Option.map_some, sessionOf_openDocument h hread]
    · cases s.manager.getSession d with
      | none => rfl
      | some r => rw [Option.map_some, Option.map_some, sessionOf_openDocument h hread]

/-- Enqueuing a command on a session of the table. -/
theorem Housed.enqueue (h : s.Sound) (hh : s.Housed) {r : ℕ} (hr : s.manager.getSession docId = some r)
    (cmd : DocCommand UInt8 SessionId) : (s.enqueue r cmd).Housed := by
  intro d ref hd
  by_cases href : ref = r
  · subst href
    have hdoc : d = docId := (h.tables.document hd).2.symm.trans (h.tables.session hr).2
    exact .inl (hdoc ▸ hr)
  · rw [sessionOf_enqueue, if_neg href]
    exact hh _ _ hd

theorem Housed.enqueueAll {r : ℕ} (cmds : List (DocCommand UInt8 SessionId)) :
    ∀ {s : Server}, s.Sound → s.Housed → s.manager.getSession docId = some r → (s.enqueueAll r cmds).Housed := by
  induction cmds with
  | nil => exact fun _ hh _ => hh
  | cons cmd cmds ih => exact fun h hh hr => ih (h.enqueue r cmd) (hh.enqueue h hr cmd) hr

theorem Housed.enqueueLeave (h : s.Sound) (hh : s.Housed) : (s.enqueueLeave i docId).Housed := by
  unfold Server.enqueueLeave
  split
  · exact hh
  · case _ r hr => exact hh.enqueue h hr _

theorem Housed.enqueueDelete (h : s.Sound) (hh : s.Housed) : (s.enqueueDelete docId).Housed := by
  unfold Server.enqueueDelete
  split
  · exact hh
  · case _ r hr => exact hh.enqueue h hr _

theorem Housed.openDocument (h : s.Sound) (hh : s.Housed) {u : UInt32}
    (hread : s.access.canRead docId u = true) : (s.openDocument docId).Housed := by
  intro d ref hd
  rw [sessionOf_openDocument h hread]
  rw [h.openDocument_of_read hread] at hd ⊢
  change (s.manager.getOrCreateSession docId).1.documents.lookup d = some ref at hd
  rw [DocumentManager.documents_getOrCreateSession] at hd
  change (s.manager.getOrCreateSession docId).1.sessions.lookup d = some ref ∨ _
  rw [DocumentManager.sessions_getOrCreateSession]
  obtain hs | hblank := hh _ _ hd
  · left
    split_ifs with hdoc
    · unfold DocumentManager.getOrCreateSession
      rw [← hdoc, show s.manager.sessions.lookup d = some ref from hs]
    · exact hs
  · exact .inr hblank

theorem Housed.createDocument (h : s.Sound) (hh : s.Housed) (title : String) (ownerId : UInt32) :
    (s.createDocument title ownerId).Housed := by
  intro d ref hd
  rw [sessionOf_createDocument]
  change AList.lookup d (s.manager.documents.insert s.manager.nextDocId s.manager.allocated) = some ref at hd
  by_cases hdoc : d = s.manager.nextDocId
  · rw [hdoc, AList.lookup_insert] at hd
    cases hd
    rw [if_pos rfl]
    exact .inr ⟨rfl, rfl, rfl⟩
  · rw [AList.lookup_insert_ne hdoc] at hd
    rw [if_neg (Nat.ne_of_lt (h.tables.document hd).1)]
    exact hh _ _ hd

theorem Housed.deleteDocument (hh : s.Housed) : (s.deleteDocument docId).Housed := by
  intro d ref hd
  rw [sessionOf_deleteDocument]
  have hdocuments := s.manager.documents_eraseEntries docId d
  have hsessions := s.manager.sessions_eraseEntries docId d
  change (s.manager.eraseEntries docId).documents.lookup d = some ref at hd
  change (s.manager.eraseEntries docId).sessions.lookup d = some ref ∨ _
  rw [hdocuments] at hd
  rw [hsessions]
  split_ifs at hd ⊢
  exact hh _ _ hd

theorem Housed.disconnect (h : s.Sound) (hh : s.Housed) : (s.disconnect i).Housed := by
  unfold Server.disconnect leaveCurrent DocumentManager.removeCursor
  dsimp only
  split_ifs
  · split
    · exact hh.enqueueLeave h
    · exact hh.enqueueLeave h
  · exact hh

/-- A session that nobody has come into has no command to process. -/
theorem Blank.processNext {r : DocumentSession UInt8 SessionId} (h : Blank r) : r.processNext = none := by
  unfold DocumentSession.processNext
  rw [h.1]

theorem housed_handled {replies : List (ServerMsg UInt8)} (h : s.Sound) (hh : s.Housed)
    (hd : Handled s i payload t replies) : t.Housed := by
  cases hd with
  | kept _ => exact hh
  | authenticated _ _ _ => exact hh
  | created _ _ _ => exact hh.createDocument h _ _
  | torn _ _ _ _ hread _ _ => exact hh.openDocument h hread
  | @joined j docId doc session msg _ _ _ hread hopen _ _ =>
      have ho := h.openDocument hread
      exact Housed.enqueue (s := (s.openDocument docId).setCurrentDoc i docId)
        ⟨ho.unlocked, ho.tables, ho.present⟩ (hh.openDocument h hread) (room_openDocument h hh hread hopen).1 _
  | left _ _ _ => exact hh.enqueueLeave h
  | deleted _ _ _ _ => exact (hh.enqueueDelete h).deleteDocument
  | shared _ _ _ _ _ _ _ => exact hh
  | operated _ _ _ _ _ _ hsession => exact hh.enqueueAll _ h hsession
  | moved _ _ _ _ _ => exact hh

theorem Housed.of_manager (h : t.Housed) (hm : s.manager = t.manager) : s.Housed := by
  unfold Housed sessionOf at *
  rw [hm]
  exact h

theorem housed_step (h : s.Sound) (hh : s.Housed) (hs : step s e = some s') : s'.Housed := by
  cases e with
  | accept i =>
      obtain ⟨_, _, rfl⟩ := accept_cases hs
      exact hh
  | request i payload =>
      obtain ⟨t, _, hd, hcore, _⟩ := request_cases h.unlocked hs
      exact (housed_handled h hh hd).of_manager (manager_of_core hcore)
  | drop i =>
      obtain ⟨_, _, rfl⟩ := drop_cases hs
      exact Housed.disconnect (s := s.setClient i _) ⟨h.unlocked, h.tables, h.present⟩ hh
  | process r =>
      obtain ⟨session, sends, hnext, hcore⟩ := process_cases hs
      refine Housed.of_manager (t := { s with manager := s.manager.setSession r session }) ?_ (manager_of_core hcore)
      intro d ref hd
      change s.manager.getSession d = some ref ∨ Blank ((s.manager.setSession r session).objects ref).session
      rw [DocumentManager.session_setSession]
      obtain hs | hblank := hh _ _ hd
      · exact .inl hs
      · right
        split_ifs with href
        · rw [href] at hblank
          have hnone := hblank.processNext
          rw [show (s.sessionOf r).processNext = some (session, sends) from hnext] at hnone
          cases hnone
        · exact hblank
  | exit r =>
      rw [exit_cases hs]
      intro d ref hd
      have hsession := s.manager.session_update r ref { s.manager.objects r with exited := true } rfl
      exact (hh _ _ hd).imp_right fun hblank => (congrArg Blank hsession).mpr hblank
  | sendCursors d => exact hh.of_manager (manager_of_core (sendCursors_core hs))

theorem housed_start (env : Environment) (dataDir : DataDir) : (start env dataDir).Housed := by
  intro d ref hd
  cases hd

theorem run_housed {env : Environment} {dataDir : DataDir} {es : List Event}
    (hrun : Machine.run step (start env dataDir) es = some s) : s.Sound ∧ s.Housed :=
  Machine.run_preserves (I := fun s : Server => s.Sound ∧ s.Housed)
    (fun _ _ _ h hs => ⟨sound_step h.1 hs, housed_step h.1 h.2 hs⟩)
    ⟨sound_start env dataDir, housed_start env dataDir⟩ hrun

end Housed

/-! ## Steps -/

/-- What a step can make of the room of document `d`. -/
inductive Moved (s : Server) (d : UInt32) : Event → Option (DocumentSession UInt8 SessionId) → Prop where
  | kept (e : Event) : Moved s d e (s.room d)
  | closed (e : Event) : Moved s d e none
  | opened (e : Event) {r : DocumentSession UInt8 SessionId} (hr : s.room d = none) (hblank : Blank r) :
      Moved s d e (some r)
  | joined {i : SessionId} {payload : Option Json} {j : Json} {r : DocumentSession UInt8 SessionId}
      (hauth : (s.clients i).authenticated = true) (hj : Asks payload .docJoinRequest j)
      (hid : docIdOf j = .ok d) (hread : s.access.canRead d (s.clients i).userId = true) {doc session : ℕ}
      (hopen : s.opened d = some (doc, session)) (hgood : Utf8.Valid ((s.openDocument d).contentAt doc))
      (hr : s.room d = some r ∨ s.room d = none ∧ Blank r) :
      Moved s d (.request i payload) (some (r.enqueueCommand (s.joinCommand i)))
  | left {i : SessionId} {payload : Option Json} {j : Json} {r : DocumentSession UInt8 SessionId}
      (hauth : (s.clients i).authenticated = true) (hj : Asks payload .docLeaveRequest j)
      (hid : docIdOf j = .ok d) (hr : s.room d = some r) :
      Moved s d (.request i payload) (some (r.enqueueCommand (s.leaveCommand i)))
  | dropped {i : SessionId} {r : DocumentSession UInt8 SessionId}
      (hcurrent : d = (s.clients i).currentDocId ∧ 0 < d) (hr : s.room d = some r) :
      Moved s d (.drop i) (some (r.enqueueCommand (s.leaveCommand i)))
  | operated (e : Event) {r : DocumentSession UInt8 SessionId} (cmds : List (DocCommand UInt8 SessionId))
      (hcmds : ∀ cmd ∈ cmds, cmd.type = .operation) (hr : s.room d = some r) :
      Moved s d e (some { r with commandQueue := r.commandQueue ++ cmds })
  | processed (e : Event) {r r' : DocumentSession UInt8 SessionId} {sends : List (SessionId × ServerMsg UInt8)}
      (hr : s.room d = some r) (hnext : r.processNext = some (r', sends)) : Moved s d e (some r')

section Moved

variable {s s' t : Server} {i : SessionId} {d : UInt32} {e : Event} {payload : Option Json}

theorem moved_handled {replies : List (ServerMsg UInt8)} (h : s.Sound) (hh : s.Housed)
    (hd : Handled s i payload t replies) : Moved s d (.request i payload) (t.room d) := by
  cases hd with
  | kept _ => exact .kept _
  | authenticated _ _ _ => exact .kept _
  | created _ _ _ =>
      rw [room_createDocument h]
      exact .kept _
  | @torn j docId doc session message hj hid hauth hread hopen hbad =>
      obtain ⟨_, hroom, hrooms⟩ := room_openDocument h hh hread hopen
      have hsame : ((s.openDocument docId).setCurrentDoc i docId).room d = (s.openDocument docId).room d := rfl
      rw [hsame, hrooms]
      split_ifs with hdoc
      · subst hdoc
        obtain hroom | ⟨hnone, hblank⟩ := hroom
        · exact hroom ▸ .kept _
        · exact .opened _ hnone hblank
      · exact .kept _
  | @joined j docId doc session msg hj hid hauth hread hopen hgood hmsg =>
      obtain ⟨hsession, hroom, hrooms⟩ := room_openDocument h hh hread hopen
      have ho := h.openDocument hread
      have hsound : ((s.openDocument docId).setCurrentDoc i docId).Sound := ⟨ho.unlocked, ho.tables, ho.present⟩
      have hsame : ((s.openDocument docId).setCurrentDoc i docId).room d = (s.openDocument docId).room d := rfl
      rw [room_enqueue hsound hsession, hsame, hrooms]
      split_ifs with hdoc
      · subst hdoc
        exact .joined hauth hj hid hread hopen hgood hroom
      · exact .kept _
  | @left j docId hj hid hauth =>
      have hsame : ((s.enqueueLeave i docId).setCurrentDoc i 0).room d = (s.enqueueLeave i docId).room d := rfl
      rw [hsame, room_enqueueLeave h]
      split_ifs with hdoc
      · subst hdoc
        cases hroom : s.room d with
        | none => exact .closed _
        | some r => exact .left hauth hj hid hroom
      · exact .kept _
  | @deleted j docId hj hid hauth hown =>
      rw [room_deleteDocument]
      split_ifs with hdoc
      · exact .closed _
      · rw [room_enqueueDelete h hdoc]
        exact .kept _
  | shared _ _ _ _ _ _ _ => exact .kept _
  | @operated j msg session hj hmsg hauth hdoc hedit hlength hsession =>
      rw [room_enqueueAll h hsession]
      split_ifs with hdoc
      · cases hroom : s.room d with
        | none => exact .closed _
        | some r =>
            refine .operated _ _ (fun cmd hcmd => ?_) hroom
            obtain ⟨entry, _, rfl⟩ := List.mem_map.mp hcmd
            rfl
      · exact .kept _
  | moved _ _ _ _ _ => exact .kept _

/-- A connection that breaks enqueues a Leave in its current document only. -/
theorem room_drop (h : s.Sound) (hs : step s (.drop i) = some s') : s'.room d =
    if d = (s.clients i).currentDocId ∧ 0 < d then (s.room d).map (·.enqueueCommand (s.leaveCommand i))
    else s.room d := by
  obtain ⟨_, _, rfl⟩ := drop_cases hs
  have hsound : (s.setClient i { s.clients i with disconnected := true }).Sound :=
    ⟨h.unlocked, h.tables, h.present⟩
  have hroom : (s.setClient i { s.clients i with disconnected := true }).room d = s.room d := rfl
  have hcurrent : ((s.setClient i { s.clients i with disconnected := true }).clients i).currentDocId =
      (s.clients i).currentDocId := by rw [setClient_self]
  have hcmd : (s.setClient i { s.clients i with disconnected := true }).leaveCommand i = s.leaveCommand i := by
    unfold leaveCommand
    rw [setClient_self]
  rw [room_disconnect, room_enqueueLeave hsound, hroom, hcurrent, hcmd]
  split_ifs with hpos hdoc hboth hboth hboth
  · rfl
  · exact absurd ⟨hdoc, hdoc ▸ hpos⟩ hboth
  · exact absurd hboth.1 hdoc
  · rfl
  · exact absurd (hboth.1 ▸ hboth.2) hpos
  · rfl

theorem moved_step (h : s.Sound) (hh : s.Housed) (hs : step s e = some s') (d : UInt32) :
    Moved s d e (s'.room d) := by
  cases e with
  | accept i =>
      obtain ⟨_, _, rfl⟩ := accept_cases hs
      exact .kept _
  | request i payload =>
      obtain ⟨t, _, hd, hcore, _⟩ := request_cases h.unlocked hs
      rw [room_of_manager (manager_of_core hcore)]
      exact moved_handled h hh hd
  | drop i =>
      rw [room_drop h hs]
      split_ifs with hdoc
      · cases hr : s.room d with
        | none => exact .closed _
        | some r => exact .dropped hdoc hr
      · exact .kept _
  | process r =>
      obtain ⟨session, sends, hnext, hcore⟩ := process_cases hs
      have hset : ({ s with manager := s.manager.setSession r session } : Server).room d =
          if s.manager.getSession d = some r then some session else s.room d := by
        have hsame : (s.manager.setSession r session).getSession d = s.manager.getSession d := rfl
        unfold room sessionOf
        dsimp only
        rw [hsame]
        cases hd : s.manager.getSession d with
        | none => rw [if_neg (by simp)]; rfl
        | some ref =>
            rw [Option.map_some, DocumentManager.session_setSession]
            split_ifs with href hsome hsome
            · rfl
            · exact absurd (congrArg some href) hsome
            · exact absurd (Option.some.inj hsome) href
            · rfl
      rw [room_of_manager (manager_of_core hcore), hset]
      split_ifs with hr
      · refine .processed _ (r := s.sessionOf r) ?_ hnext
        unfold room
        rw [hr]
        rfl
      · exact .kept _
  | exit r =>
      have hroom : s'.room d = s.room d := by
        rw [exit_cases hs]
        have hsame := fun ref =>
          s.manager.session_update r ref { s.manager.objects r with exited := true } rfl
        unfold room sessionOf
        cases hd : s.manager.getSession d with
        | none =>
            change (s.manager.getSession d).map _ = _
            rw [hd]
            rfl
        | some ref =>
            change (s.manager.getSession d).map _ = _
            rw [hd, Option.map_some, Option.map_some]
            exact congrArg some (hsame ref)
      rw [hroom]
      exact .kept _
  | sendCursors docId =>
      rw [room_of_manager (manager_of_core (sendCursors_core hs))]
      exact .kept _

end Moved

end Server

end CollabEditor
