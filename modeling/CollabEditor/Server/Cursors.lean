import CollabEditor.Protocol.Codec
import CollabEditor.Server.Departure

/-!
# `Server.Cursors` — whose cursors the server shows

The cursors of a document are kept by the manager, its members by the document's session. A cursor is stored
for any session whose current document this is, and it is taken back when the connection breaks or the
document is deleted; a Leave request does not take it back.

## Contents
- **Tables.** `cursors`, `Present`, `NoGhosts`.
- **Requests.** What a Leave request and a cursor update leave, exactly.
- **Steps.** `cursors_step`, `present_step`.
- **The result.** `no_ghosts_iff`; `ghost_after_leave`.
-/

namespace CollabEditor

namespace Server

open Handler MessageHandler

/-! ## Tables -/

/-- `cursor_buffers_` of a document. -/
def cursors (s : Server) (d : UInt32) : AList (fun _ : UInt32 => CursorState) :=
  (s.manager.cursorBuffers.lookup d).getD ∅

/-- The user is a member of the document once its queue is worked off. -/
def Present (s : Server) (d u : UInt32) : Prop := ∃ r, s.room d = some r ∧ u ∈ r.settled

instance (s : Server) (d u : UInt32) : Decidable (s.Present d u) :=
  decidable_of_iff ((s.room d).any fun r => decide (u ∈ r.settled)) (by
    unfold Present
    cases s.room d <;> simp)

/-- Every user with a cursor in a document is a member of it, once the queues are worked off. -/
def NoGhosts (s : Server) : Prop := ∀ d u, u ∈ s.cursors d → s.Present d u

/-- All the queues are worked off. -/
def Drained (s : Server) : Prop := ∀ d r, s.room d = some r → r.commandQueue = []

section Tables

variable {s t : Server} {i : SessionId} {d docId u : UInt32}

theorem noGhosts_drained (h : s.Drained) :
    s.NoGhosts ↔ ∀ d u, u ∈ s.cursors d → ∃ r, s.room d = some r ∧ u ∈ r.connectedUsers := by
  have hpresent : ∀ d u, s.Present d u ↔ ∃ r, s.room d = some r ∧ u ∈ r.connectedUsers := by
    intro d u
    refine exists_congr fun r => and_congr_right fun hr => ?_
    rw [DocumentSession.settled_of_drained (h d r hr)]
  exact forall₂_congr fun d u => imp_congr_right fun _ => hpresent d u

theorem cursors_of_manager (h : s.manager = t.manager) (d : UInt32) : s.cursors d = t.cursors d := by
  unfold cursors
  rw [h]

theorem present_of_room (h : s.room d = t.room d) : s.Present d u ↔ t.Present d u := by
  unfold Present
  rw [h]

theorem cursors_enqueueLeave : (s.enqueueLeave i docId).cursors d = s.cursors d := by
  unfold enqueueLeave
  cases s.manager.getSession docId <;> rfl

theorem cursors_enqueueAll (cmds : List (DocCommand UInt8 SessionId)) (ref : ℕ) :
    (s.enqueueAll ref cmds).cursors d = s.cursors d := by
  obtain ⟨objects, h⟩ := enqueueAll_frame cmds ref s
  rw [h]
  rfl

theorem cursors_openDocument : (s.openDocument docId).cursors d = s.cursors d := by
  have hget : (s.getDocument docId).1.manager.cursorBuffers = s.manager.cursorBuffers := by
    unfold getDocument
    split
    · rfl
    · split
      · rfl
      · dsimp only
        unfold DocumentManager.publish
        split <;> rfl
  unfold cursors openDocument
  dsimp only
  rw [DocumentManager.cursorBuffers_getOrCreateSession, hget]

theorem cursors_deleteDocument :
    (s.deleteDocument docId).cursors d = if d = docId then ∅ else s.cursors d := by
  have hbuffers : (s.deleteDocument docId).manager.cursorBuffers = s.manager.cursorBuffers.erase docId := by
    unfold deleteDocument DocumentManager.eraseEntries DocumentManager.removeFiles
    dsimp only
    cases s.manager.sessions.lookup docId <;> rfl
  unfold cursors
  rw [hbuffers]
  split_ifs with hd
  · rw [hd, AList.lookup_erase]
    rfl
  · rw [AList.lookup_erase_ne hd]

theorem cursors_updateCursor (state : CursorState) :
    cursors { s with manager := s.manager.updateCursor docId state } d =
      if d = docId then (s.cursors d).insert state.userId state else s.cursors d := by
  unfold cursors DocumentManager.updateCursor
  dsimp only
  split_ifs with hd
  · rw [hd, AList.lookup_insert]
    rfl
  · rw [AList.lookup_insert_ne hd]

theorem cursors_removeCursor :
    cursors { s with manager := s.manager.removeCursor docId u } d =
      if d = docId then (s.cursors d).erase u else s.cursors d := by
  unfold cursors DocumentManager.removeCursor
  cases hb : s.manager.cursorBuffers.lookup docId with
  | none =>
      dsimp only
      split_ifs with hd
      · rw [hd, hb]
        rfl
      · rfl
  | some buffer =>
      dsimp only
      split_ifs with hd
      · rw [hd, AList.lookup_insert, hb]
        rfl
      · rw [AList.lookup_insert_ne hd]

end Tables

/-! ## Requests -/

section Requests

variable {s t : Server} {i : SessionId} {payload : Option Json} {j : Json} {d u : UInt32}

/-- The effect of a request that its handler comes to the end of. -/
theorem handle_asks {type : MessageType} (hj : Asks payload type j) (hauth : (s.clients i).authenticated = true)
    (hrun : (dispatch i type j).run exec s = (t, .ok ())) : s.handle i payload = t := by
  unfold handle
  rw [run_handleMessage hj hauth, Prog.run_tryCatch, hrun]

/-- **A Leave request** enqueues a Leave, and leaves the cursors alone. -/
theorem handle_leave {docId : UInt32} (hj : Asks payload .docLeaveRequest j)
    (hid : docIdOf j = .ok docId) (hauth : (s.clients i).authenticated = true) :
    (s.handle i payload).core = ((s.enqueueLeave i docId).setCurrentDoc i 0).core := by
  have hrun : (dispatch i .docLeaveRequest j).run exec s =
      (((s.enqueueLeave i docId).setCurrentDoc i 0).sendTo i (.docLeaveResponse true), .ok ()) := by
    change (handleDocLeave i j).run exec s = _
    unfold handleDocLeave
    rw [hid]
    simp only [Prog.ofExcept, Prog.bind_eq, Prog.pure_bind, Prog.run_bind, run_enqueueLeave, Prog.invoke_bind,
      Prog.run_call, exec]
    exact run_sendMsg (m := .docLeaveResponse true) trivial _
  rw [handle_asks hj hauth hrun]
  exact core_sendTo _ i _

/-- **A cursor update** in the session's current document stores a cursor. -/
theorem handle_cursor {msg : CursorUpdateMsg} (hj : Asks payload .cursorUpdate j)
    (hmsg : CursorUpdateMsg.fromJson j = .ok msg) (hauth : (s.clients i).authenticated = true)
    (hdoc : (s.clients i).currentDocId = msg.docId) (hroom : (s.room msg.docId).isSome) :
    s.handle i payload = { s with manager := s.manager.updateCursor msg.docId (s.cursorOf i msg) } := by
  refine handle_asks hj hauth ?_
  change (handleCursorUpdate i j).run exec s = _
  unfold handleCursorUpdate
  rw [hmsg]
  change (if (s.clients i).currentDocId ≠ msg.docId then _ else _ : Handler Unit).run exec s = _
  rw [if_neg (not_not.mpr hdoc)]
  simp only [Prog.bind_eq, Prog.invoke_bind, Prog.run_call, exec]
  unfold room at hroom
  cases hsession : s.manager.getSession msg.docId with
  | none => rw [hsession] at hroom; cases hroom
  | some session => rfl

end Requests

/-! ## Steps -/

/-- A step by which the user leaves a document: a Leave request, or its connection breaks. -/
def Departs (s : Server) (d u : UInt32) : Event → Prop
  | .request i payload => (s.clients i).authenticated = true ∧ u = (s.clients i).userId ∧
      ∃ j, Asks payload .docLeaveRequest j ∧ docIdOf j = .ok d
  | .drop i => (d = (s.clients i).currentDocId ∧ 0 < d) ∧ u = (s.clients i).userId
  | _ => False

/-- A cursor update of the user in a document. -/
def Points (s : Server) (d u : UInt32) : Event → Prop
  | .request i payload => (s.clients i).authenticated = true ∧ u = (s.clients i).userId ∧
      ∃ j msg, Asks payload .cursorUpdate j ∧ CursorUpdateMsg.fromJson j = .ok msg ∧
        (s.clients i).currentDocId = msg.docId ∧ d = msg.docId ∧ (s.room d).isSome
  | _ => False

section Steps

variable {s s' : Server} {d u : UInt32} {e : Event}

/-- **Who stays**: a user stays in a document that stays, unless it departs. -/
theorem present_step (h : s.Sound) (hh : s.Housed) (hs : step s e = some s') (hp : s.Present d u)
    (hstays : (s'.room d).isSome) : s'.Present d u ∨ s.Departs d u e := by
  obtain ⟨r, hr, hu⟩ := hp
  have hmoved := moved_step h hh hs d
  obtain ⟨r', hr'⟩ := Option.isSome_iff_exists.mp hstays
  rw [hr'] at hmoved
  have hpresent : u ∈ r'.settled → s'.Present d u ∨ s.Departs d u e := fun hu' => .inl ⟨r', hr', hu'⟩
  generalize hx : some r' = x at hmoved
  cases hmoved with
  | kept _ =>
      rw [hr] at hx
      cases hx
      exact hpresent hu
  | closed _ => cases hx
  | opened _ hnone _ =>
      rw [hr] at hnone
      cases hnone
  | joined _ _ _ _ _ _ hroom =>
      cases hx
      obtain hroom | ⟨hnone, _⟩ := hroom
      · rw [hr] at hroom
        cases hroom
        refine hpresent ?_
        rw [DocumentSession.settled_enqueueCommand]
        exact (AList.mem_insert _).mpr (.inr hu)
      · rw [hr] at hnone
        cases hnone
  | @left i payload j r0 hauth hj hid hroom =>
      cases hx
      rw [hr] at hroom
      cases hroom
      by_cases hself : u = (s.clients i).userId
      · exact .inr ⟨hauth, hself, _, hj, hid⟩
      · refine hpresent ?_
        rw [DocumentSession.settled_enqueueCommand]
        exact AList.mem_erase.mpr ⟨hself, hu⟩
  | @dropped i r0 hcurrent hroom =>
      cases hx
      rw [hr] at hroom
      cases hroom
      by_cases hself : u = (s.clients i).userId
      · exact .inr ⟨hcurrent, hself⟩
      · refine hpresent ?_
        rw [DocumentSession.settled_enqueueCommand]
        exact AList.mem_erase.mpr ⟨hself, hu⟩
  | operated _ cmds hcmds hroom =>
      cases hx
      rw [hr] at hroom
      cases hroom
      exact hpresent ((DocumentSession.settled_operations hcmds _).symm ▸ hu)
  | processed _ hroom hnext =>
      cases hx
      rw [hr] at hroom
      cases hroom
      exact hpresent ((DocumentSession.settled_processNext hnext).symm ▸ hu)

theorem room_isSome (s : Server) (d : UInt32) : (s.room d).isSome = (s.manager.getSession d).isSome := by
  unfold room
  rw [Option.isSome_map]

theorem cursors_disconnect {i : SessionId} : (s.disconnect i).cursors d =
    if d = (s.clients i).currentDocId ∧ 0 < d then (s.cursors d).erase (s.clients i).userId
    else s.cursors d := by
  have htcp : ∀ (t : Server) (l : List SessionId), cursors { t with tcpSessions := l } d = t.cursors d :=
    fun _ _ => rfl
  unfold disconnect leaveCurrent
  rw [htcp]
  dsimp only
  by_cases hpos : 0 < (s.clients i).currentDocId
  · rw [if_pos hpos, cursors_removeCursor, cursors_enqueueLeave]
    split_ifs with hd hboth hboth
    · rfl
    · exact absurd ⟨hd, hd ▸ hpos⟩ hboth
    · exact absurd hboth.1 hd
    · rfl
  · have hnot : ¬ (d = (s.clients i).currentDocId ∧ 0 < d) := fun hboth => hpos (hboth.1 ▸ hboth.2)
    rw [if_neg hpos, if_neg hnot]

theorem getSession_disconnect {i : SessionId} :
    (s.disconnect i).manager.getSession d = s.manager.getSession d := by
  unfold disconnect leaveCurrent enqueueLeave DocumentManager.removeCursor
  dsimp only
  split_ifs
  · cases s.manager.getSession (s.clients i).currentDocId <;> dsimp only <;> split <;> rfl
  · rfl

/-- **Where a cursor comes from**: it was there before, in a document that stays, and its user's connection
    has not broken; or it has just been stored. -/
theorem cursors_handled {t : Server} {i : SessionId} {payload : Option Json} {replies : List (ServerMsg UInt8)}
    (h : s.Sound) (hh : s.Housed) (hd : Handled s i payload t replies) (hu : u ∈ t.cursors d) :
    u ∈ s.cursors d ∧ ((s.room d).isSome → (t.room d).isSome) ∨
      s.Points d u (.request i payload) ∧ t.room d = s.room d := by
  have hkept : t.cursors d = s.cursors d → ((s.room d).isSome → (t.room d).isSome) →
      u ∈ s.cursors d ∧ ((s.room d).isSome → (t.room d).isSome) ∨
        s.Points d u (.request i payload) ∧ t.room d = s.room d :=
    fun hcursors hroom => .inl ⟨hcursors ▸ hu, hroom⟩
  cases hd with
  | kept _ => exact hkept rfl id
  | authenticated _ _ _ => exact hkept rfl id
  | created _ _ _ => exact hkept rfl (by rw [room_createDocument h]; exact id)
  | shared _ _ _ _ _ _ _ => exact hkept rfl id
  | @torn j docId doc session message hj hid hauth hread hopen hbad =>
      obtain ⟨_, _, hrooms⟩ := room_openDocument h hh hread hopen
      refine hkept cursors_openDocument fun hroom => ?_
      have hsame : ((s.openDocument docId).setCurrentDoc i docId).room d = (s.openDocument docId).room d := rfl
      rw [hsame, hrooms]
      split_ifs
      · rfl
      · exact hroom
  | @joined j docId doc session msg hj hid hauth hread hopen hgood hmsg =>
      obtain ⟨hsession, _, hrooms⟩ := room_openDocument h hh hread hopen
      refine hkept cursors_openDocument fun hroom => ?_
      have hsame : (((s.openDocument docId).setCurrentDoc i docId).enqueue session (s.joinCommand i)).manager.getSession d =
        (s.openDocument docId).manager.getSession d := rfl
      rw [room_isSome, hsame, ← room_isSome, hrooms]
      split_ifs
      · rfl
      · exact hroom
  | @left j docId hj hid hauth =>
      have hsame : ((s.enqueueLeave i docId).setCurrentDoc i 0).room d = (s.enqueueLeave i docId).room d := rfl
      refine hkept cursors_enqueueLeave ?_
      rw [hsame, room_enqueueLeave h]
      split_ifs
      · rw [Option.isSome_map]
        exact id
      · exact id
  | @deleted j docId hj hid hauth hown =>
      rw [cursors_deleteDocument] at hu
      split_ifs at hu with hdoc
      · -- the document's cursors go with it
        exact absurd hu (AList.notMem_empty u)
      · have hcursors : (s.enqueueDelete docId).cursors d = s.cursors d := by
          unfold enqueueDelete
          cases s.manager.getSession docId <;> rfl
        rw [hcursors] at hu
        rw [room_deleteDocument, if_neg hdoc, room_enqueueDelete h hdoc]
        exact .inl ⟨hu, id⟩
  | @operated j msg session hj hmsg hauth hdoc hedit hlength hsession =>
      refine hkept (cursors_enqueueAll _ session) ?_
      rw [room_enqueueAll h hsession]
      split_ifs
      · rw [Option.isSome_map]
        exact id
      · exact id
  | @moved j msg session hj hmsg hauth hdoc hsession =>
      rw [cursors_updateCursor] at hu
      split_ifs at hu with hd
      · -- the one cursor that may be new is that of the sender
        rcases (AList.mem_insert _).mp hu with hself | hold
        · refine .inr ⟨⟨hauth, hself, j, msg, hj, hmsg, hdoc, hd, ?_⟩, rfl⟩
          rw [room_isSome, hd, hsession]
          rfl
        · exact .inl ⟨hold, id⟩
      · exact .inl ⟨hu, id⟩

theorem cursors_step (h : s.Sound) (hh : s.Housed) (hs : step s e = some s') (hu : u ∈ s'.cursors d) :
    (u ∈ s.cursors d ∧ ((s.room d).isSome → (s'.room d).isSome) ∧ ∀ i, e = .drop i → ¬ s.Departs d u e) ∨
      s.Points d u e ∧ s'.room d = s.room d := by
  have hquiet : s'.cursors d = s.cursors d → s'.manager.getSession d = s.manager.getSession d →
      (∀ i, e ≠ .drop i) → u ∈ s.cursors d ∧ ((s.room d).isSome → (s'.room d).isSome) ∧
        ∀ i, e = .drop i → ¬ s.Departs d u e := by
    intro hcursors hsession hne
    refine ⟨hcursors ▸ hu, ?_, fun i he => absurd he (hne i)⟩
    rw [room_isSome, room_isSome, hsession]
    exact id
  cases e with
  | accept i =>
      obtain ⟨_, _, rfl⟩ := accept_cases hs
      exact .inl (hquiet rfl rfl nofun)
  | request i payload =>
      obtain ⟨t, _, hd, hcore, _⟩ := request_cases h.unlocked hs
      have hmanager := manager_of_core hcore
      rw [cursors_of_manager hmanager] at hu
      rw [room_of_manager hmanager]
      rcases cursors_handled h hh hd hu with ⟨hold, hroom⟩ | hnew
      · exact .inl ⟨hold, hroom, nofun⟩
      · exact .inr hnew
  | drop i =>
      obtain ⟨_, _, rfl⟩ := drop_cases hs
      have hcurrent : ((s.setClient i { s.clients i with disconnected := true }).clients i).currentDocId =
          (s.clients i).currentDocId := by rw [setClient_self]
      have huser : ((s.setClient i { s.clients i with disconnected := true }).clients i).userId =
          (s.clients i).userId := by rw [setClient_self]
      rw [cursors_disconnect, hcurrent, huser] at hu
      refine .inl ⟨?_, ?_, fun k hk hdeparts => ?_⟩
      · split_ifs at hu
        · exact (AList.mem_erase.mp hu).2
        · exact hu
      · rw [room_isSome, room_isSome, getSession_disconnect]
        exact id
      · obtain ⟨hdoc, hself⟩ := hdeparts
        rw [if_pos hdoc] at hu
        exact (AList.mem_erase.mp hu).1 hself
  | process r =>
      obtain ⟨session, sends, _, hcore⟩ := process_cases hs
      have hmanager := manager_of_core hcore
      exact .inl (hquiet (cursors_of_manager hmanager d) (by rw [hmanager]; rfl) nofun)
  | exit r =>
      rw [exit_cases hs] at hu hquiet ⊢
      exact .inl (hquiet rfl rfl nofun)
  | sendCursors docId =>
      have hmanager := manager_of_core (sendCursors_core hs)
      exact .inl (hquiet (cursors_of_manager hmanager d) (by rw [hmanager]) nofun)

end Steps

/-! ## The result -/

/-- The message type that a request names. -/
def asked (payload : Option Json) : MessageType :=
  match payload.bind (·.find? "type") with
  | some (.string typeName) => parseMessageType typeName
  | _                       => .unknown

/-- A user leaves by request only where it has no cursor, and moves its cursor only where it is a member. -/
def Standing (s : Server) : Event → Prop
  | .request i payload => (s.clients i).authenticated = true → ∀ j ∈ payload,
      (asked payload = .docLeaveRequest →
        ∀ d ∈ (docIdOf j).toOption, (s.clients i).userId ∉ s.cursors d) ∧
      (asked payload = .cursorUpdate → ∀ msg ∈ (CursorUpdateMsg.fromJson j).toOption,
        (s.clients i).currentDocId = msg.docId → (s.room msg.docId).isSome →
          s.Present msg.docId (s.clients i).userId)
  | _ => True

instance (s : Server) : DecidablePred s.Standing := by
  intro e
  cases e <;> unfold Standing <;> infer_instance

section Result

variable {s s' t : Server} {e : Event} {d u : UInt32} {env : Environment} {dataDir : DataDir} {es : List Event}

theorem asked_of_asks {payload : Option Json} {type : MessageType} {j : Json} (hj : Asks payload type j) :
    asked payload = type := by
  obtain ⟨rfl, typeName, htype, rfl⟩ := hj
  unfold asked
  rw [Option.bind_some, htype]

theorem asks_of_asked {payload : Option Json} {type : MessageType} {j : Json} (hj : j ∈ payload)
    (hasked : asked payload = type) (hknown : type ≠ .unknown) : Asks payload type j := by
  obtain rfl : payload = some j := hj
  unfold asked at hasked
  rw [Option.bind_some] at hasked
  split at hasked
  · next typeName htype => exact ⟨rfl, typeName, htype, hasked⟩
  · exact absurd hasked.symm hknown

theorem mem_toOption {ε β : Type} {x : Except ε β} {b : β} : b ∈ x.toOption ↔ x = .ok b := by
  cases x with
  | error e => exact ⟨fun h => (nomatch h), fun h => (nomatch h)⟩
  | ok a =>
      constructor
      · intro h
        rw [Option.some.inj h]
      · intro h
        rw [Except.ok.inj h]
        rfl

/-- **One step.** -/
theorem noGhosts_step (h : s.Sound) (hh : s.Housed) (hn : s.NoGhosts) (hs : step s e = some s') :
    s'.NoGhosts ↔ s.Standing e := by
  constructor
  · intro hn'
    cases e with
    | request i payload =>
        have hs' : s.handle i payload = s' := by
          change s.request i payload = some s' at hs
          unfold request at hs
          split_ifs at hs
          exact Option.some.inj hs
        intro hauth j hj
        constructor
        · -- the Leave is on the queue, and the cursor would still be there
          intro hleave docId hid hcursor
          rw [mem_toOption] at hid
          have hcore := handle_leave (asks_of_asked hj hleave (by decide)) hid hauth
          rw [hs'] at hcore
          have hmanager := manager_of_core hcore
          have hkept : s'.cursors docId = s.cursors docId :=
            (cursors_of_manager hmanager docId).trans cursors_enqueueLeave
          obtain ⟨r, hr, hu⟩ := hn' docId (s.clients i).userId (hkept ▸ hcursor)
          rw [room_of_manager hmanager] at hr
          change (s.enqueueLeave i docId).room docId = some r at hr
          rw [room_enqueueLeave h, if_pos rfl] at hr
          obtain ⟨r0, _, rfl⟩ := Option.map_eq_some_iff.mp hr
          rw [DocumentSession.settled_enqueueCommand] at hu
          exact (AList.mem_erase.mp hu).1 rfl
        · intro hupdate msg hmsg hdoc hroom
          rw [mem_toOption] at hmsg
          have hhandle := handle_cursor (asks_of_asked hj hupdate (by decide)) hmsg hauth hdoc hroom
          rw [hs'] at hhandle
          have hcursor : (s.clients i).userId ∈ s'.cursors msg.docId := by
            rw [hhandle, cursors_updateCursor, if_pos rfl]
            exact (AList.mem_insert _).mpr (.inl rfl)
          have hsame : s'.room msg.docId = s.room msg.docId := by rw [hhandle]; rfl
          exact (present_of_room hsame).mp (hn' _ _ hcursor)
    | _ => trivial
  · intro hok d u hu
    rcases cursors_step h hh hs hu with ⟨hold, hroom, hdrop⟩ | ⟨hpoints, hroom⟩
    · have hp := hn d u hold
      have hstays : (s'.room d).isSome := by
        refine hroom ?_
        obtain ⟨r, hr, _⟩ := hp
        rw [hr]
        rfl
      refine (present_step h hh hs hp hstays).resolve_right fun hdeparts => ?_
      cases e with
      | request i payload =>
          obtain ⟨hauth, rfl, j, hj, hid⟩ := hdeparts
          exact (hok hauth j hj.1).1 (asked_of_asks hj) d (mem_toOption.mpr hid) hold
      | drop i => exact hdrop i rfl hdeparts
      | _ => exact hdeparts
    · cases e with
      | request i payload =>
          obtain ⟨hauth, rfl, j, msg, hj, hmsg, hdoc, rfl, hsome⟩ := hpoints
          rw [present_of_room hroom]
          exact (hok hauth j hj.1).2 (asked_of_asks hj) msg (mem_toOption.mpr hmsg) hdoc hsome
      | _ => cases hpoints

/-- **No ghost cursors.** In every run, each user with a cursor is a member of its document all the way,
    counting the commands of the queues, exactly if users leave by request only where they have no cursor and
    move their cursors only where they are members. With the queues worked off these members are the connected
    users. -/
theorem no_ghosts_iff (hrun : Machine.run step (start env dataDir) es = some t) :
    (Machine.Along step Standing (start env dataDir) es ↔
      ∀ k s, Machine.run step (start env dataDir) (es.take k) = some s → s.NoGhosts) ∧
    ∀ k s, Machine.run step (start env dataDir) (es.take k) = some s → s.Drained →
      (s.NoGhosts ↔ ∀ d u, u ∈ s.cursors d → ∃ r, s.room d = some r ∧ u ∈ r.connectedUsers) := by
  refine ⟨?_, fun k s _ hdrained => noGhosts_drained hdrained⟩
  have hstart : (start env dataDir).NoGhosts := fun d u hu => absurd hu (AList.notMem_empty u)
  refine Machine.along_iff_invariant (J := fun s : Server => s.Sound ∧ s.Housed) (fun s e s' hJ hI hs => ?_)
    ⟨sound_start env dataDir, housed_start env dataDir⟩ hstart hrun
  exact ⟨⟨sound_step hJ.1 hs, housed_step hJ.1 hJ.2 hs⟩, noGhosts_step hJ.1 hJ.2 hI hs⟩

end Result

/-- The cursor of session `i`'s user moves in document 1. -/
def moveCursor (i : SessionId) : Event :=
  .request i (some (CursorUpdateMsg.toJson { docId := 1, position := 0, selectionStart := none, selectionEnd := none }))

/-- Two members move their cursors; one disconnects, and the other one deletes the document. -/
def pointingRun : List Event :=
  departingRun ++ [moveCursor 1, moveCursor 2, .sendCursors 1, .drop 2, .process 0,
    .request 1 (some (docIdRequest "doc_delete_request" 1)), .process 0]

theorem no_ghosts_pointingRun :
    (Machine.run step (start plainEnvironment {}) pointingRun).isSome ∧
      ∀ k s, Machine.run step (start plainEnvironment {}) (pointingRun.take k) = some s → s.NoGhosts := by
  have hrun : (Machine.run step (start plainEnvironment {}) pointingRun).isSome := by decide +kernel
  exact ⟨hrun, (no_ghosts_iff (Option.some_get hrun).symm).1.mp (by decide +kernel)⟩

/-- A member moves its cursor and leaves the document, and the aggregator takes its turn. -/
def ghostRun : List Event :=
  departingRun ++ [moveCursor 1, .request 1 (some (docIdRequest "doc_leave_request" 1)), .process 0, .sendCursors 1]

/-- **The cursor stays**, and is shown to the other member, though the user is connected no more. -/
theorem ghost_after_leave :
    ∃ s, Machine.run step (start plainEnvironment {}) ghostRun = some s ∧ s.manager.sessions.keys = [1] ∧
      s.manager.getSession 1 = some 0 ∧ (s.sessionOf 0).commandQueue = [] ∧
      (s.sessionOf 0).connectedUsers.keys = [2] ∧ 1 ∈ s.cursors 1 ∧
      (s.clients 2).sent.getLast? = some (.cursorBroadcast
        { docId := 1,
          cursors := [{ userId := 1, username := "a", color := "#000000", position := 0,
                        selectionStart := none, selectionEnd := none }] }) := by
  have hrun : (Machine.run step (start plainEnvironment {}) ghostRun).isSome := by decide +kernel
  refine ⟨_, (Option.some_get hrun).symm, ?_, ?_, ?_, ?_, ?_, ?_⟩
  all_goals decide +kernel +revert

end Server

end CollabEditor
