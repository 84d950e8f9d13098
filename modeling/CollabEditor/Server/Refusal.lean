import CollabEditor.Server.Running

/-!
# `Server.Refusal` — what a refused request changes

A request that is answered with an error or with `success = false` should leave everything alone but the
session's error count. All refusals but one come before the first change. The exception is a join whose
response cannot be serialized: by then the document has been opened and the session's current document set.

## Contents
- **Refusals.** `Refused`, `Untouched`.
- **The exception.** `storedContent`, `TornJoin`, `handle_tornJoin`.
- **The result.** `refused_untouched_iff`.
-/

namespace CollabEditor

open MessageHandler

namespace Server

/-! ## Refusals -/

/-- The session has been sent a refusal. -/
def Refused (s s' : Server) (i : SessionId) : Prop :=
  ∃ replies, (s'.clients i).sent = (s.clients i).sent ++ replies ∧ ∃ msg ∈ replies, msg.isRefusal = true

/-- All that a refused request must leave alone. -/
structure Untouched (s s' : Server) : Prop where
  documents : s'.manager.documents = s.manager.documents
  titles    : s'.manager.titles = s.manager.titles
  files     : s'.manager.dataDir = s.manager.dataDir
  rights    : s'.access = s.access
  users     : s'.auth = s.auth
  cursors   : s'.manager.cursorBuffers = s.manager.cursorBuffers
  /-- Contents, histories, members and command queues. -/
  sessions  : ∀ ref, (s'.manager.objects ref).session = (s.manager.objects ref).session
  /-- Identities and current documents. -/
  clients   : ∀ k, quiet (s'.clients k) = quiet (s.clients k)

variable {s s' t : Server} {i : SessionId} {payload : Option Json} {docId : UInt32}

theorem Untouched.refl (s : Server) : s.Untouched s :=
  ⟨rfl, rfl, rfl, rfl, rfl, rfl, fun _ => rfl, fun _ => rfl⟩

theorem Untouched.of_core (h : s.Untouched t) (hcore : s'.core = t.core) : s.Untouched s' := by
  have hm := manager_of_core hcore
  constructor
  · rw [hm]
    exact h.documents
  · rw [hm]
    exact h.titles
  · rw [hm]
    exact h.files
  · rw [access_of_core hcore]
    exact h.rights
  · rw [auth_of_core hcore]
    exact h.users
  · rw [hm]
    exact h.cursors
  · rw [hm]
    exact h.sessions
  · exact fun k => (quiet_of_core hcore k).trans (h.clients k)

/-- A refusal is one of the replies, and it has been sent. -/
theorem Replied.refused {replies : List (ServerMsg UInt8)} (h : s.Replied s' i replies)
    (hrefused : s.Refused s' i) :
    (s.clients i).disconnected = false ∧ ∃ msg ∈ replies, msg.isRefusal = true := by
  obtain ⟨replies', hsent, msg, hmsg, href⟩ := hrefused
  unfold Replied at h
  rw [hsent] at h
  by_cases hlive : (s.clients i).disconnected = true
  · rw [if_pos hlive, List.append_right_eq_self] at h
    rw [h] at hmsg
    cases hmsg
  · rw [if_neg hlive] at h
    have hr := List.append_cancel_left h
    exact ⟨Bool.eq_false_iff.mpr hlive, msg, hr ▸ hmsg, href⟩

/-! ## The exception -/

/-- The content of a document, in memory or else in its file. -/
def storedContent (s : Server) (docId : UInt32) : Option (List UInt8) :=
  match s.manager.documents.lookup docId with
  | some ref => some (s.contentAt ref)
  | none     => s.manager.dataDir.txt docId

/-- A reader joins, and not again, a document whose content is not valid UTF-8. -/
def TornJoin (s : Server) (i : SessionId) (payload : Option Json) : Prop :=
  ∃ j docId content, Asks payload .docJoinRequest j ∧ docIdOf j = .ok docId ∧
    (s.clients i).authenticated = true ∧ (s.clients i).disconnected = false ∧
    s.access.canRead docId (s.clients i).userId = true ∧
    s.storedContent docId = some content ∧ ¬ Utf8.Valid content ∧
    ((s.clients i).currentDocId ≠ docId ∨ s.manager.documents.lookup docId = none)

/-- `get_or_create_session` does not change a document. -/
theorem contentAt_getOrCreateSession (ref : ℕ) :
    contentAt { s with manager := (s.manager.getOrCreateSession docId).1 } ref = s.contentAt ref := by
  unfold contentAt
  dsimp only
  rw [DocumentManager.session_getOrCreateSession]

theorem getDocument_opened {doc session : ℕ} (h : s.opened docId = some (doc, session)) :
    (s.getDocument docId).2 = some doc := by
  unfold opened at h
  split at h
  · case _ hdoc _ =>
      cases h
      exact hdoc
  · cases h

theorem openDocument_lookup {doc session : ℕ} (h : s.opened docId = some (doc, session)) :
    (s.openDocument docId).manager.documents.lookup docId = some doc := by
  unfold openDocument
  dsimp only
  rw [DocumentManager.documents_getOrCreateSession]
  exact getDocument_some (getDocument_opened h)

theorem storedContent_opened {doc session : ℕ} (h : s.opened docId = some (doc, session)) :
    s.storedContent docId = some ((s.openDocument docId).contentAt doc) := by
  have hdoc := getDocument_opened h
  unfold openDocument
  rw [contentAt_getOrCreateSession]
  unfold storedContent getDocument at *
  cases hl : s.manager.documents.lookup docId with
  | some ref =>
      rw [hl] at hdoc
      cases hdoc
      rfl
  | none =>
      rw [hl] at hdoc
      dsimp only at hdoc ⊢
      unfold DataDir.load at hdoc ⊢
      cases ht : s.manager.dataDir.txt docId with
      | none => rw [ht] at hdoc; cases hdoc
      | some content =>
          rw [ht] at hdoc
          simp only [Option.map_some, DocumentManager.publish, hl] at hdoc ⊢
          cases hdoc
          simp only [contentAt, DocumentManager.addDocument, Function.update_self, Document.loadContent]

theorem opened_of_storedContent {content : List UInt8} (h : s.storedContent docId = some content) :
    ∃ doc session, s.opened docId = some (doc, session) := by
  have hdoc : ∃ doc, (s.getDocument docId).2 = some doc := by
    unfold storedContent at h
    unfold getDocument
    cases hl : s.manager.documents.lookup docId with
    | some ref => exact ⟨ref, rfl⟩
    | none =>
        rw [hl] at h
        dsimp only at h ⊢
        unfold DataDir.load
        rw [h]
        exact ⟨_, rfl⟩
  obtain ⟨doc, hdoc⟩ := hdoc
  obtain ⟨session, hsession⟩ := getOrCreateSession_isSome (getDocument_some hdoc)
  refine ⟨doc, session, ?_⟩
  unfold opened
  rw [hdoc, hsession]

theorem opened_or_loaded (hdoc : s.manager.documents.lookup docId ≠ none) :
    s.openDocument docId = { s with manager := (s.manager.getOrCreateSession docId).1 } := by
  obtain ⟨ref, href⟩ := Option.ne_none_iff_exists'.mp hdoc
  unfold openDocument getDocument
  rw [href]

/-- Opening a document that has been opened before, and entering it again. -/
theorem untouched_reopened (hdoc : s.manager.documents.lookup docId ≠ none)
    (hcurrent : (s.clients i).currentDocId = docId) :
    s.Untouched ((s.openDocument docId).setCurrentDoc i docId) := by
  rw [opened_or_loaded hdoc]
  constructor
  · exact s.manager.documents_getOrCreateSession docId
  · exact s.manager.titles_getOrCreateSession docId
  · exact s.manager.dataDir_getOrCreateSession docId
  · rfl
  · rfl
  · exact s.manager.cursorBuffers_getOrCreateSession docId
  · exact fun ref => s.manager.session_getOrCreateSession docId ref
  · intro k
    by_cases hk : k = i
    · rw [hk, Server.setCurrentDoc, setClient_self, ← hcurrent]
    · rw [Server.setCurrentDoc, setClient_of_ne _ hk]

/-- What a torn join leaves: the document is open, it is the session's current one, and the session has
    been sent an error. -/
theorem handle_tornJoin (h : s.TornJoin i payload) :
    ∃ j docId message, Asks payload .docJoinRequest j ∧ docIdOf j = .ok docId ∧
      (s.clients i).disconnected = false ∧ (∃ doc session, s.opened docId = some (doc, session)) ∧
      ((s.clients i).currentDocId ≠ docId ∨ s.manager.documents.lookup docId = none) ∧
      s.handle i payload = ((s.openDocument docId).setCurrentDoc i docId).refuse i "invalid_message" message := by
  obtain ⟨j, docId, content, hj, hid, hauth, hlive, hread, hstored, hbad, hnew⟩ := h
  obtain ⟨doc, session, hopen⟩ := opened_of_storedContent hstored
  refine ⟨j, docId, "Malformed message: " ++ JsonException.invalidUtf8.what, hj, hid, hlive,
    ⟨doc, session, hopen⟩, hnew, ?_⟩
  obtain ⟨msg, enqueueJoin, hmsg, hcontent, _, hrun⟩ := run_handleDocJoin hid hread hopen
  have hserial : ¬ (ServerMsg.docJoinResponse msg).Serializable := by
    intro hserial
    rw [storedContent_opened hopen, Option.some.injEq] at hstored
    exact hbad (hstored ▸ hcontent ▸ hserial hmsg)
  have hjoin : (dispatch i .docJoinRequest j).run exec s =
      ((s.openDocument docId).setCurrentDoc i docId, .error .invalidUtf8) := by
    change (handleDocJoin i j).run exec s = _
    rw [hrun]
    unfold sendMsg
    rw [if_neg hserial]
    rfl
  unfold handle
  rw [run_handleMessage hj hauth, Prog.run_tryCatch, hjoin]
  dsimp only
  rw [run_sendError]

/-! ## The result -/

/-- **A refused request changes nothing**, unless it is a join that is torn. -/
theorem refused_untouched_iff (hlock : s.manager.locked = false) :
    (s.Refused (s.handle i payload) i → s.Untouched (s.handle i payload)) ↔ ¬ s.TornJoin i payload := by
  constructor
  · rintro h htorn
    obtain ⟨j, docId, message, hj, hid, hlive, ⟨doc, session, hopen⟩, hnew, hhandle⟩ := handle_tornJoin htorn
    rw [hhandle] at h
    have hself := clients_setCurrentDoc_self (s := s) (i := i) docId docId
    have hrefused : s.Refused (((s.openDocument docId).setCurrentDoc i docId).refuse i "invalid_message" message) i := by
      have hreplied := (sent_refuse ((s.openDocument docId).setCurrentDoc i docId) i "invalid_message" message).after
        (s := s) (by rw [hself]) (by rw [hself])
      unfold Replied at hreplied
      rw [hlive, if_neg (by decide)] at hreplied
      exact ⟨_, hreplied, _, List.mem_singleton_self _, rfl⟩
    have huntouched := (h hrefused).of_core (core_refuse _ i "invalid_message" message).symm
    obtain hcurrent | hloaded := hnew
    · have hcurrent' := congrArg ClientSession.currentDocId (huntouched.clients i)
      rw [hself] at hcurrent'
      exact hcurrent hcurrent'.symm
    · have hlookup := openDocument_lookup hopen
      have hsame : (s.openDocument docId).manager.documents = s.manager.documents := huntouched.documents
      rw [hsame, hloaded] at hlookup
      cases hlookup
  · intro htorn hrefused
    obtain ⟨s', t, replies, hrun, hd, hcore, hreplied⟩ := handleMessage_handled hlock i payload
    have hhandle : s.handle i payload = s' := congrArg Prod.fst hrun
    rw [hhandle] at hrefused ⊢
    obtain ⟨hlive, msg, hmsg, href⟩ := hreplied.refused hrefused
    refine Untouched.of_core ?_ hcore
    cases hd with
    | kept _ => exact .refl s
    | @torn j docId doc session message hj hid hauth hread hopen hbad =>
        have hdoc : (s.clients i).currentDocId = docId ∧ s.manager.documents.lookup docId ≠ none := by
          by_contra hne
          rw [not_and_or, not_not] at hne
          exact htorn ⟨j, docId, _, hj, hid, hauth, hlive, hread, storedContent_opened hopen, hbad, hne⟩
        exact untouched_reopened hdoc.2 hdoc.1
    | operated _ _ _ _ _ _ _ | moved _ _ _ _ _ => cases hmsg
    | joined _ _ _ _ _ _ hsuccess =>
        rw [List.mem_singleton.mp hmsg] at href
        change (!_) = true at href
        rw [hsuccess] at href
        cases href
    | _ =>
        -- its one reply is no refusal
        rw [List.mem_singleton.mp hmsg] at href
        cases href

/-- A user has a document open and an operation queued; another one is logged in and has no rights. -/
def strangerRun : List Event :=
  [.accept 1, .accept 2,
    .request 1 (some (AuthRequestMsg.toJson { action := "register", username := "a", password := "p" })),
    .request 2 (some (AuthRequestMsg.toJson { action := "register", username := "b", password := "p" })),
    .request 1 (some (docCreateRequest "t")), .request 1 (some (docIdRequest "doc_join_request" 1)), .process 0,
    .request 1 (some (operationRequest 1 0 [insertEntry 0 "x"]))]

/-- The stranger asks to join the document, and is refused. -/
theorem refused_untouched_stranger :
    ∃ s, Machine.run step (start plainEnvironment {}) strangerRun = some s ∧
      (s.manager.objects 0).session.connectedUsers.keys = [1] ∧
      (s.manager.objects 0).session.commandQueue.length = 1 ∧
      s.Refused (s.handle 2 (some (docIdRequest "doc_join_request" 1))) 2 ∧
      s.Untouched (s.handle 2 (some (docIdRequest "doc_join_request" 1))) := by
  have hrun : (Machine.run step (start plainEnvironment {}) strangerRun).isSome := by decide +kernel
  have hlock : ((Machine.run step (start plainEnvironment {}) strangerRun).get hrun).manager.locked = false := by
    decide +kernel +revert
  have hread : ((Machine.run step (start plainEnvironment {}) strangerRun).get hrun).access.canRead 1
      (((Machine.run step (start plainEnvironment {}) strangerRun).get hrun).clients 2).userId = false := by
    clear hlock
    decide +kernel +revert
  have hrefused : Refused ((Machine.run step (start plainEnvironment {}) strangerRun).get hrun)
      (((Machine.run step (start plainEnvironment {}) strangerRun).get hrun).handle 2
        (some (docIdRequest "doc_join_request" 1))) 2 := by
    clear hlock hread
    refine ⟨[.docJoinResponse { success := false, error := "access_denied" }], ?_, _, List.mem_singleton_self _, rfl⟩
    decide +kernel +revert
  refine ⟨_, (Option.some_get hrun).symm, ?_, ?_, hrefused, (refused_untouched_iff hlock).mpr ?_ hrefused⟩
  · clear hlock hread hrefused
    decide +kernel +revert
  · clear hlock hread hrefused
    decide +kernel +revert
  · rintro ⟨j, docId, _, ⟨hj, _⟩, hid, _, _, htorn, _⟩
    cases hj
    rw [docIdOf_request] at hid
    cases hid
    rw [hread] at htorn
    cases htorn

/-- A user creates and joins a document, inserts a two-byte character, deletes its first byte and leaves. -/
def tornRun : List Event :=
  [.accept 1, .request 1 (some (AuthRequestMsg.toJson { action := "register", username := "a", password := "p" })),
    .request 1 (some (docCreateRequest "t")), .request 1 (some (docIdRequest "doc_join_request" 1)), .process 0,
    .request 1 (some (operationRequest 1 0 [insertEntry 0 "é"])), .process 0,
    .request 1 (some (operationRequest 1 1 [deleteEntry 0 1])), .process 0,
    .request 1 (some (docIdRequest "doc_leave_request" 1))]

/-- The user's next join is refused, and yet the document becomes its current one. -/
theorem torn_join_enters :
    ∃ s, Machine.run step (start plainEnvironment {}) tornRun = some s ∧
      s.Refused (s.handle 1 (some (docIdRequest "doc_join_request" 1))) 1 ∧
      ¬ s.Untouched (s.handle 1 (some (docIdRequest "doc_join_request" 1))) := by
  have hrun : (Machine.run step (start plainEnvironment {}) tornRun).isSome := by decide +kernel
  refine ⟨_, (Option.some_get hrun).symm, ⟨[.error
    { code := "invalid_message",
      message := "Malformed message: [json.exception.type_error.316] invalid UTF-8 byte" }], ?_, _,
    List.mem_singleton_self _, rfl⟩, fun h => ?_⟩
  · decide +kernel +revert
  · replace h := congrArg ClientSession.currentDocId (h.clients 1)
    revert h
    decide +kernel +revert

end Server

end CollabEditor
