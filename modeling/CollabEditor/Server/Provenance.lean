import CollabEditor.Server.Revocation

/-!
# `Server.Provenance` — where a change of a document comes from

The text of a document changes only where its thread processes an operation. The operation was put into the queue
by a request of a session that at that time had logged in, had the document open and had the right to edit it.
The right may be gone when the operation is processed; it was there when the request was handled. Before that
request, the session had presented the password of the account it speaks for.

## Contents
- **Logins.** `Speaks`, `LogsIn`, `speaks_step`, `speaks_origin`.
- **Operations.** `Submits`, `submits_step`, `submits_origin`.
- **Texts.** `changes_processed`, and the result, `changes_traced`.
-/

namespace CollabEditor

namespace Server

/-! ## Logins -/

/-- The session is logged in to an account. -/
def Speaks (s : Server) (i : SessionId) (userId : UInt32) (username : String) : Prop :=
  (s.clients i).authenticated = true ∧ (s.clients i).userId = userId ∧ (s.clients i).username = username

/-- The request registers the account, or logs in to it with its password. -/
def LogsIn (s : Server) (payload : Option Json) (userId : UInt32) (username : String) : Prop :=
  ∃ j msg auth, Asks payload .authRequest j ∧ AuthRequestMsg.fromJson j = .ok msg ∧ msg.username = username ∧
    s.Authenticates msg auth userId

section Logins

variable {s s' t : Server} {e : Event} {i k : SessionId} {payload : Option Json} {userId : UInt32} {username : String}

/-- Only the account fields of the session matter. -/
theorem Speaks.of_clients (h : t.Speaks k userId username)
    (hsame : (t.clients k).authenticated = (s.clients k).authenticated ∧
      (t.clients k).userId = (s.clients k).userId ∧ (t.clients k).username = (s.clients k).username) :
    s.Speaks k userId username := by
  obtain ⟨hauth, hid, hname⟩ := hsame
  unfold Speaks at *
  rw [← hauth, ← hid, ← hname]
  exact h

theorem Speaks.of_eq (h : t.Speaks k userId username) (hsame : t.clients = s.clients) :
    s.Speaks k userId username := by
  refine h.of_clients ?_
  rw [hsame]
  exact ⟨rfl, rfl, rfl⟩

theorem Speaks.of_setCurrentDoc {docId : UInt32} (h : (t.setCurrentDoc i docId).Speaks k userId username)
    (hsame : t.clients = s.clients) : s.Speaks k userId username := by
  refine h.of_clients ?_
  unfold Server.setCurrentDoc
  by_cases hk : k = i
  · subst hk
    rw [setClient_self, hsame]
    exact ⟨rfl, rfl, rfl⟩
  · rw [setClient_of_ne _ hk, hsame]
    exact ⟨rfl, rfl, rfl⟩

theorem Speaks.of_core (h : s'.Speaks k userId username) (hcore : s'.core = t.core) :
    t.Speaks k userId username := by
  have hquiet := quiet_of_core hcore k
  have hauth := congrArg ClientSession.authenticated hquiet
  have hid := congrArg ClientSession.userId hquiet
  have hname := congrArg ClientSession.username hquiet
  exact h.of_clients ⟨hauth, hid, hname⟩

theorem speaks_handled {replies : List (ServerMsg UInt8)} (hd : Handled s i payload t replies)
    (h : t.Speaks k userId username) :
    s.Speaks k userId username ∨ k = i ∧ s.LogsIn payload userId username := by
  cases hd with
  | kept _ => exact .inl h
  | @authenticated j msg auth userId' hj hmsg hauth =>
      by_cases hk : k = i
      · -- the session speaks for the account that the request has authenticated
        subst hk
        unfold Speaks authenticate at h
        rw [setClient_self] at h
        obtain ⟨-, hid, hname⟩ := h
        cases hid
        exact .inr ⟨rfl, j, msg, auth, hj, hmsg, hname, hauth⟩
      · refine .inl (h.of_clients ?_)
        unfold authenticate
        rw [setClient_of_ne _ hk]
        exact ⟨rfl, rfl, rfl⟩
  | created _ _ _ => exact .inl (h.of_eq rfl)
  | torn _ _ _ _ _ _ _ => exact .inl (h.of_setCurrentDoc (clients_openDocument _))
  | @joined j docId doc session msg _ _ _ _ _ _ _ =>
      have hjoined : ((s.openDocument docId).setCurrentDoc i docId).Speaks k userId username := h
      exact .inl (hjoined.of_setCurrentDoc (clients_openDocument _))
  | left _ _ _ => exact .inl (h.of_setCurrentDoc (clients_enqueueLeave _))
  | @deleted j docId _ _ _ _ =>
      have hdeleted : (s.enqueueDelete docId).Speaks k userId username := h
      exact .inl (hdeleted.of_eq (clients_enqueueDelete docId))
  | shared _ _ _ _ _ _ _ => exact .inl (h.of_eq rfl)
  | operated _ _ _ _ _ _ _ => exact .inl (h.of_eq (clients_enqueueAll _ _))
  | moved _ _ _ _ _ => exact .inl (h.of_eq rfl)

/-- **A session comes to speak for an account** only by a request of its own that logs in to it. -/
theorem speaks_step (hsound : s.Sound) (hs : step s e = some s') (h : s'.Speaks k userId username) :
    s.Speaks k userId username ∨ ∃ payload, e = .request k payload ∧ s.LogsIn payload userId username := by
  cases e with
  | accept i =>
      obtain ⟨_, _, rfl⟩ := accept_cases hs
      exact .inl h
  | request i payload =>
      obtain ⟨t, _, hd, hcore, _⟩ := request_cases hsound.unlocked hs
      rcases speaks_handled hd (h.of_core hcore) with hold | ⟨rfl, hlogin⟩
      · exact .inl hold
      · exact .inr ⟨payload, rfl, hlogin⟩
  | drop i =>
      obtain ⟨_, _, rfl⟩ := drop_cases hs
      refine .inl (h.of_clients ?_)
      rw [clients_disconnect]
      by_cases hk : k = i
      · rw [hk, setClient_self]
        exact ⟨rfl, rfl, rfl⟩
      · rw [setClient_of_ne _ hk]
        exact ⟨rfl, rfl, rfl⟩
  | process ref =>
      obtain ⟨_, _, _, hcore⟩ := process_cases hs
      exact .inl ((h.of_core hcore).of_eq rfl)
  | exit ref =>
      rw [exit_cases hs] at h
      exact .inl h
  | sendCursors docId => exact .inl (h.of_core (sendCursors_core hs))

/-- Nobody speaks for an account at the start. -/
theorem speaks_origin {env : Environment} {dataDir : DataDir} {es : List Event}
    (hr : Machine.run step (start env dataDir) es = some s) (h : s.Speaks k userId username) :
    ∃ es₁ payload es₂ t, es = es₁ ++ .request k payload :: es₂ ∧
      Machine.run step (start env dataDir) es₁ = some t ∧ t.LogsIn payload userId username := by
  have hstart : ¬ (start env dataDir).Speaks k userId username := fun hs => Bool.noConfusion hs.1
  obtain ⟨es₁, e, es₂, t, t', hes, ht, ht', hnot, hyes⟩ :=
    Machine.run_origin (Q := fun s => s.Speaks k userId username) hstart hr h
  obtain ⟨payload, rfl, hlogin⟩ := (speaks_step (run_sound ht) ht' hyes).resolve_left hnot
  exact ⟨es₁, payload, es₂, t, hes, ht, hlogin⟩

end Logins

/-! ## Operations -/

/-- The request puts the operation into the queue of the document session `ref`: its session speaks for the
    command's user, has the document open and may edit it. -/
def Submits (s : Server) (i : SessionId) (payload : Option Json) (ref : ℕ) (cmd : DocCommand UInt8 SessionId) :
    Prop :=
  ∃ j msg, Asks payload .operation j ∧ OperationMsg.fromJson j = .ok msg ∧
    s.Speaks i cmd.userId cmd.username ∧ (s.clients i).currentDocId = msg.docId ∧
    (s.sessionOf ref).doc.id = msg.docId ∧ s.access.canEdit msg.docId cmd.userId = true ∧
    ∃ entry ∈ msg.ops, cmd.operation = fromEntry entry cmd.userId msg.revision

section Operations

variable {s s' t : Server} {e : Event} {i : SessionId} {payload : Option Json} {ref : ℕ}
  {cmd : DocCommand UInt8 SessionId}

/-- A command of another kind does not bring the operation into a queue. -/
theorem queued_enqueue {r : ℕ} {c : DocCommand UInt8 SessionId} (hc : c.type ≠ .operation)
    (htype : cmd.type = .operation) (h : cmd ∈ ((s.enqueue r c).sessionOf ref).commandQueue) :
    cmd ∈ (s.sessionOf ref).commandQueue := by
  rw [sessionOf_enqueue] at h
  split_ifs at h
  · rcases List.mem_append.mp h with hold | hnew
    · exact hold
    · rw [List.mem_singleton.mp hnew] at htype
      exact absurd htype hc
  · exact h

theorem queued_enqueueLeave {docId : UInt32} (htype : cmd.type = .operation)
    (h : cmd ∈ ((s.enqueueLeave i docId).sessionOf ref).commandQueue) : cmd ∈ (s.sessionOf ref).commandQueue := by
  unfold enqueueLeave at h
  split at h
  · exact h
  · exact queued_enqueue (fun hc => CommandType.noConfusion hc) htype h

theorem submits_handled {replies : List (ServerMsg UInt8)} (hsound : s.Sound) (hd : Handled s i payload t replies)
    (htype : cmd.type = .operation) (h : cmd ∈ (t.sessionOf ref).commandQueue) :
    cmd ∈ (s.sessionOf ref).commandQueue ∨ s.Submits i payload ref cmd := by
  cases hd with
  | kept _ => exact .inl h
  | authenticated _ _ _ => exact .inl h
  | created _ _ _ =>
      rw [sessionOf_createDocument] at h
      split_ifs at h
      · exact absurd h List.not_mem_nil
      · exact .inl h
  | torn _ _ _ _ hread _ _ =>
      have hsession := sessionOf_openDocument hsound hread ref
      rw [← hsession]
      exact .inl h
  | @joined j docId doc session msg _ _ _ hread hopen _ _ =>
      have hbase : ((s.openDocument docId).setCurrentDoc i docId).sessionOf ref = s.sessionOf ref :=
        sessionOf_openDocument hsound hread ref
      rw [← hbase]
      exact .inl (queued_enqueue (fun hc => CommandType.noConfusion hc) htype h)
  | left _ _ _ => exact .inl (queued_enqueueLeave htype h)
  | @deleted j docId _ _ _ _ =>
      rw [sessionOf_deleteDocument] at h
      unfold enqueueDelete at h
      split at h
      · exact .inl h
      · exact .inl (queued_enqueue (fun hc => CommandType.noConfusion hc) htype h)
  | shared _ _ _ _ _ _ _ => exact .inl h
  | @operated j msg session hj hmsg hauth hdoc hedit _ hsession =>
      rw [sessionOf_enqueueAll] at h
      split_ifs at h with href
      · subst href
        rcases List.mem_append.mp h with hold | hnew
        · exact .inl hold
        · -- the operation is one of the message
          obtain ⟨entry, hentry, rfl⟩ := List.mem_map.mp hnew
          have hid : (s.sessionOf ref).doc.id = msg.docId := (hsound.tables.session hsession).2
          exact .inr ⟨j, msg, hj, hmsg, ⟨hauth, rfl, rfl⟩, hdoc, hid, hedit, entry, hentry, rfl⟩
      · exact .inl h
  | moved _ _ _ _ _ => exact .inl h

/-- **An operation comes into the queue of a document** only by a request that submits it. -/
theorem submits_step (hsound : s.Sound) (hs : step s e = some s') (htype : cmd.type = .operation)
    (h : cmd ∈ (s'.sessionOf ref).commandQueue) :
    cmd ∈ (s.sessionOf ref).commandQueue ∨
      ∃ i payload, e = .request i payload ∧ s.Submits i payload ref cmd := by
  cases e with
  | accept i =>
      obtain ⟨_, _, rfl⟩ := accept_cases hs
      exact .inl h
  | request i payload =>
      obtain ⟨t, _, hd, hcore, _⟩ := request_cases hsound.unlocked hs
      unfold sessionOf at h
      rw [manager_of_core hcore] at h
      exact (submits_handled hsound hd htype h).imp_right fun hsubmits => ⟨i, payload, rfl, hsubmits⟩
  | drop i =>
      obtain ⟨_, _, rfl⟩ := drop_cases hs
      rw [sessionOf_disconnect] at h
      split_ifs at h
      · have hold := queued_enqueueLeave htype h
        exact .inl hold
      · exact .inl h
  | process r =>
      obtain ⟨session, sends, hnext, hcore⟩ := process_cases hs
      unfold sessionOf at h
      rw [manager_of_core hcore] at h
      change cmd ∈ ((s.manager.setSession r session).objects ref).session.commandQueue at h
      rw [DocumentManager.session_setSession] at h
      split_ifs at h with href
      · -- the command that is processed leaves the queue
        obtain ⟨c, rest, hqueue, hcmd⟩ := DocumentSession.processNext_cases hnext
        have hrest := DocumentSession.processCommand_queue ((s.manager.objects r).session.setQueue rest) c
        rw [hcmd] at hrest
        refine .inl ?_
        rw [href, sessionOf, hqueue]
        rw [hrest] at h
        exact List.mem_cons_of_mem c h
      · exact .inl h
  | exit r =>
      rw [exit_cases hs] at h
      have hsession := s.manager.session_update r ref { s.manager.objects r with exited := true } rfl
      refine .inl ?_
      rw [sessionOf, ← hsession]
      exact h
  | sendCursors docId =>
      unfold sessionOf at h
      rw [manager_of_core (sendCursors_core hs)] at h
      exact .inl h

/-- The queues are empty at the start. -/
theorem submits_origin {env : Environment} {dataDir : DataDir} {es : List Event}
    (hr : Machine.run step (start env dataDir) es = some s) (htype : cmd.type = .operation)
    (h : cmd ∈ (s.sessionOf ref).commandQueue) :
    ∃ es₁ i payload es₂ t, es = es₁ ++ .request i payload :: es₂ ∧
      Machine.run step (start env dataDir) es₁ = some t ∧ t.Submits i payload ref cmd := by
  have hstart : cmd ∉ ((start env dataDir).sessionOf ref).commandQueue := List.not_mem_nil
  obtain ⟨es₁, e, es₂, t, t', hes, ht, ht', hnot, hyes⟩ :=
    Machine.run_origin (Q := fun s => cmd ∈ (s.sessionOf ref).commandQueue) hstart hr h
  obtain ⟨i, payload, rfl, hsubmits⟩ := (submits_step (run_sound ht) ht' htype hyes).resolve_left hnot
  exact ⟨es₁, i, payload, es₂, t, hes, ht, hsubmits⟩

end Operations

/-! ## Texts -/

/-- What a document holds of its users' work. -/
def written (doc : Document UInt8) : List UInt8 × UInt32 × List (Operation UInt8) :=
  (doc.content, doc.revision, doc.history)

section Texts

variable {s s' : Server} {e : Event} {ref : ℕ}

/-- Members come and go without a change of the text. -/
theorem written_processCommand (session : DocumentSession UInt8 SessionId) {cmd : DocCommand UInt8 SessionId}
    (htype : cmd.type ≠ .operation) : written (session.processCommand cmd).1.doc = written session.doc := by
  unfold DocumentSession.processCommand
  cases hcmd : cmd.type with
  | operation => exact absurd hcmd htype
  | join => rfl
  | leave => rfl
  | delete => rfl
  | shutdown => rfl

/-- **The text of a document changes** only by the operation at the head of its queue. -/
theorem changes_processed (hsound : s.Sound) (hs : step s e = some s') (href : ref < s.manager.allocated)
    (hchange : written (s'.sessionOf ref).doc ≠ written (s.sessionOf ref).doc) :
    ∃ cmd rest, (s.sessionOf ref).commandQueue = cmd :: rest ∧ cmd.type = .operation ∧
      (s'.sessionOf ref).doc = ((s.sessionOf ref).doc.applyWithOt cmd.operation).1 := by
  have hadvanced := advanced_step hsound hs ref
  generalize s'.sessionOf ref = session at hadvanced hchange ⊢
  cases hadvanced with
  | kept => exact absurd rfl hchange
  | created doc hnew => exact absurd hnew (Nat.ne_of_lt href)
  | enqueued cmds _ => exact absurd rfl hchange
  | processed hnext =>
      obtain ⟨cmd, rest, hqueue, hcmd⟩ := DocumentSession.processNext_cases hnext
      have htype : cmd.type = .operation := by
        by_contra hother
        refine hchange ?_
        have hsame := written_processCommand ((s.sessionOf ref).setQueue rest) hother
        rw [hcmd] at hsame
        exact hsame
      refine ⟨cmd, rest, hqueue, htype, ?_⟩
      rw [DocumentSession.processCommand_operation _ htype] at hcmd
      have hsession := DocumentSession.handleOperation_fst ((s.sessionOf ref).setQueue rest) cmd
      rw [hcmd] at hsession
      exact congrArg DocumentSession.doc hsession

end Texts

/-- **Every change of a text is traced to a password.** Whatever step changes the text, the revision or the
    history of a document in memory, it applies an operation that an earlier request submitted: a request of a
    session that then had the document open and the right to edit it, and that had logged in before to the
    account in whose name the operation is stored. -/
theorem changes_traced {env : Environment} {dataDir : DataDir} {es : List Event} {s s' : Server} {e : Event} {ref : ℕ}
    (hr : Machine.run step (start env dataDir) es = some s) (hs : step s e = some s')
    (href : ref < s.manager.allocated)
    (hchange : written (s'.sessionOf ref).doc ≠ written (s.sessionOf ref).doc) :
    ∃ cmd rest, (s.sessionOf ref).commandQueue = cmd :: rest ∧
      (s'.sessionOf ref).doc = ((s.sessionOf ref).doc.applyWithOt cmd.operation).1 ∧
      ∃ es₁ i payload es₂ s₁, es = es₁ ++ .request i payload :: es₂ ∧
        Machine.run step (start env dataDir) es₁ = some s₁ ∧ s₁.Submits i payload ref cmd ∧
        ∃ es₃ payload' es₄ s₃, es₁ = es₃ ++ .request i payload' :: es₄ ∧
          Machine.run step (start env dataDir) es₃ = some s₃ ∧ s₃.LogsIn payload' cmd.userId cmd.username := by
  obtain ⟨cmd, rest, hqueue, htype, hdoc⟩ := changes_processed (run_sound hr) hs href hchange
  have hmem : cmd ∈ (s.sessionOf ref).commandQueue := by
    rw [hqueue]
    exact List.mem_cons_self
  obtain ⟨es₁, i, payload, es₂, s₁, hes, hs₁, hsubmits⟩ := submits_origin hr htype hmem
  obtain ⟨_, _, _, _, hspeaks, _⟩ := id hsubmits
  obtain ⟨es₃, payload', es₄, s₃, hes₁, hs₃, hlogin⟩ := speaks_origin hs₁ hspeaks
  refine ⟨cmd, rest, hqueue, hdoc, es₁, i, payload, es₂, s₁, hes, hs₁, hsubmits, ?_⟩
  exact ⟨es₃, payload', es₄, s₃, hes₁, hs₃, hlogin⟩

/-- An operation is submitted, and is next to be processed. -/
def submittedRun : List Event :=
  [.accept 1, .request 1 (some (AuthRequestMsg.toJson { action := "register", username := "a", password := "p" })),
    .request 1 (some (docCreateRequest "t")), .request 1 (some (docIdRequest "doc_join_request" 1)), .process 0,
    .request 1 (some (operationRequest 1 0 [insertEntry 0 "x"]))]

theorem changes_traced_submitted :
    ∃ s s', Machine.run step (start plainEnvironment {}) submittedRun = some s ∧ step s (.process 0) = some s' ∧
      ∃ cmd rest, (s.sessionOf 0).commandQueue = cmd :: rest ∧
        (s'.sessionOf 0).doc = ((s.sessionOf 0).doc.applyWithOt cmd.operation).1 ∧
        ∃ es₁ i payload es₂ s₁, submittedRun = es₁ ++ .request i payload :: es₂ ∧
          Machine.run step (start plainEnvironment {}) es₁ = some s₁ ∧ s₁.Submits i payload 0 cmd ∧
          ∃ es₃ payload' es₄ s₃, es₁ = es₃ ++ .request i payload' :: es₄ ∧
            Machine.run step (start plainEnvironment {}) es₃ = some s₃ ∧
            s₃.LogsIn payload' cmd.userId cmd.username := by
  have hrun : (Machine.run step (start plainEnvironment {}) submittedRun).isSome := by decide +kernel
  have hnext : (step ((Machine.run step (start plainEnvironment {}) submittedRun).get hrun) (.process 0)).isSome := by
    decide +kernel +revert
  have href : 0 < ((Machine.run step (start plainEnvironment {}) submittedRun).get hrun).manager.allocated := by
    decide +kernel +revert
  refine ⟨_, _, (Option.some_get hrun).symm, (Option.some_get hnext).symm, ?_⟩
  refine changes_traced (Option.some_get hrun).symm (Option.some_get hnext).symm href ?_
  clear href
  decide +kernel +revert

end Server

end CollabEditor
