import CollabEditor.Server.Rooms
import CollabEditor.Server.Sending

/-!
# `Server.Revocation` — what a user without a role on a document still takes part in

Rights are looked at when a join or an operation is handled. A member whose role is revoked stays a member,
and its operations that are queued by then are still applied; nothing is added to either until a role is
granted again.

## Contents
- **What a step does to a document session.** `Permits`, `Advanced`, `advanced_step`.
- **Members and operations of a user.** `MemberAs`, `Entered`, `queuedBy`, `Residue`, `residue_run`.
- **The result.** `revoked_takes_no_part`.
-/

namespace CollabEditor

namespace Server

/-! ## What a step does to a document session -/

/-- The rights let the command's user enqueue it on document `d`. -/
def Permits (s : Server) (d : UInt32) (cmd : DocCommand UInt8 SessionId) : Prop :=
  match cmd.type with
  | .join      => s.access.canRead d cmd.userId = true
  | .operation => s.access.canEdit d cmd.userId = true
  | _          => True

/-- What a step can make of the session of an object. -/
inductive Advanced (s : Server) (ref : ℕ) : DocumentSession UInt8 SessionId → Prop where
  | kept : Advanced s ref (s.sessionOf ref)
  | created (doc : Document UInt8) (href : ref = s.manager.allocated) : Advanced s ref { doc := doc }
  | enqueued (cmds : List (DocCommand UInt8 SessionId))
      (h : ∀ cmd ∈ cmds, s.Permits (s.sessionOf ref).doc.id cmd) :
      Advanced s ref { s.sessionOf ref with commandQueue := (s.sessionOf ref).commandQueue ++ cmds }
  | processed {session : DocumentSession UInt8 SessionId} {sends : List (SessionId × ServerMsg UInt8)}
      (h : (s.sessionOf ref).processNext = some (session, sends)) : Advanced s ref session

section Steps

variable {s s' t : Server} {e : Event} {i : SessionId} {payload : Option Json} {ref : ℕ} {docId : UInt32}

/-- A command enqueued on some object. -/
theorem advanced_enqueue {r : ℕ} {cmd : DocCommand UInt8 SessionId}
    (h : s.Permits (s.sessionOf r).doc.id cmd) : s.Advanced ref ((s.enqueue r cmd).sessionOf ref) := by
  rw [sessionOf_enqueue]
  split_ifs with href
  · subst href
    refine .enqueued [cmd] fun c hc => ?_
    rw [List.mem_singleton.mp hc]
    exact h
  · exact .kept

theorem advanced_enqueueLeave : s.Advanced ref ((s.enqueueLeave i docId).sessionOf ref) := by
  unfold enqueueLeave
  split
  · exact .kept
  · exact advanced_enqueue trivial

theorem advanced_handled {replies : List (ServerMsg UInt8)} (h : s.Sound) (hd : Handled s i payload t replies) :
    s.Advanced ref (t.sessionOf ref) := by
  cases hd with
  | kept _ => exact .kept
  | authenticated _ _ _ => exact .kept
  | created _ _ _ =>
      rw [sessionOf_createDocument]
      split_ifs with href
      · exact .created _ href
      · exact .kept
  | torn _ _ _ _ hread _ _ =>
      have hsession := sessionOf_openDocument h hread ref
      exact hsession ▸ .kept
  | @joined j docId doc session msg _ _ _ hread hopen _ _ =>
      have hbase : ((s.openDocument docId).setCurrentDoc i docId).sessionOf ref = s.sessionOf ref :=
        sessionOf_openDocument h hread ref
      rw [sessionOf_enqueue, hbase]
      split_ifs with href
      · subst href
        refine .enqueued [s.joinCommand i] fun cmd hcmd => ?_
        rw [List.mem_singleton.mp hcmd, opened_id h hread hopen]
        exact hread
      · exact .kept
  | left _ _ _ => exact advanced_enqueueLeave
  | @deleted _ docId _ _ _ _ =>
      rw [sessionOf_deleteDocument]
      unfold enqueueDelete
      split
      · exact .kept
      · exact advanced_enqueue trivial
  | shared _ _ _ _ _ _ _ => exact .kept
  | @operated j msg session _ _ _ _ hedit _ hsession =>
      rw [sessionOf_enqueueAll]
      split_ifs with href
      · subst href
        refine .enqueued _ fun cmd hcmd => ?_
        obtain ⟨entry, _, rfl⟩ := List.mem_map.mp hcmd
        have hid : (s.sessionOf ref).doc.id = msg.docId := (h.tables.session hsession).2
        rw [hid]
        exact hedit
      · exact .kept
  | moved _ _ _ _ _ => exact .kept

theorem Advanced.of_manager (h : s.Advanced ref (t.sessionOf ref)) (hm : s'.manager = t.manager) :
    s.Advanced ref (s'.sessionOf ref) := by
  unfold sessionOf at h ⊢
  rw [hm]
  exact h

theorem advanced_step (h : s.Sound) (hs : step s e = some s') (ref : ℕ) : s.Advanced ref (s'.sessionOf ref) := by
  cases e with
  | accept i =>
      obtain ⟨_, _, rfl⟩ := accept_cases hs
      exact .kept
  | request i payload =>
      obtain ⟨t, _, hd, hcore, _⟩ := request_cases h.unlocked hs
      exact (advanced_handled h hd).of_manager (manager_of_core hcore)
  | drop i =>
      obtain ⟨_, _, rfl⟩ := drop_cases hs
      rw [sessionOf_disconnect]
      split_ifs
      · rw [sessionOf_enqueueLeave]
        split
        · exact .kept
        · split_ifs
          · exact .enqueued [_] fun cmd hcmd => List.mem_singleton.mp hcmd ▸ trivial
          · exact .kept
      · exact .kept
  | process r =>
      obtain ⟨session, sends, hnext, hcore⟩ := process_cases hs
      refine Advanced.of_manager (t := { s with manager := s.manager.setSession r session }) ?_
        (manager_of_core hcore)
      change s.Advanced ref ((s.manager.setSession r session).objects ref).session
      rw [DocumentManager.session_setSession]
      split_ifs with href
      · exact .processed (href ▸ hnext)
      · exact .kept
  | exit r =>
      rw [exit_cases hs]
      have hsession := s.manager.session_update r ref { s.manager.objects r with exited := true } rfl
      exact (congrArg (s.Advanced ref) hsession).mpr .kept
  | sendCursors d => exact Advanced.of_manager .kept (manager_of_core (sendCursors_core hs))

end Steps

/-! ## Members and operations of a user -/

/-- Session `k` is a member under the user id `u`. -/
def MemberAs (session : DocumentSession UInt8 SessionId) (u : UInt32) (k : SessionId) : Prop :=
  ∃ user, session.connectedUsers.lookup u = some user ∧ user.session = some k

/-- Session `k` is a member under the user id `u`, or its Join is queued. -/
def Entered (session : DocumentSession UInt8 SessionId) (u : UInt32) (k : SessionId) : Prop :=
  MemberAs session u k ∨
    ∃ cmd ∈ session.commandQueue, cmd.type = .join ∧ cmd.userId = u ∧ cmd.session = some k

/-- The queued operations of a user. -/
def queuedBy (session : DocumentSession UInt8 SessionId) (u : UInt32) : List (DocCommand UInt8 SessionId) :=
  session.commandQueue.filter fun cmd => cmd.type = .operation ∧ cmd.userId = u

/-- What `t` still holds of user `u` on document `d` was there in `s`. -/
def Residue (s : Server) (d u : UInt32) (t : Server) : Prop :=
  ∀ ref, (t.sessionOf ref).doc.id = d →
    (∀ k, Entered (t.sessionOf ref) u k → Entered (s.sessionOf ref) u k) ∧
      queuedBy (t.sessionOf ref) u <:+ queuedBy (s.sessionOf ref) u

section Residue

variable {s t t' : Server} {e : Event} {d u : UInt32}

theorem entered_processNext {session session' : DocumentSession UInt8 SessionId}
    {sends : List (SessionId × ServerMsg UInt8)} (h : session.processNext = some (session', sends)) {k : SessionId}
    (hk : Entered session' u k) : Entered session u k := by
  obtain ⟨cmd, rest, hqueue, hcmd⟩ := DocumentSession.processNext_cases h
  have husers := DocumentSession.processCommand_users (session.setQueue rest) cmd
  have hrest := DocumentSession.processCommand_queue (session.setQueue rest) cmd
  rw [hcmd] at husers hrest
  obtain ⟨user, huser, hsession⟩ | ⟨c, hc, hjoin⟩ := hk
  · rw [husers] at huser
    unfold DocumentSession.usersAfter at huser
    cases htype : cmd.type with
    | join =>
        rw [htype] at huser
        dsimp only at huser
        by_cases hu : u = cmd.userId
        · rw [hu, AList.lookup_insert] at huser
          cases huser
          exact .inr ⟨cmd, hqueue ▸ List.mem_cons_self .., htype, hu.symm, hsession⟩
        · rw [AList.lookup_insert_ne hu] at huser
          exact .inl ⟨user, huser, hsession⟩
    | leave =>
        rw [htype] at huser
        dsimp only at huser
        by_cases hu : u = cmd.userId
        · rw [hu, AList.lookup_erase] at huser
          cases huser
        · rw [AList.lookup_erase_ne hu] at huser
          exact .inl ⟨user, huser, hsession⟩
    | delete =>
        rw [htype] at huser
        cases huser
    | operation =>
        rw [htype] at huser
        exact .inl ⟨user, huser, hsession⟩
    | shutdown =>
        rw [htype] at huser
        exact .inl ⟨user, huser, hsession⟩
  · rw [hrest] at hc
    exact .inr ⟨c, hqueue ▸ List.mem_cons_of_mem cmd hc, hjoin⟩

theorem queuedBy_processNext {session session' : DocumentSession UInt8 SessionId}
    {sends : List (SessionId × ServerMsg UInt8)} (h : session.processNext = some (session', sends)) :
    queuedBy session' u <:+ queuedBy session u := by
  obtain ⟨cmd, rest, hqueue, hcmd⟩ := DocumentSession.processNext_cases h
  have hrest := DocumentSession.processCommand_queue (session.setQueue rest) cmd
  rw [hcmd] at hrest
  unfold queuedBy
  rw [hrest, hqueue]
  exact (List.suffix_cons cmd rest).filter _

theorem residue_step (hsound : t.Sound) (h : Residue s d u t) (hrole : t.access.getRole d u = none)
    (hs : step t e = some t') : Residue s d u t' := by
  intro ref hid
  have hadv := advanced_step hsound hs ref
  generalize t'.sessionOf ref = session at *
  cases hadv with
  | kept => exact h ref hid
  | created doc href =>
      -- a new document has no members and no queue
      refine ⟨fun k hk => ?_, List.nil_suffix⟩
      obtain ⟨user, huser, _⟩ | ⟨cmd, hcmd, _⟩ := hk
      · cases huser
      · cases hcmd
  | enqueued cmds hcmds =>
      obtain ⟨hentered, hqueued⟩ := h ref hid
      have hother : ∀ cmd ∈ cmds, (cmd.type = .join ∨ cmd.type = .operation) → cmd.userId ≠ u := by
        rintro cmd hcmd htype rfl
        have hpermits := hcmds cmd hcmd
        change (t.sessionOf ref).doc.id = d at hid
        rw [hid] at hpermits
        unfold Permits at hpermits
        obtain htype | htype := htype
        · rw [htype] at hpermits
          dsimp only at hpermits
          unfold AccessControl.canRead at hpermits
          rw [hrole] at hpermits
          cases hpermits
        · rw [htype] at hpermits
          dsimp only at hpermits
          unfold AccessControl.canEdit at hpermits
          rw [hrole] at hpermits
          cases hpermits
      constructor
      · rintro k (hmember | ⟨cmd, hcmd, htype, huser, hsession⟩)
        · exact hentered k (.inl hmember)
        · obtain hold | hnew := List.mem_append.mp hcmd
          · exact hentered k (.inr ⟨cmd, hold, htype, huser, hsession⟩)
          · exact absurd huser (hother cmd hnew (.inl htype))
      · have hnone : cmds.filter (fun cmd => cmd.type = .operation ∧ cmd.userId = u) = [] := by
          refine List.filter_eq_nil_iff.mpr fun cmd hcmd hop => ?_
          rw [decide_eq_true_iff] at hop
          exact hother cmd hcmd (.inr hop.1) hop.2
        unfold queuedBy at hqueued ⊢
        rw [List.filter_append, hnone, List.append_nil]
        exact hqueued
  | processed hnext =>
      obtain ⟨cmd, rest, hqueue, hcmd⟩ := DocumentSession.processNext_cases hnext
      have hsame := DocumentSession.processCommand_id ((t.sessionOf ref).setQueue rest) cmd
      rw [hcmd] at hsame
      obtain ⟨hentered, hqueued⟩ := h ref (hsame.symm.trans hid)
      exact ⟨fun k hk => hentered k (entered_processNext hnext hk), (queuedBy_processNext hnext).trans hqueued⟩

theorem residue_run {es : List Event} (hsound : s.Sound) (hr : Machine.run step s es = some t)
    (hok : Machine.Along step (fun s _ => s.access.getRole d u = none) s es) : Residue s d u t :=
  (Machine.run_invariant (I := fun t => t.Sound ∧ Residue s d u t)
    (fun _ _ _ h hrole hs => ⟨sound_step h.1 hs, residue_step h.1 h.2 hrole hs⟩)
    ⟨hsound, fun _ _ => ⟨fun _ hk => hk, List.suffix_refl _⟩⟩ hok hr).2

end Residue

/-! ## The result -/

/-- In the step from `t` to `t'`, session `k` is sent `msg`. -/
def Receives (t t' : Server) (k : SessionId) (msg : ServerMsg UInt8) : Prop :=
  ∃ more, (t'.clients k).sent = (t.clients k).sent ++ more ∧ msg ∈ more

theorem Receives.of_sends {P : SessionId → ServerMsg UInt8 → Prop} {t t' : Server} {k : SessionId}
    {msg : ServerMsg UInt8} (h : t.Receives t' k msg) (hP : Sends P t t') : P k msg := by
  obtain ⟨more, hsent, hmsg⟩ := h
  obtain ⟨more', hsent', hall⟩ := hP k
  rw [hsent] at hsent'
  exact hall msg (List.append_cancel_left hsent' ▸ hmsg)

theorem clients_disconnect (s : Server) (i : SessionId) : (s.disconnect i).clients = s.clients := by
  unfold disconnect leaveCurrent
  dsimp only
  split_ifs
  · exact clients_enqueueLeave _
  · rfl

/-- A message about a document goes to its members. -/
theorem receives_member {t t' : Server} {e : Event} (hsound : t.Sound) (hs : step t e = some t')
    {k : SessionId} {msg : ServerMsg UInt8} (hmsg : t.Receives t' k msg) {d : UInt32}
    (hd : msg.about = some d) :
    ∃ ref u, (t.sessionOf ref).doc.id = d ∧ MemberAs (t.sessionOf ref) u k := by
  cases e with
  | accept i =>
      obtain ⟨_, _, rfl⟩ := accept_cases hs
      exact (hmsg.of_sends (P := fun _ _ => False) (.of_sent fun _ => rfl)).elim
  | request i payload =>
      have hnone := hmsg.of_sends (request_sends hs)
      rw [hnone] at hd
      cases hd
  | drop i =>
      obtain ⟨_, _, rfl⟩ := drop_cases hs
      refine (hmsg.of_sends (P := fun _ _ => False) (.of_sent fun k => ?_)).elim
      rw [clients_disconnect]
      by_cases hk : k = i
      · rw [hk, setClient_self]
      · rw [setClient_of_ne t hk]
  | process ref =>
      obtain ⟨session, sends, hnext, hsends⟩ := process_sends hs
      obtain ⟨cmd, rest, _, hcmd⟩ := DocumentSession.processNext_cases hnext
      have hmem := hmsg.of_sends hsends
      have hsent : (k, msg) ∈ (((t.sessionOf ref).setQueue rest).processCommand cmd).2 := by
        change (k, msg) ∈ (((t.manager.objects ref).session.setQueue rest).processCommand cmd).2
        rw [hcmd]
        exact hmem
      obtain ⟨hid, u, user, huser, hsession⟩ := processCommand_about hsent hd
      exact ⟨ref, u, hid.symm, user, huser, hsession⟩
  | exit ref =>
      rw [exit_cases hs] at hmsg
      exact (hmsg.of_sends (P := fun _ _ => False) (.of_sent fun _ => rfl)).elim
  | sendCursors docId =>
      obtain ⟨habout, ref, u, user, href, huser, hsession⟩ := hmsg.of_sends (sendCursors_sends hs)
      rw [habout] at hd
      cases hd
      exact ⟨ref, u, (hsound.tables.session href).2, user, huser, hsession⟩

/-- **A user whose role is revoked takes no part beyond what was under way**: until a role is granted again,
    only members are told of the document, every session that is a member under the user's id, or on its way in,
    was one or the other at the revocation, and the operations of the user that are still to be applied were
    queued by then and come last among them. -/
theorem revoked_takes_no_part {env : Environment} {dataDir : DataDir} {es es' : List Event} {s t t' : Server}
    {e : Event} {d u : UInt32} (hr : Machine.run step (start env dataDir) es = some s)
    (hr' : Machine.run step s es' = some t) (hs : step t e = some t')
    (hrole : Machine.Along step (fun s _ => s.access.getRole d u = none) s es') :
    (∀ k msg, t.Receives t' k msg → msg.about = some d →
      ∃ ref v, (t.sessionOf ref).doc.id = d ∧ MemberAs (t.sessionOf ref) v k) ∧
    ∀ ref, (t.sessionOf ref).doc.id = d →
      (∀ k, Entered (t.sessionOf ref) u k → Entered (s.sessionOf ref) u k) ∧
        queuedBy (t.sessionOf ref) u <:+ queuedBy (s.sessionOf ref) u := by
  have hsound := run_sound hr
  have hsound' : t.Sound := Machine.run_preserves (fun _ _ _ h hs => sound_step h hs) hsound hr'
  exact ⟨fun k msg hmsg hd => receives_member hsound' hs hmsg hd, residue_run hsound hr' hrole⟩

/-- A member has an operation queued when its role is revoked. -/
def revokedRun : List Event :=
  [.accept 1, .accept 2,
    .request 1 (some (AuthRequestMsg.toJson { action := "register", username := "a", password := "p" })),
    .request 2 (some (AuthRequestMsg.toJson { action := "register", username := "b", password := "p" })),
    .request 1 (some (docCreateRequest "t")),
    .request 1 (some (DocShareRequestMsg.toJson { docId := 1, targetUsername := "b", role := "editor" })),
    .request 1 (some (docIdRequest "doc_join_request" 1)), .process 0,
    .request 2 (some (docIdRequest "doc_join_request" 1)), .process 0,
    .request 2 (some (operationRequest 1 0 [insertEntry 0 "x"])),
    .request 1 (some (operationRequest 1 0 [insertEntry 0 "y"])),
    .request 1 (some (DocShareRequestMsg.toJson { docId := 1, targetUsername := "b", role := "none" }))]

/-- The states of the run after the revocation. -/
theorem revokedRun_states :
    ∃ s t t', Machine.run step (start plainEnvironment {}) revokedRun = some s ∧
      step s (.process 0) = some t ∧ step t (.process 0) = some t' ∧
      s.access.getRole 1 2 = none ∧ t.access.getRole 1 2 = none ∧ (t'.clients 2).userId = 2 ∧
      (queuedBy (s.sessionOf 0) 2).length = 1 ∧ (t.sessionOf 0).doc.id = 1 ∧
      ((t.sessionOf 0).connectedUsers.lookup 2).bind ConnectedUser.session = some 2 ∧
      (t.sessionOf 0).doc.history.map Operation.userId = [2] ∧
      (t'.clients 2).sent = (t.clients 2).sent ++ [.operationBroadcast
        { docId := 1, userId := 1, username := "a", revision := 2,
          ops := [{ op := "insert", pos := 0, text := Utf8.encode "y" }] }] := by
  have hrun : (Machine.run step (start plainEnvironment {}) revokedRun).isSome := by decide +kernel
  have hfirst : (step ((Machine.run step (start plainEnvironment {}) revokedRun).get hrun) (.process 0)).isSome := by
    decide +kernel +revert
  have hsecond : (step ((step ((Machine.run step (start plainEnvironment {}) revokedRun).get hrun)
      (.process 0)).get hfirst) (.process 0)).isSome := by
    decide +kernel +revert
  refine ⟨_, _, _, (Option.some_get hrun).symm, (Option.some_get hfirst).symm, (Option.some_get hsecond).symm, ?_⟩
  decide +kernel +revert

/-- Session 2 is told of the next operation as a member, which it was at the revocation. -/
theorem revokedRun_takes_no_part :
    ∃ s t t', Machine.run step (start plainEnvironment {}) revokedRun = some s ∧
      step s (.process 0) = some t ∧ step t (.process 0) = some t' ∧
      (∃ msg, t.Receives t' 2 (.operationBroadcast msg) ∧ msg.docId = 1) ∧
      (∃ ref v, (t.sessionOf ref).doc.id = 1 ∧ MemberAs (t.sessionOf ref) v 2) ∧
      MemberAs (t.sessionOf 0) 2 2 ∧ Entered (s.sessionOf 0) 2 2 ∧
      queuedBy (t.sessionOf 0) 2 <:+ queuedBy (s.sessionOf 0) 2 := by
  obtain ⟨s, t, t', hs, ht, ht', hrole, _, _, _, hid, huser, _, hsent⟩ := revokedRun_states
  obtain ⟨user, hlookup, hsession⟩ := Option.bind_eq_some_iff.mp huser
  have hmember : MemberAs (t.sessionOf 0) 2 2 := ⟨user, hlookup, hsession⟩
  obtain ⟨htold, hresidue⟩ := revoked_takes_no_part (d := 1) (u := 2) hs (Machine.run_single ht) ht'
    ((Machine.along_cons ht).mpr ⟨hrole, trivial⟩)
  obtain ⟨hentered, hqueued⟩ := hresidue 0 hid
  have hreceives := (⟨_, hsent, List.mem_singleton_self _⟩ : t.Receives t' 2 (.operationBroadcast _))
  exact ⟨s, t, t', hs, ht, ht', ⟨_, hreceives, rfl⟩, htold 2 _ hreceives rfl, hmember, hentered 2 (.inl hmember),
    hqueued⟩

/-- The operation is applied, and the next one is broadcast to the member. -/
theorem revoked_member_stays :
    ∃ s t t', Machine.run step (start plainEnvironment {}) revokedRun = some s ∧
      step s (.process 0) = some t ∧ step t (.process 0) = some t' ∧
      s.access.getRole 1 2 = none ∧ t.access.getRole 1 2 = none ∧
      (t.sessionOf 0).doc.id = 1 ∧ (t.sessionOf 0).doc.history.map Operation.userId = [2] ∧
      (t'.clients 2).userId = 2 ∧ ∃ msg, t.Receives t' 2 (.operationBroadcast msg) ∧ msg.docId = 1 := by
  obtain ⟨s, t, t', hs, ht, ht', hrole, hrole', huser, _, hid, _, hhistory, hsent⟩ := revokedRun_states
  exact ⟨s, t, t', hs, ht, ht', hrole, hrole', hid, hhistory, huser, _, ⟨_, hsent, List.mem_singleton_self _⟩, rfl⟩

end Server

end CollabEditor
