import CollabEditor.Server.Rooms

/-!
# `Server.Departure` — what a session that disconnects leaves behind

The members of a document are kept under the user id that a join came from. A connection that breaks
enqueues one Leave: in the document that `current_doc_id` names by then, under the user id that the session
has by then.

## Contents
- **Drained tables.** `settled`, the members of a document once its queue is worked off.
- **Members.** `Member`, `member_step` (where a member comes from) and `member_kept` (who stays one).
- **Subscribers.** `Synced`, `run_inStep`.
- **The result.** `departure`: under `Orderly` a session that disconnects leaves nothing behind and takes
  nobody with it.
-/

namespace CollabEditor

/-! ## Drained tables -/

namespace DocumentSession

section Settled

variable {α σ : Type} {s t : DocumentSession α σ}

/-- The connected users once the queue is worked off. -/
def settled (s : DocumentSession α σ) : AList (fun _ : UInt32 => ConnectedUser σ) :=
  s.commandQueue.foldl usersAfter s.connectedUsers

theorem settled_enqueueCommand (s : DocumentSession α σ) (cmd : DocCommand α σ) :
    (s.enqueueCommand cmd).settled = usersAfter s.settled cmd := by
  unfold settled enqueueCommand
  rw [List.foldl_append]
  rfl

theorem settled_operations {cmds : List (DocCommand α σ)} (h : ∀ cmd ∈ cmds, cmd.type = .operation)
    (s : DocumentSession α σ) :
    settled { s with commandQueue := s.commandQueue ++ cmds } = s.settled := by
  have hkept : ∀ users : AList (fun _ : UInt32 => ConnectedUser σ), cmds.foldl usersAfter users = users := by
    intro users
    induction cmds with
    | nil => rfl
    | cons cmd cmds ih =>
        have hcmd : usersAfter users cmd = users := by
          unfold usersAfter
          rw [h cmd List.mem_cons_self]
        rw [List.foldl_cons, hcmd]
        exact ih fun c hc => h c (List.mem_cons_of_mem cmd hc)
  unfold settled
  rw [List.foldl_append]
  exact hkept _

theorem settled_processNext {sends : List (σ × ServerMsg α)} (h : s.processNext = some (t, sends)) :
    t.settled = s.settled := by
  obtain ⟨cmd, rest, hqueue, hcmd⟩ := processNext_cases h
  have husers := processCommand_users (s.setQueue rest) cmd
  have hrest := processCommand_queue (s.setQueue rest) cmd
  rw [hcmd] at husers hrest
  unfold settled
  rw [hqueue, List.foldl_cons, husers, hrest]
  rfl

theorem settled_of_drained (h : s.commandQueue = []) : s.settled = s.connectedUsers := by
  unfold settled
  rw [h]
  rfl

end Settled

end DocumentSession

namespace Server

/-! ## Members -/

/-- Session `k` has an entry under the user id `u` in document `d`, the commands of the queue counted. -/
def Member (s : Server) (k : SessionId) (d u : UInt32) : Prop :=
  ∃ r user, s.room d = some r ∧ r.settled.lookup u = some user ∧ user.session = some k

/-- The step is one that session `k` takes. -/
def Event.By (k : SessionId) : Event → Prop
  | .request i _ => i = k
  | .drop i      => i = k
  | _            => False

/-- The step of session `i` enqueues a Join or a Leave in document `d`. -/
def Reaches (s : Server) (i : SessionId) : Event → UInt32 → Prop
  | .request j payload, d => j = i ∧ (s.clients i).authenticated = true ∧
      ((∃ j doc session, Asks payload .docJoinRequest j ∧ docIdOf j = .ok d ∧
          s.access.canRead d (s.clients i).userId = true ∧ s.opened d = some (doc, session) ∧
          Utf8.Valid ((s.openDocument d).contentAt doc)) ∨
        ∃ j, Asks payload .docLeaveRequest j ∧ docIdOf j = .ok d)
  | .drop j, d => j = i ∧ d = (s.clients i).currentDocId ∧ 0 < d
  | _, _ => False

section Members

variable {s s' : Server} {i k : SessionId} {d u : UInt32} {e : Event}

theorem lookup_joined {r : DocumentSession UInt8 SessionId} :
    (r.enqueueCommand (s.joinCommand i)).settled.lookup u =
      if u = (s.clients i).userId then some
        { userId := (s.clients i).userId, username := (s.clients i).username
          color := (s.clients i).color, session := some i }
      else r.settled.lookup u := by
  rw [DocumentSession.settled_enqueueCommand]
  split_ifs with hu
  · rw [hu]
    exact AList.lookup_insert _
  · exact AList.lookup_insert_ne hu

theorem lookup_left {r : DocumentSession UInt8 SessionId} :
    (r.enqueueCommand (s.leaveCommand i)).settled.lookup u =
      if u = (s.clients i).userId then none else r.settled.lookup u := by
  rw [DocumentSession.settled_enqueueCommand]
  split_ifs with hu
  · rw [hu]
    exact AList.lookup_erase _ _
  · exact AList.lookup_erase_ne hu

theorem Blank.settled {r : DocumentSession UInt8 SessionId} (h : Blank r) : r.settled = ∅ := by
  rw [DocumentSession.settled_of_drained h.1]
  exact h.2.1

/-- **Where a member comes from**: a session becomes a member by a request of its own only. -/
theorem member_step (h : s.Sound) (hh : s.Housed) (hs : step s e = some s') (hm : s'.Member k d u) :
    s.Member k d u ∨ ∃ payload, e = .request k payload := by
  obtain ⟨r', user, hr', huser, hk⟩ := hm
  have hmoved := moved_step h hh hs d
  rw [hr'] at hmoved
  generalize hx : some r' = x at hmoved
  cases hmoved with
  | kept _ => exact .inl ⟨r', user, hx.symm, huser, hk⟩
  | closed _ => cases hx
  | opened _ _ hblank =>
      cases hx
      rw [hblank.settled] at huser
      cases huser
  | joined _ _ _ _ _ _ hr =>
      cases hx
      rw [lookup_joined] at huser
      split_ifs at huser with hu
      · cases huser
        cases hk
        exact .inr ⟨_, rfl⟩
      · obtain hr | ⟨_, hblank⟩ := hr
        · exact .inl ⟨_, user, hr, huser, hk⟩
        · rw [hblank.settled] at huser
          cases huser
  | left _ _ _ hr =>
      cases hx
      rw [lookup_left] at huser
      split_ifs at huser
      exact .inl ⟨_, user, hr, huser, hk⟩
  | dropped _ hr =>
      cases hx
      rw [lookup_left] at huser
      split_ifs at huser
      exact .inl ⟨_, user, hr, huser, hk⟩
  | operated _ cmds hcmds hr =>
      cases hx
      rw [DocumentSession.settled_operations hcmds] at huser
      exact .inl ⟨_, user, hr, huser, hk⟩
  | processed _ hr hnext =>
      cases hx
      rw [DocumentSession.settled_processNext hnext] at huser
      exact .inl ⟨_, user, hr, huser, hk⟩

/-- **Who stays a member**: a step takes an entry away only by reaching the document under its user id, or
    with the document itself. -/
theorem member_kept (h : s.Sound) (hh : s.Housed) (hs : step s e = some s')
    (hfree : ∀ j, s.Reaches j e d → u ≠ (s.clients j).userId) (hm : s.Member k d u)
    (hstays : (s'.room d).isSome) : s'.Member k d u := by
  obtain ⟨r, user, hr, huser, hk⟩ := hm
  have hmoved := moved_step h hh hs d
  obtain ⟨r', hr'⟩ := Option.isSome_iff_exists.mp hstays
  rw [hr'] at hmoved
  refine ⟨r', user, hr', ?_, hk⟩
  generalize hx : some r' = x at hmoved
  cases hmoved with
  | kept _ =>
      rw [hr] at hx
      cases hx
      exact huser
  | closed _ => cases hx
  | opened _ hnone _ =>
      rw [hr] at hnone
      cases hnone
  | @joined i payload j r0 hauth hj hid hread doc session hopen hgood hroom =>
      cases hx
      have hu := hfree i ⟨rfl, hauth, .inl ⟨j, doc, session, hj, hid, hread, hopen, hgood⟩⟩
      rw [lookup_joined, if_neg hu]
      obtain hroom | ⟨hnone, _⟩ := hroom
      · rw [hr] at hroom
        cases hroom
        exact huser
      · rw [hr] at hnone
        cases hnone
  | @left i payload j r0 hauth hj hid hroom =>
      cases hx
      have hu := hfree i ⟨rfl, hauth, .inr ⟨j, hj, hid⟩⟩
      rw [hr] at hroom
      cases hroom
      rw [lookup_left, if_neg hu]
      exact huser
  | @dropped i r0 hcurrent hroom =>
      cases hx
      have hu := hfree i ⟨rfl, hcurrent⟩
      rw [hr] at hroom
      cases hroom
      rw [lookup_left, if_neg hu]
      exact huser
  | operated _ cmds hcmds hroom =>
      cases hx
      rw [hr] at hroom
      cases hroom
      rw [DocumentSession.settled_operations hcmds]
      exact huser
  | processed _ hroom hnext =>
      cases hx
      rw [hr] at hroom
      cases hroom
      rw [DocumentSession.settled_processNext hnext]
      exact huser

theorem member_after {es : List Event} : ∀ {s t : Server}, s.Sound → s.Housed →
    Machine.run step s es = some t → (∀ payload, .request k payload ∉ es) → t.Member k d u → s.Member k d u := by
  induction es with
  | nil =>
      intro s t _ _ hrun _ hm
      cases hrun
      exact hm
  | cons e es ih =>
      intro s t h hh hrun hno hm
      obtain ⟨s', hs, hrest⟩ := Machine.run_cons.mp hrun
      have hm' := ih (sound_step h hs) (housed_step h hh hs) hrest
        (fun payload hmem => hno payload (List.mem_cons_of_mem e hmem)) hm
      obtain hmem | ⟨payload, rfl⟩ := member_step h hh hs hm'
      · exact hmem
      · exact absurd List.mem_cons_self (hno payload)

end Members

/-! ## Subscribers -/

/-- The subscribers of the document are the connected users, and no deletion is on its way. -/
structure Synced (r : DocumentSession UInt8 SessionId) : Prop where
  subscribers : ∀ u, u ∈ r.doc.subscribers ↔ u ∈ r.connectedUsers
  kept : ∀ cmd ∈ r.commandQueue, cmd.type ≠ .delete

section Synced

variable {s s' : Server} {r r' : DocumentSession UInt8 SessionId} {e : Event} {d : UInt32}

theorem Blank.synced (h : Blank r) : Synced r where
  subscribers u := by
    rw [h.2.1, h.2.2]
    exact ⟨fun hu => absurd hu (Finset.notMem_empty u), fun hu => absurd hu (AList.notMem_empty u)⟩
  kept := by
    rw [h.1]
    exact fun cmd hcmd => absurd hcmd List.not_mem_nil

theorem Synced.append (h : Synced r) {cmds : List (DocCommand UInt8 SessionId)}
    (hcmds : ∀ cmd ∈ cmds, cmd.type ≠ .delete) :
    Synced { r with commandQueue := r.commandQueue ++ cmds } where
  subscribers := h.subscribers
  kept cmd hcmd := (List.mem_append.mp hcmd).elim (h.kept cmd) (hcmds cmd)

theorem Synced.enqueueCommand (h : Synced r) {cmd : DocCommand UInt8 SessionId} (hcmd : cmd.type ≠ .delete) :
    Synced (r.enqueueCommand cmd) :=
  h.append fun _ hc => List.mem_singleton.mp hc ▸ hcmd

theorem Synced.processNext (h : Synced r) {sends : List (SessionId × ServerMsg UInt8)}
    (hnext : r.processNext = some (r', sends)) : Synced r' := by
  obtain ⟨cmd, rest, hqueue, hcmd⟩ := DocumentSession.processNext_cases hnext
  have hdelete := h.kept cmd (by rw [hqueue]; exact List.mem_cons_self)
  have hrest := DocumentSession.processCommand_queue (r.setQueue rest) cmd
  rw [hcmd] at hrest
  refine ⟨fun u => ?_, fun c hc => h.kept c ?_⟩
  · unfold DocumentSession.processCommand at hcmd
    have hu := h.subscribers u
    cases htype : cmd.type with
    | join =>
        rw [htype] at hcmd
        cases hcmd
        exact Finset.mem_insert.trans ((or_congr_right hu).trans (AList.mem_insert _).symm)
    | leave =>
        rw [htype] at hcmd
        cases hcmd
        exact Finset.mem_erase.trans ((and_congr_right fun _ => hu).trans AList.mem_erase.symm)
    | operation =>
        rw [htype] at hcmd
        have hfst := congrArg Prod.fst hcmd
        change ((r.setQueue rest).handleOperation cmd).1 = r' at hfst
        rw [DocumentSession.handleOperation_fst] at hfst
        subst hfst
        change u ∈ (r.doc.applyWithOt cmd.operation).1.subscribers ↔ u ∈ r.connectedUsers
        rw [Document.applyWithOt_subscribers]
        exact hu
    | delete => exact absurd htype hdelete
    | shutdown =>
        rw [htype] at hcmd
        cases hcmd
        exact hu
  · rw [hqueue]
    rw [hrest] at hc
    exact List.mem_cons_of_mem cmd hc

/-- The subscribers follow the connected users in every room. -/
def InStep (s : Server) : Prop := ∀ d r, s.room d = some r → Synced r

theorem inStep_step (h : s.Sound) (hh : s.Housed) (hi : s.InStep) (hs : step s e = some s') : s'.InStep := by
  intro d r' hr'
  have hmoved := moved_step h hh hs d
  rw [hr'] at hmoved
  generalize hx : some r' = x at hmoved
  cases hmoved with
  | kept _ => exact hi d r' hx.symm
  | closed _ => cases hx
  | opened _ _ hblank =>
      cases hx
      exact hblank.synced
  | joined _ _ _ _ _ _ hr =>
      cases hx
      refine Synced.enqueueCommand ?_ CommandType.noConfusion
      obtain hr | ⟨_, hblank⟩ := hr
      · exact hi d _ hr
      · exact hblank.synced
  | left _ _ _ hr =>
      cases hx
      exact (hi d _ hr).enqueueCommand CommandType.noConfusion
  | dropped _ hr =>
      cases hx
      exact (hi d _ hr).enqueueCommand CommandType.noConfusion
  | operated _ cmds hcmds hr =>
      cases hx
      refine (hi d _ hr).append fun cmd hcmd => ?_
      rw [hcmds cmd hcmd]
      exact CommandType.noConfusion
  | processed _ hr hnext =>
      cases hx
      exact (hi d _ hr).processNext hnext

theorem run_inStep {env : Environment} {dataDir : DataDir} {es : List Event}
    (hrun : Machine.run step (start env dataDir) es = some s) : s.InStep := by
  have hstart : (start env dataDir).InStep := by
    intro d r hr
    cases hr
  refine (Machine.run_preserves (I := fun s : Server => s.Sound ∧ s.Housed ∧ s.InStep) (fun s e s' h hs => ?_)
    ⟨sound_start env dataDir, housed_start env dataDir, hstart⟩ hrun).2.2
  exact ⟨sound_step h.1 hs, housed_step h.1 h.2.1 hs, inStep_step h.1 h.2.1 h.2.2 hs⟩

end Synced

/-! ## The result -/

/-- No other session stands in document `d` under the user id of session `i`. -/
def Alone (s : Server) (i : SessionId) (d : UInt32) : Prop :=
  ∀ k, s.Member k d (s.clients i).userId → k = i

/-- All that session `i` is a member of is its current document, under its current user id. -/
def Tied (s : Server) (i : SessionId) : Prop :=
  ∀ d u, s.Member i d u → (d = (s.clients i).currentDocId ∧ 0 < d) ∧ u = (s.clients i).userId

/-- Session `i` joins and leaves only where nobody else stands under its user id, and is tied to its
    current document when it disconnects. -/
def Orderly (i : SessionId) (s : Server) (e : Event) : Prop :=
  (∀ d, s.Reaches i e d → s.Alone i d) ∧ (e = .drop i → s.Tied i)

/-- Unless another session takes the step, the entries of the other sessions stay, in a document that
    stays. -/
def Spares (i : SessionId) (s : Server) (e : Event) : Prop :=
  ∀ s', step s e = some s' → (∀ k, e.By k → k = i) →
    ∀ k d u, k ≠ i → s.Member k d u → (s'.room d).isSome → s'.Member k d u

/-- Nothing of session `i` is left in a document: neither an entry nor a subscription. -/
structure Freed (i : SessionId) (r : DocumentSession UInt8 SessionId) : Prop where
  users : ∀ u user, r.connectedUsers.lookup u = some user → user.session ≠ some i
  subscribers : ∀ u, u ∈ r.doc.subscribers → ∃ user, r.connectedUsers.lookup u = some user

section Departure

variable {s s' t : Server} {i : SessionId} {e : Event} {env : Environment} {dataDir : DataDir}
  {before after : List Event}

theorem by_of_reaches {d : UInt32} (h : s.Reaches i e d) : e.By i := by
  cases e with
  | request j payload => exact h.1
  | drop j => exact h.1
  | _ => exact h

theorem spares_of_orderly (h : s.Sound) (hh : s.Housed) (ho : Orderly i s e) : Spares i s e := by
  intro s' hs hby k d u hk hm hstays
  refine member_kept h hh hs (fun j hj hu => ?_) hm hstays
  have hji : j = i := hby j (by_of_reaches hj)
  subst hji
  rw [hu] at hm
  exact hk (ho.1 d hj k hm)

/-- **What a disconnect gives back**: everything exactly if the session is tied to its current document. -/
theorem drop_clears_iff (h : s.Sound) (hs : step s (.drop i) = some s') :
    (∀ d u, ¬ s'.Member i d u) ↔ s.Tied i := by
  have hroom := fun d => room_drop (d := d) h hs
  constructor
  · intro hclear d u hm
    by_contra hne
    refine hclear d u ?_
    obtain ⟨r, user, hr, huser, hi⟩ := hm
    unfold Member
    rw [hroom, hr]
    split_ifs with hdoc
    · refine ⟨_, user, rfl, ?_, hi⟩
      rw [lookup_left, if_neg fun hu => hne ⟨hdoc, hu⟩]
      exact huser
    · exact ⟨r, user, rfl, huser, hi⟩
  · rintro htied d u ⟨r', user, hr', huser, hi⟩
    rw [hroom] at hr'
    split_ifs at hr' with hdoc
    · obtain ⟨r, hr, rfl⟩ := Option.map_eq_some_iff.mp hr'
      rw [lookup_left] at huser
      split_ifs at huser with hu
      exact hu (htied d u ⟨r, user, hr, huser, hi⟩).2
    · exact hdoc (htied d u ⟨r', user, hr', huser, hi⟩).1

theorem freed_of_clear (hi : s.InStep) (hh : s.Housed) (hclear : ∀ d u, ¬ s.Member i d u) {d : UInt32} {ref : ℕ}
    (href : s.manager.documents.lookup d = some ref ∨ s.manager.getSession d = some ref)
    (hdrained : (s.sessionOf ref).commandQueue = []) : Freed i (s.sessionOf ref) := by
  have hroom : s.manager.getSession d = some ref → Freed i (s.sessionOf ref) := by
    intro hsession
    have hr : s.room d = some (s.sessionOf ref) := by
      unfold room
      rw [hsession]
      rfl
    refine ⟨fun u user huser hk => hclear d u ⟨_, user, hr, ?_, hk⟩, fun u hu => ?_⟩
    · rw [DocumentSession.settled_of_drained hdrained]
      exact huser
    · have hmem := ((hi d _ hr).subscribers u).mp hu
      exact Option.isSome_iff_exists.mp (AList.lookup_isSome.mpr hmem)
  obtain hdocument | hsession := href
  · obtain hsession | ⟨_, husers, hsubs⟩ := hh d ref hdocument
    · exact hroom hsession
    · refine ⟨fun u user huser => ?_, fun u hu => ?_⟩
      · rw [husers] at huser
        cases huser
      · rw [hsubs] at hu
        exact absurd hu (Finset.notMem_empty u)
  · exact hroom hsession

theorem along_spares {es : List Event} : ∀ {s : Server}, s.Sound → s.Housed →
    Machine.Along step (Orderly i) s es → Machine.Along step (Spares i) s es := by
  induction es with
  | nil => exact fun _ _ h => h
  | cons e es ih =>
      intro s h hh ho
      refine ⟨spares_of_orderly h hh ho.1, ?_⟩
      have hrest := ho.2
      cases hs : step s e with
      | none => trivial
      | some s' =>
          rw [hs] at hrest
          exact ih (sound_step h hs) (housed_step h hh hs) hrest

/-- **An orderly session leaves nothing behind**: in every run in which session `i` is orderly and makes no
    request after its connection breaks, a document with a drained queue holds neither an entry nor a
    subscription of it, and none of its steps takes an entry of another session away. -/
theorem departure (hrun : Machine.run step (start env dataDir) (before ++ .drop i :: after) = some t)
    (hgone : ∀ payload, .request i payload ∉ after)
    (hok : Machine.Along step (Orderly i) (start env dataDir) (before ++ .drop i :: after)) :
    (∀ d ref, t.manager.documents.lookup d = some ref ∨ t.manager.getSession d = some ref →
      (t.sessionOf ref).commandQueue = [] → Freed i (t.sessionOf ref)) ∧
    Machine.Along step (Spares i) (start env dataDir) (before ++ .drop i :: after) := by
  refine ⟨?_, along_spares (sound_start env dataDir) (housed_start env dataDir) hok⟩
  obtain ⟨s, hbefore, hrest⟩ := Machine.run_append.mp hrun
  obtain ⟨s', hdrop, hafter⟩ := Machine.run_cons.mp hrest
  obtain ⟨h, hh⟩ := run_housed hbefore
  have htied : s.Tied i := ((Machine.along_append hbefore).mp hok).2.1.2 rfl
  have hclear := (drop_clears_iff h hdrop).mpr htied
  intro d ref href hdrained
  refine freed_of_clear (run_inStep hrun) (run_housed hrun).2 (fun d u hm => ?_) href hdrained
  exact hclear d u (member_after (sound_step h hdrop) (housed_step h hh hdrop) hafter hgone hm)

end Departure

/-- Two members of a document, one of which disconnects. -/
def departingRun : List Event :=
  [.accept 1, .accept 2,
    .request 1 (some (AuthRequestMsg.toJson { action := "register", username := "a", password := "p" })),
    .request 2 (some (AuthRequestMsg.toJson { action := "register", username := "b", password := "p" })),
    .request 1 (some (docCreateRequest "t")),
    .request 1 (some (DocShareRequestMsg.toJson { docId := 1, targetUsername := "b", role := "editor" })),
    .request 1 (some (docIdRequest "doc_join_request" 1)),
    .request 2 (some (docIdRequest "doc_join_request" 1)), .process 0, .process 0]

/-- The members of all documents. -/
def members (s : Server) : List (SessionId × UInt32 × UInt32) :=
  s.manager.sessions.entries.flatMap fun p =>
    (s.sessionOf p.2).settled.entries.filterMap fun q => q.2.session.map fun k => (k, p.1, q.1)

theorem mem_members {s : Server} {k : SessionId} {d u : UInt32} (h : s.Member k d u) : (k, d, u) ∈ s.members := by
  obtain ⟨r, user, hr, huser, hk⟩ := h
  unfold room at hr
  obtain ⟨ref, href, rfl⟩ := Option.map_eq_some_iff.mp hr
  have hentry : (⟨u, user⟩ : Sigma fun _ : UInt32 => ConnectedUser SessionId) ∈ (s.sessionOf ref).settled.entries :=
    AList.mem_lookup_iff.mp huser
  unfold members
  refine List.mem_flatMap.mpr ⟨⟨d, ref⟩, AList.mem_lookup_iff.mp href, ?_⟩
  refine List.mem_filterMap.mpr ⟨⟨u, user⟩, hentry, ?_⟩
  dsimp only
  rw [hk]
  rfl

theorem departingRun_departure :
    ∃ t, Machine.run step (start plainEnvironment {}) (departingRun ++ .drop 1 :: [.process 0]) = some t ∧
      t.manager.getSession 1 = some 0 ∧ (t.sessionOf 0).connectedUsers.keys = [2] ∧ Freed 1 (t.sessionOf 0) ∧
      Machine.Along step (Spares 1) (start plainEnvironment {}) (departingRun ++ .drop 1 :: [.process 0]) := by
  have hrun : (Machine.run step (start plainEnvironment {}) (departingRun ++ .drop 1 :: [.process 0])).isSome := by
    decide +kernel
  have hmembers : Machine.Along step (fun s _ => ∀ m ∈ s.members,
      (m.2.2 = (s.clients 1).userId → m.1 = 1) ∧
        (m.1 = 1 → (m.2.1 = (s.clients 1).currentDocId ∧ 0 < m.2.1) ∧ m.2.2 = (s.clients 1).userId))
      (start plainEnvironment {}) (departingRun ++ .drop 1 :: [.process 0]) := by
    decide +kernel
  have horderly := hmembers.mono fun s e h => show Orderly 1 s e from
    ⟨fun d _ k hm => (h _ (mem_members hm)).1 rfl, fun _ d u hm => (h _ (mem_members hm)).2 rfl⟩
  have hgone : ∀ payload, Event.request 1 payload ∉ [Event.process 0] := by
    intro payload hmem
    cases List.mem_singleton.mp hmem
  obtain ⟨t, ht⟩ := Option.isSome_iff_exists.mp hrun
  obtain ⟨hsession, hkeys, hdrained⟩ : t.manager.getSession 1 = some 0 ∧
      (t.sessionOf 0).connectedUsers.keys = [2] ∧ (t.sessionOf 0).commandQueue = [] := by
    rw [← Option.get_of_eq_some hrun ht]
    clear ht hmembers horderly hgone
    decide +kernel +revert
  have hresult := departure ht hgone horderly
  exact ⟨t, ht, hsession, hkeys, hresult.1 1 0 (.inr hsession) hdrained, hresult.2⟩

/-- A session joins a second document and disconnects. -/
def strayRun : List Event :=
  [.accept 1,
    .request 1 (some (AuthRequestMsg.toJson { action := "register", username := "a", password := "p" })),
    .request 1 (some (docCreateRequest "t")), .request 1 (some (docCreateRequest "u")),
    .request 1 (some (docIdRequest "doc_join_request" 1)), .process 0,
    .request 1 (some (docIdRequest "doc_join_request" 2)), .process 1, .drop 1, .process 1]

/-- **The entry in the first document stays.** -/
theorem departed_stays :
    ∃ t, Machine.run step (start plainEnvironment {}) strayRun = some t ∧
      (t.clients 1).disconnected = true ∧ 1 ∉ t.tcpSessions ∧
      t.manager.sessions.keys = [2, 1] ∧ (∀ ref ∈ [0, 1], (t.sessionOf ref).commandQueue = []) ∧
      t.manager.getSession 1 = some 0 ∧ 1 ∈ (t.sessionOf 0).doc.subscribers ∧
      ∃ user, (t.sessionOf 0).connectedUsers.lookup 1 = some user ∧ user.session = some 1 := by
  have hrun : (Machine.run step (start plainEnvironment {}) strayRun).isSome := by decide +kernel
  have huser : (((Machine.run step (start plainEnvironment {}) strayRun).get hrun).sessionOf 0).registered 1 =
      some 1 := by
    decide +kernel +revert
  unfold DocumentSession.registered at huser
  obtain ⟨user, hlookup, hsession⟩ := Option.bind_eq_some_iff.mp huser
  refine ⟨_, (Option.some_get hrun).symm, ?_, ?_, ?_, ?_, ?_, ?_, user, hlookup, hsession⟩
  all_goals
    clear huser hlookup hsession
    decide +kernel +revert

end Server

end CollabEditor
