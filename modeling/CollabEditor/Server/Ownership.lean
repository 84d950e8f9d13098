import CollabEditor.Server.Rooms

/-!
# `Server.Ownership` — the owner of a document is the user who created it

The rights of a document change by its creation, and by the share and delete requests of its owner. As ids
are not used twice while fewer than `2 ^ 32` documents have been created, each document in memory has
exactly one owner: its creator.

## Contents
- **What a step does to documents and rights.** `Governed`, `governed_step`.
- **Creation.** `Creates`, `CreatedBy`.
- **The invariant.** `Titled`, `titled_snoc`.
- **The result.** `ownership`.
-/

namespace CollabEditor

namespace Server

/-! ## What a step does to documents and rights -/

/-- Session `i` is logged in and its request has the type `type`. -/
def Requests (s : Server) (i : SessionId) (payload : Option Json) (type : MessageType) (j : Json) : Prop :=
  (s.clients i).authenticated = true ∧ Asks payload type j

/-- The changes that a step can make to the table of documents and to the rights. -/
inductive Governed (s : Server) : Event → Server → Prop where
  | kept {e : Event} {s' : Server} (hdocuments : s'.manager.documents = s.manager.documents)
      (hnext : s'.manager.nextDocId = s.manager.nextDocId)
      (hallocated : s'.manager.allocated = s.manager.allocated) (haccess : s'.access = s.access) :
      Governed s e s'
  | created {i : SessionId} {payload : Option Json} {j : Json} {title : String} {s' : Server}
      (hj : s.Requests i payload .docCreateRequest j) (htitle : docCreateTitle j = .ok title)
      (hdocuments : s'.manager.documents = s.manager.documents.insert s.manager.nextDocId s.manager.allocated)
      (hnext : s'.manager.nextDocId = s.manager.nextDocId + 1)
      (hallocated : s'.manager.allocated = s.manager.allocated + 1)
      (haccess : s'.access = s.access.grant s.manager.nextDocId (s.clients i).userId .owner) :
      Governed s (.request i payload) s'
  | deleted {i : SessionId} {payload : Option Json} {j : Json} {docId : UInt32} {s' : Server}
      (hj : s.Requests i payload .docDeleteRequest j) (hid : docIdOf j = .ok docId)
      (hown : s.access.getRole docId (s.clients i).userId = some .owner)
      (hdocuments : ∀ d, s'.manager.documents.lookup d =
        if d = docId then none else s.manager.documents.lookup d)
      (hnext : s'.manager.nextDocId = s.manager.nextDocId)
      (hallocated : s'.manager.allocated = s.manager.allocated)
      (haccess : s'.access = s.access.revokeAllForDocument docId) : Governed s (.request i payload) s'
  | shared {i : SessionId} {payload : Option Json} {j : Json} {msg : DocShareRequestMsg} {targetId : UInt32}
      {s' : Server} (hj : s.Requests i payload .docShareRequest j)
      (hmsg : DocShareRequestMsg.fromJson j = .ok msg)
      (hown : s.access.getRole msg.docId (s.clients i).userId = some .owner)
      (hother : targetId ≠ (s.clients i).userId) (hdocuments : s'.manager.documents = s.manager.documents)
      (hnext : s'.manager.nextDocId = s.manager.nextDocId)
      (hallocated : s'.manager.allocated = s.manager.allocated)
      (haccess : s'.access = s.access.setRole msg.docId targetId msg.role) :
      Governed s (.request i payload) s'

section Steps

variable {s s' t : Server} {e : Event} {i : SessionId} {payload : Option Json}

theorem Governed.of_core (h : s.Governed e t) (hcore : s'.core = t.core) : s.Governed e s' := by
  have hm := manager_of_core hcore
  have ha := access_of_core hcore
  cases h with
  | kept h₁ h₂ h₃ h₄ => exact .kept (by rw [hm, h₁]) (by rw [hm, h₂]) (by rw [hm, h₃]) (by rw [ha, h₄])
  | created hj htitle h₁ h₂ h₃ h₄ =>
      exact .created hj htitle (by rw [hm, h₁]) (by rw [hm, h₂]) (by rw [hm, h₃]) (by rw [ha, h₄])
  | deleted hj hid hown h₁ h₂ h₃ h₄ =>
      exact .deleted hj hid hown (by rw [hm]; exact h₁) (by rw [hm, h₂]) (by rw [hm, h₃]) (by rw [ha, h₄])
  | shared hj hmsg hown hother h₁ h₂ h₃ h₄ =>
      exact .shared hj hmsg hown hother (by rw [hm, h₁]) (by rw [hm, h₂]) (by rw [hm, h₃]) (by rw [ha, h₄])

theorem governed_handled {replies : List (ServerMsg UInt8)} (h : s.Sound) (hd : Handled s i payload t replies) :
    s.Governed (.request i payload) t := by
  cases hd with
  | kept _ => exact .kept rfl rfl rfl rfl
  | authenticated _ _ _ => exact .kept rfl rfl rfl rfl
  | created hj htitle hauth => exact .created ⟨hauth, hj⟩ htitle rfl rfl rfl rfl
  | torn _ _ _ _ hread _ _ =>
      rw [h.openDocument_of_read hread]
      refine .kept ?_ ?_ ?_ rfl
      · exact s.manager.documents_getOrCreateSession _
      · exact s.manager.nextDocId_getOrCreateSession _
      · exact s.manager.allocated_getOrCreateSession _
  | joined _ _ _ hread _ _ _ =>
      rw [h.openDocument_of_read hread]
      refine .kept ?_ ?_ ?_ rfl
      · exact s.manager.documents_getOrCreateSession _
      · exact s.manager.nextDocId_getOrCreateSession _
      · exact s.manager.allocated_getOrCreateSession _
  | left _ _ _ =>
      unfold enqueueLeave
      split
      · exact .kept rfl rfl rfl rfl
      · exact .kept rfl rfl rfl rfl
  | @deleted _ docId hj hid hauth hown =>
      have hframe : ∃ objects, s.enqueueDelete docId =
          { s with manager := { s.manager with objects := objects } } := by
        unfold enqueueDelete
        split
        · exact ⟨s.manager.objects, rfl⟩
        · exact ⟨_, rfl⟩
      obtain ⟨objects, hframe⟩ := hframe
      rw [hframe]
      refine .deleted ⟨hauth, hj⟩ hid (eq_of_beq hown) (fun d => ?_) ?_ ?_ rfl
      · exact DocumentManager.documents_eraseEntries _ docId d
      · exact DocumentManager.nextDocId_eraseEntries _ docId
      · exact DocumentManager.allocated_eraseEntries _ docId
  | shared hj hmsg hauth hown _ hother _ =>
      exact .shared ⟨hauth, hj⟩ hmsg (eq_of_beq hown) hother rfl rfl rfl rfl
  | operated _ _ _ _ _ _ _ =>
      obtain ⟨objects, hframe⟩ := enqueueAll_frame (operationCommands _ _ _) _ s
      rw [hframe]
      exact .kept rfl rfl rfl rfl
  | moved _ _ _ _ _ => exact .kept rfl rfl rfl rfl

theorem governed_step (h : s.Sound) (hs : step s e = some s') : s.Governed e s' := by
  cases e with
  | accept i =>
      obtain ⟨_, _, rfl⟩ := accept_cases hs
      exact .kept rfl rfl rfl rfl
  | request i payload =>
      obtain ⟨t, _, hd, hcore, _⟩ := request_cases h.unlocked hs
      exact (governed_handled h hd).of_core hcore
  | drop i =>
      obtain ⟨_, _, rfl⟩ := drop_cases hs
      unfold disconnect leaveCurrent enqueueLeave DocumentManager.removeCursor
      dsimp only
      split_ifs
      · split
        · split
          · exact .kept rfl rfl rfl rfl
          · exact .kept rfl rfl rfl rfl
        · split
          · exact .kept rfl rfl rfl rfl
          · exact .kept rfl rfl rfl rfl
      · exact .kept rfl rfl rfl rfl
  | process ref =>
      obtain ⟨session, _, _, hcore⟩ := process_cases hs
      exact Governed.of_core (t := { s with manager := s.manager.setSession ref session })
        (.kept rfl rfl rfl rfl) hcore
  | exit ref =>
      rw [exit_cases hs]
      exact .kept rfl rfl rfl rfl
  | sendCursors docId => exact Governed.of_core (.kept rfl rfl rfl rfl) (sendCursors_core hs)

end Steps

/-! ## Creation -/

/-- The step creates document `d`, at the request of user `u`. -/
def Creates (s : Server) (e : Event) (s' : Server) (d u : UInt32) : Prop :=
  s.manager.documents.lookup d = none ∧ (s'.manager.documents.lookup d).isSome ∧
    ∃ i payload j, e = .request i payload ∧ s.Requests i payload .docCreateRequest j ∧ (s.clients i).userId = u

/-- Some step of the run creates document `d`, at the request of user `u`. -/
def CreatedBy (s₀ : Server) (es : List Event) (d u : UInt32) : Prop :=
  ∃ before e after s s', es = before ++ e :: after ∧ Machine.run step s₀ before = some s ∧
    step s e = some s' ∧ s.Creates e s' d u

section Creation

variable {s₀ s s' : Server} {es : List Event} {e : Event} {d u : UInt32}

theorem createdBy_snoc (hr : Machine.run step s₀ es = some s) (hs : step s e = some s') :
    CreatedBy s₀ (es ++ [e]) d u ↔ CreatedBy s₀ es d u ∨ s.Creates e s' d u := by
  constructor
  · rintro ⟨before, e', after, t, t', hes, hbefore, hstep, hcreates⟩
    obtain rfl | ⟨after, last, rfl⟩ := after.eq_nil_or_concat
    · obtain ⟨rfl, hlast⟩ := List.append_inj' hes rfl
      cases hlast
      rw [hr] at hbefore
      cases hbefore
      rw [hs] at hstep
      cases hstep
      exact .inr hcreates
    · have hes' : es ++ [e] = (before ++ e' :: after) ++ [last] := by
        rw [hes, List.append_assoc, List.concat_eq_append, List.cons_append]
      obtain ⟨rfl, -⟩ := List.append_inj' hes' rfl
      exact .inl ⟨before, e', after, t, t', rfl, hbefore, hstep, hcreates⟩
  · rintro (⟨before, e', after, t, t', rfl, hbefore, hstep, hcreates⟩ | hcreates)
    · exact ⟨before, e', after ++ [e], t, t', by rw [List.append_assoc, List.cons_append], hbefore, hstep,
        hcreates⟩
    · exact ⟨es, e, [], s, s', rfl, hr, hs, hcreates⟩

end Creation

/-! ## The invariant -/

/-- Ids are given out in order, and every document in memory is owned by its creator alone. -/
structure Titled (s₀ : Server) (es : List Event) (s : Server) : Prop where
  next    : s.manager.nextDocId.toNat = (s.manager.allocated + 1) % 2 ^ 32
  ids     : ∀ {d u}, CreatedBy s₀ es d u → 0 < d.toNat ∧ d.toNat ≤ s.manager.allocated
  unique  : ∀ {d u u'}, CreatedBy s₀ es d u → CreatedBy s₀ es d u' → u = u'
  present : ∀ {d}, (s.manager.documents.lookup d).isSome →
    ∃ u, CreatedBy s₀ es d u ∧ ∀ v, s.access.getRole d v = some .owner ↔ v = u

section Invariant

variable {s₀ s s' : Server} {es : List Event} {e : Event} {d u : UInt32}

theorem not_creates_kept (hdocuments : ∀ {d}, (s'.manager.documents.lookup d).isSome →
    (s.manager.documents.lookup d).isSome) : ¬ s.Creates e s' d u := by
  rintro ⟨hold, hnew, _⟩
  have h := hdocuments hnew
  rw [hold] at h
  cases h

/-- A step that creates nothing keeps the invariant if it keeps the owners of the documents it leaves. -/
theorem Titled.kept (h : Titled s₀ es s) (hr : Machine.run step s₀ es = some s) (hs : step s e = some s')
    (hnext : s'.manager.nextDocId = s.manager.nextDocId)
    (hallocated : s'.manager.allocated = s.manager.allocated)
    (hdocuments : ∀ {d}, (s'.manager.documents.lookup d).isSome → (s.manager.documents.lookup d).isSome)
    (howner : ∀ {d}, (s'.manager.documents.lookup d).isSome → (∃! u, s.access.getRole d u = some .owner) →
      ∀ v, s'.access.getRole d v = some .owner ↔ s.access.getRole d v = some .owner) :
    Titled s₀ (es ++ [e]) s' := by
  have hcreated : ∀ {d u}, CreatedBy s₀ (es ++ [e]) d u ↔ CreatedBy s₀ es d u := fun {d u} =>
    (createdBy_snoc hr hs).trans (or_iff_left (not_creates_kept hdocuments))
  constructor
  · rw [hnext, hallocated]
    exact h.next
  · intro d u hd
    rw [hallocated]
    exact h.ids (hcreated.mp hd)
  · intro d u u' hd hd'
    exact h.unique (hcreated.mp hd) (hcreated.mp hd')
  · intro d hd
    obtain ⟨u, hu, hown⟩ := h.present (hdocuments hd)
    refine ⟨u, hcreated.mpr hu, fun v => ?_⟩
    rw [howner hd ⟨u, (hown u).mpr rfl, fun v hv => (hown v).mp hv⟩, hown]

/-! While fewer than `2 ^ 32` documents have been created, the next id is new. -/

theorem Titled.toNat_nextDocId (h : Titled s₀ es s) (hfew : s.manager.allocated + 1 < 2 ^ 32) :
    s.manager.nextDocId.toNat = s.manager.allocated + 1 := by
  rw [h.next, Nat.mod_eq_of_lt hfew]

theorem Titled.ne_nextDocId (h : Titled s₀ es s) (hfew : s.manager.allocated + 1 < 2 ^ 32)
    (hd : CreatedBy s₀ es d u) : d ≠ s.manager.nextDocId := by
  rintro rfl
  have hle := (h.ids hd).2
  rw [h.toNat_nextDocId hfew] at hle
  exact Nat.not_succ_le_self _ hle

theorem Titled.lookup_nextDocId (h : Titled s₀ es s) (hfew : s.manager.allocated + 1 < 2 ^ 32) :
    s.manager.documents.lookup s.manager.nextDocId = none := by
  by_contra hne
  obtain ⟨u, hu, _⟩ := h.present (Option.isSome_iff_ne_none.mpr hne)
  exact h.ne_nextDocId hfew hu rfl

/-- A creation keeps the invariant: the id is new. -/
theorem Titled.created {i : SessionId} {payload : Option Json} {j : Json} (hsound : s.Sound)
    (h : Titled s₀ es s) (hr : Machine.run step s₀ es = some s)
    (hs : step s (.request i payload) = some s') (hfew : s'.manager.allocated < 2 ^ 32)
    (hj : s.Requests i payload .docCreateRequest j)
    (hdocuments : s'.manager.documents = s.manager.documents.insert s.manager.nextDocId s.manager.allocated)
    (hnext : s'.manager.nextDocId = s.manager.nextDocId + 1)
    (hallocated : s'.manager.allocated = s.manager.allocated + 1)
    (haccess : s'.access = s.access.grant s.manager.nextDocId (s.clients i).userId .owner) :
    Titled s₀ (es ++ [.request i payload]) s' := by
  have hid := h.toNat_nextDocId (hallocated ▸ hfew)
  have hnew : ∀ {d u}, CreatedBy s₀ es d u → d ≠ s.manager.nextDocId := h.ne_nextDocId (hallocated ▸ hfew)
  have hfree := h.lookup_nextDocId (hallocated ▸ hfew)
  -- this request creates the next id, and nothing else
  have hcreates : ∀ {d u}, s.Creates (.request i payload) s' d u ↔
      d = s.manager.nextDocId ∧ u = (s.clients i).userId := by
    intro d u
    constructor
    · rintro ⟨hold, hafter, k, payload', j', he, _, rfl⟩
      cases he
      by_contra hne
      rw [not_and_or] at hne
      rw [hdocuments, AList.lookup_insert_ne (hne.resolve_right (not_not.mpr rfl)), hold] at hafter
      cases hafter
    · rintro ⟨rfl, rfl⟩
      refine ⟨hfree, ?_, i, payload, j, rfl, hj, rfl⟩
      rw [hdocuments, AList.lookup_insert]
      rfl
  have hcreated := fun {d u} => createdBy_snoc (d := d) (u := u) hr hs
  constructor
  · rw [hnext, hallocated, UInt32.toNat_add, hid]
    rfl
  · intro d u hd
    rw [hallocated]
    obtain hd | hd := hcreated.mp hd
    · obtain ⟨hpos, hle⟩ := h.ids hd
      exact ⟨hpos, Nat.le_succ_of_le hle⟩
    · rw [(hcreates.mp hd).1, hid]
      exact ⟨Nat.succ_pos _, le_rfl⟩
  · intro d u u' hd hd'
    obtain hd | hd := hcreated.mp hd
    · obtain hd' | hd' := hcreated.mp hd'
      · exact h.unique hd hd'
      · exact absurd (hcreates.mp hd').1 (hnew hd)
    · obtain hd' | hd' := hcreated.mp hd'
      · exact absurd (hcreates.mp hd).1 (hnew hd')
      · rw [(hcreates.mp hd).2, (hcreates.mp hd').2]
  · intro d hd
    by_cases hdoc : d = s.manager.nextDocId
    · refine ⟨_, hcreated.mpr (.inr (hcreates.mpr ⟨hdoc, rfl⟩)), fun v => ?_⟩
      rw [haccess, AccessControl.getRole_grant, hdoc]
      -- nobody has a role in a document that is not there
      have hnone : s.access.getRole s.manager.nextDocId v = none := by
        by_contra hne
        have hsome := hsound.present (Option.isSome_iff_ne_none.mpr hne)
        rw [hfree] at hsome
        cases hsome
      rw [hnone]
      simp
    · rw [hdocuments, AList.lookup_insert_ne hdoc] at hd
      obtain ⟨u, hu, hown⟩ := h.present hd
      refine ⟨u, hcreated.mpr (.inl hu), fun v => ?_⟩
      rw [haccess, AccessControl.getRole_grant, if_neg fun hk => hdoc hk.1, hown]

theorem titled_snoc (hsound : s.Sound) (h : Titled s₀ es s) (hr : Machine.run step s₀ es = some s)
    (hs : step s e = some s') (hfew : s'.manager.allocated < 2 ^ 32) : Titled s₀ (es ++ [e]) s' := by
  cases governed_step hsound hs with
  | kept hdocuments hnext hallocated haccess =>
      exact h.kept hr hs hnext hallocated (by rw [hdocuments]; exact id) fun _ _ v => by rw [haccess]
  | deleted hj hid hown hdocuments hnext hallocated haccess =>
      refine h.kept hr hs hnext hallocated (fun {d} hd => ?_) fun {d} hd _ v => ?_
      · rw [hdocuments] at hd
        split_ifs at hd
        · cases hd
        · exact hd
      · rw [hdocuments] at hd
        rw [haccess, AccessControl.getRole_revokeAllForDocument]
        split_ifs at hd ⊢
        · cases hd
        · rfl
  | @shared i payload j msg targetId _ hj hmsg hown hother hdocuments hnext hallocated haccess =>
      refine h.kept hr hs hnext hallocated (by rw [hdocuments]; exact id) fun {d} _ hunique v => ?_
      rw [haccess, AccessControl.getRole_setRole]
      split_ifs with hkey
      · -- the target was not the owner, and has not become one
        obtain ⟨rfl, rfl⟩ := hkey
        refine iff_of_false (sharedRole_ne_owner msg.role) fun hv => ?_
        exact hother (hunique.unique hv hown)
      · rfl
  | created hj htitle hdocuments hnext hallocated haccess =>
      exact h.created hsound hr hs hfew hj hdocuments hnext hallocated haccess

theorem allocated_step (hsound : s.Sound) (hs : step s e = some s') :
    s.manager.allocated ≤ s'.manager.allocated := by
  cases governed_step hsound hs with
  | kept _ _ hallocated _ => exact hallocated.ge
  | created _ _ _ _ hallocated _ => exact hallocated ▸ Nat.le_succ _
  | deleted _ _ _ _ _ hallocated _ => exact hallocated.ge
  | shared _ _ _ _ _ _ hallocated _ => exact hallocated.ge

theorem allocated_run (hsound : s.Sound) (hr : Machine.run step s es = some s') :
    s.manager.allocated ≤ s'.manager.allocated :=
  (Machine.run_preserves (I := fun t => t.Sound ∧ s.manager.allocated ≤ t.manager.allocated)
    (fun _ _ _ h hs => ⟨sound_step h.1 hs, h.2.trans (allocated_step h.1 hs)⟩) ⟨hsound, le_rfl⟩ hr).2

theorem titled_start (env : Environment) (dataDir : DataDir) :
    Titled (start env dataDir) [] (start env dataDir) where
  next := rfl
  ids := by
    rintro d u ⟨before, e, after, _, _, hes, _⟩
    cases before <;> cases hes
  unique := by
    rintro d u u' ⟨before, e, after, _, _, hes, _⟩
    cases before <;> cases hes
  present := by
    intro d hd
    cases hd

theorem run_titled {env : Environment} {dataDir : DataDir}
    (hr : Machine.run step (start env dataDir) es = some s) (hfew : s.manager.allocated < 2 ^ 32) :
    Titled (start env dataDir) es s := by
  induction es using List.reverseRecOn generalizing s with
  | nil =>
      cases hr
      exact titled_start env dataDir
  | append_singleton es e ih =>
      obtain ⟨t, ht, hlast⟩ := Machine.run_append.mp hr
      obtain ⟨t', hs, hend⟩ := Machine.run_cons.mp hlast
      cases hend
      have hsound := run_sound ht
      exact titled_snoc hsound (ih ht ((allocated_step hsound hs).trans_lt hfew)) ht hs hfew

end Invariant

/-! ## The result -/

/-- The step handles a share or delete request that names document `d`, sent by its owner. -/
def OwnerRequest (s : Server) (e : Event) (d : UInt32) : Prop :=
  ∃ i payload j, e = .request i payload ∧ s.access.getRole d (s.clients i).userId = some .owner ∧
    ((s.Requests i payload .docShareRequest j ∧
        ∃ msg, DocShareRequestMsg.fromJson j = .ok msg ∧ msg.docId = d) ∨
      (s.Requests i payload .docDeleteRequest j ∧ docIdOf j = .ok d))

/-- Rights change only by a creation or by a request of the owner. -/
theorem rights_changed {s₀ s s' : Server} {es : List Event} {e : Event} {d u : UInt32} (hsound : s.Sound)
    (h : Titled s₀ es s) (hs : step s e = some s') (hfew : s'.manager.allocated < 2 ^ 32)
    (hchanged : s'.access.getRole d u ≠ s.access.getRole d u) :
    (∃ v, s.Creates e s' d v) ∨ s.OwnerRequest e d := by
  cases governed_step hsound hs with
  | kept _ _ _ haccess => exact absurd (by rw [haccess]) hchanged
  | @created i payload j _ _ hj _ hdocuments _ hallocated haccess =>
      rw [haccess, AccessControl.getRole_grant] at hchanged
      have hd : d = s.manager.nextDocId := by
        by_contra hne
        exact hchanged (if_neg fun hk => hne hk.1)
      subst hd
      refine .inl ⟨_, h.lookup_nextDocId (hallocated ▸ hfew), ?_, i, payload, j, rfl, hj, rfl⟩
      rw [hdocuments, AList.lookup_insert]
      rfl
  | @deleted i payload j docId _ hj hid hown _ _ _ haccess =>
      rw [haccess, AccessControl.getRole_revokeAllForDocument] at hchanged
      have hd : d = docId := by
        by_contra hne
        exact hchanged (if_neg hne)
      subst hd
      exact .inr ⟨i, payload, j, rfl, hown, .inr ⟨hj, hid⟩⟩
  | @shared i payload j msg targetId _ hj hmsg hown _ _ _ _ haccess =>
      rw [haccess, AccessControl.getRole_setRole] at hchanged
      have hd : d = msg.docId := by
        by_contra hne
        exact hchanged (if_neg fun hk => hne hk.1)
      subst hd
      exact .inr ⟨i, payload, j, rfl, hown, .inl ⟨hj, msg, hmsg, rfl⟩⟩

/-- **The owner of a document is the user who created it**, and only the owner's requests change its
    rights. -/
theorem ownership {env : Environment} {dataDir : DataDir} {es : List Event} {s : Server}
    (hr : Machine.run step (start env dataDir) es = some s) (hfew : s.manager.allocated < 2 ^ 32) :
    (∀ d, (s.manager.documents.lookup d).isSome → ∃ u,
      (∀ u', CreatedBy (start env dataDir) es d u' ↔ u' = u) ∧
        ∀ v, s.access.getRole d v = some .owner ↔ v = u) ∧
    ∀ before e after t t', es = before ++ e :: after →
      Machine.run step (start env dataDir) before = some t → step t e = some t' →
        ∀ d u, t'.access.getRole d u ≠ t.access.getRole d u →
          (∃ v, t.Creates e t' d v) ∨ t.OwnerRequest e d := by
  have htitled := run_titled hr hfew
  refine ⟨fun d hd => ?_, ?_⟩
  · obtain ⟨u, hu, hown⟩ := htitled.present hd
    exact ⟨u, fun u' => ⟨fun hu' => htitled.unique hu' hu, fun hu' => hu' ▸ hu⟩, hown⟩
  · rintro before e after t t' rfl hbefore hs d u hchanged
    have hsound := run_sound hbefore
    obtain ⟨t₁, ht₁, hrest⟩ := Machine.run_append.mp hr
    rw [hbefore] at ht₁
    cases ht₁
    obtain ⟨t₂, ht₂, hrest⟩ := Machine.run_cons.mp hrest
    rw [hs] at ht₂
    cases ht₂
    have hfew' := (allocated_run (sound_step hsound hs) hrest).trans_lt hfew
    exact rights_changed hsound (run_titled hbefore ((allocated_step hsound hs).trans_lt hfew')) hs hfew' hchanged

/-- One user creates a document, makes another one its editor, and deletes a second document. -/
def sharedRun : List Event :=
  [.accept 1, .accept 2,
    .request 1 (some (AuthRequestMsg.toJson { action := "register", username := "a", password := "p" })),
    .request 2 (some (AuthRequestMsg.toJson { action := "register", username := "b", password := "p" })),
    .request 1 (some (docCreateRequest "t")), .request 1 (some (docCreateRequest "t")),
    .request 1 (some (DocShareRequestMsg.toJson { docId := 1, targetUsername := "b", role := "editor" })),
    .request 1 (some (docIdRequest "doc_delete_request" 2))]

theorem ownership_shared :
    ∃ s, Machine.run step (start plainEnvironment {}) sharedRun = some s ∧ s.manager.allocated < 2 ^ 32 ∧
      (∃ u, ∀ v, s.access.getRole 1 v = some .owner ↔ v = u) ∧ s.access.getRole 1 2 = some .editor := by
  have hrun : (Machine.run step (start plainEnvironment {}) sharedRun).isSome := by decide +kernel
  have hfew : ((Machine.run step (start plainEnvironment {}) sharedRun).get hrun).manager.allocated < 2 ^ 32 := by
    decide +kernel +revert
  have hpresent : (((Machine.run step (start plainEnvironment {}) sharedRun).get
      hrun).manager.documents.lookup 1).isSome := by
    decide +kernel +revert
  have heditor : ((Machine.run step (start plainEnvironment {}) sharedRun).get hrun).access.getRole 1 2 =
      some .editor := by
    decide +kernel +revert
  obtain ⟨u, _, hown⟩ := (ownership (Option.some_get hrun).symm hfew).1 1 hpresent
  exact ⟨_, (Option.some_get hrun).symm, hfew, ⟨u, hown⟩, heditor⟩

end Server

end CollabEditor
