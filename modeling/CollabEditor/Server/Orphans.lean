import CollabEditor.Server.Workers

/-!
# `Server.Orphans` — rights and the documents they are for

A deletion erases a document and sweeps its rights under the manager's lock. A share checks the owner's right
and grants the new one in two calls, outside of the lock: a grant that comes after the sweep stays.

## Contents
- **Sweeps.** `Sweeping`: a deletion is on its way to the rights of a document.
- **Rights.** `Covered`, `covered_step`.
- **The result.** `rights_refer`: under `Timely` grants every right is for a document in `documents_` whenever
  no handler runs.
-/

namespace CollabEditor

namespace Workers

open Handler Server

/-! ## Sweeps -/

/-- A worker is going to sweep the rights on document `d`. -/
def Sweeping (s : Workers) (d : UInt32) : Prop :=
  ∃ w p, s.workers w = some p ∧ p.Inevitably (· = .revokeAllForDocument d)

/-- A right on document `d` has its document, or is going to be swept away. -/
def Accounted (s : Workers) (d : UInt32) : Prop := d ∈ s.world.manager.documents ∨ s.Sweeping d

section Sweeps

variable {s s' : Workers} {q : ℕ → Phase} {w : ℕ} {c : Call} {next : c.Result → Handler Unit} {d u : UInt32}

/-- A handler that has erased a document sweeps its rights. -/
theorem inevitably_of_erased {p : Handler Unit}
    (h : p.Obeys Phase.allows Phase.move (· = .free) (.erased d)) :
    p.Inevitably (· = .revokeAllForDocument d) := by
  cases p with
  | pure b => cases h
  | throw e => cases h
  | call c next =>
      left
      obtain ⟨hallows, _⟩ := h
      cases c with
      | revokeAllForDocument d' => exact congrArg _ hallows
      | _ => cases hallows

theorem Sweeping.afterCall (h : s.Sweeping d) (hw : s.workers w = some (.call c next))
    (hc : c ≠ .revokeAllForDocument d) : (s.afterCall w c next).Sweeping d := by
  obtain ⟨v, p, hv, hp⟩ := h
  by_cases hvw : v = w
  · subst hvw
    rw [hw] at hv
    cases hv
    exact ⟨v, _, Function.update_self _ _ _, (hp.resolve_left hc) _⟩
  · exact ⟨v, p, (Function.update_of_ne hvw _ _).trans hv, hp⟩

/-- What a call in order leaves accounted for. -/
theorem Accounted.afterCall (hg : Guarded q s) (hw : s.workers w = some (.call c next))
    (hready : Server.ready c s.world = true) (h : s.Accounted d) (hc : c ≠ .revokeAllForDocument d) :
    (s.afterCall w c next).Accounted d := by
  obtain hd | hsweep := h
  · by_cases herase : c = .eraseEntries d
    · subst herase
      obtain ⟨hallows, hnext⟩ := hg.obeys w _ hw
      have hheld : q w = .held := by
        obtain ⟨hc, _⟩ | ⟨hc, _⟩ | ⟨_, _, _, hheld⟩ := allows_cases hallows ()
        · cases hc
        · cases hc
        · exact hheld d rfl
      rw [hheld] at hnext
      exact .inr ⟨w, _, Function.update_self _ _ _, inevitably_of_erased (hnext ())⟩
    · exact .inl (exec_documents herase hd)
  · exact .inr (hsweep.afterCall hw hc)

end Sweeps

/-! ## Rights -/

/-- Every right is accounted for. -/
def Covered (s : Workers) : Prop := ∀ d u, s.world.access.canRead d u = true → s.Accounted d

/-- The document on which the next call of a share grants a role. -/
def sharing (s : Workers) : Pool.Event Job → Option UInt32
  | .call w => match s.workers w with
      | some (.call (.grant d _ role) _) => if role = .owner then none else some d
      | _ => none
  | _ => none

/-- A share grants a role while the document is there, or before the rights on it are swept. -/
def Timely (s : Workers) (e : Pool.Event Job) : Prop := ∀ d ∈ s.sharing e, s.Accounted d

section Rights

variable {s s' : Workers} {q : ℕ → Phase} {e : Pool.Event Job} {c : Call} {d u : UInt32}

theorem canRead_exec {t : Server} (h : (t.exec c).1.access.canRead d u = true) :
    (t.access.canRead d u = true ∧ c ≠ .revokeAllForDocument d) ∨ ∃ role, c = .grant d u role := by
  unfold AccessControl.canRead at h ⊢
  cases c with
  | send i msg =>
      have hcore := Server.access_of_core (Server.core_sendTo t i msg)
      exact .inl ⟨hcore ▸ h, nofun⟩
  | grant d' u' role =>
      change ((t.access.grant d' u' role).getRole d u).isSome = true at h
      rw [AccessControl.getRole_grant] at h
      split_ifs at h with heq
      · obtain ⟨rfl, rfl⟩ := heq
        exact .inr ⟨role, rfl⟩
      · exact .inl ⟨h, nofun⟩
  | revoke d' u' =>
      change ((t.access.revoke d' u').getRole d u).isSome = true at h
      rw [AccessControl.getRole_revoke] at h
      split_ifs at h
      · cases h
      · exact .inl ⟨h, nofun⟩
  | revokeAllForDocument d' =>
      change ((t.access.revokeAllForDocument d').getRole d u).isSome = true at h
      rw [AccessControl.getRole_revokeAllForDocument] at h
      split_ifs at h with hd
      · cases h
      · refine .inl ⟨h, fun hc => hd ?_⟩
        cases hc
        rfl
  | _ => exact .inl ⟨h, nofun⟩

theorem covered_step (hg : Guarded q s) (h : s.Covered) (hok : s.Timely e) (hs : step s e = some s') :
    s'.Covered := by
  cases e with
  | submit job =>
      cases hs
      exact h
  | start w =>
      obtain ⟨hnone, _, job, rest, _, rfl⟩ := Pool.start_cases hs
      intro d u hread
      obtain hd | ⟨v, p, hv, hp⟩ := h d u hread
      · exact .inl hd
      · have hvw : v ≠ w := by
          rintro rfl
          rw [hnone] at hv
          cases hv
        exact .inr ⟨v, p, (Function.update_of_ne hvw _ _).trans hv, hp⟩
  | call w =>
      obtain ⟨c, next, hw, hready, rfl⟩ := Pool.call_cases hs
      intro d u hread
      obtain ⟨hread, hc⟩ | ⟨role, rfl⟩ := canRead_exec hread
      · exact (h d u hread).afterCall hg hw hready hc
      · have haccounted : s.Accounted d := by
          have hallows := (hg.obeys w _ hw).1
          cases hq : q w with
          | free =>
              rw [hq] at hallows
              obtain hplain | hlock | ⟨_, _, hsend, _⟩ := hallows
              · refine hok d ?_
                have hrole : ¬ role = .owner := of_decide_eq_true hplain
                unfold sharing
                simp only [hw, if_neg hrole]
                exact Option.mem_some_self d
              · cases hlock
              · cases hsend
          | created d' =>
              rw [hq] at hallows
              cases hallows
              exact .inl (hg.created w d hq)
          | held => rw [hq] at hallows; cases hallows
          | erased d' => rw [hq] at hallows; cases hallows
        exact haccounted.afterCall hg hw hready nofun
  | finish w =>
      obtain ⟨p, hp, hended, rfl⟩ := Pool.finish_cases hs
      intro d u hread
      obtain hd | ⟨v, p', hv, hp'⟩ := h d u hread
      · exact .inl hd
      · have hvw : v ≠ w := by
          rintro rfl
          rw [hp] at hv
          cases hv
          exact hended.not_inevitably hp'
        exact .inr ⟨v, p', (Function.update_of_ne hvw _ _).trans hv, hp'⟩

end Rights

/-! ## The result -/

section Result

variable {env : Environment} {dataDir : DataDir} {sessions : List SessionId} {size : ℕ}
  {es : List (Pool.Event Job)} {s : Workers}

/-- **No right outlives its document** if every grant of a share is timely: whenever no handler runs, each
    right is for a document in `documents_`, and `list_documents` lists only such documents. -/
theorem rights_refer (hr : Machine.run step (start env dataDir sessions size) es = some s)
    (hok : Machine.Along step Timely (start env dataDir sessions size) es)
    (hquiet : ∀ w, s.workers w = none) :
    (∀ d u, s.world.access.canRead d u = true → d ∈ s.world.manager.documents) ∧
      ∀ u, ∃ entries, (listDocuments u).run Server.exec s.world = (s.world, .ok entries) ∧
        ∀ entry ∈ entries, entry.docId ∈ s.world.manager.documents := by
  have hstart : Covered (start env dataDir sessions size) := by
    intro d u hread
    cases hread
  obtain ⟨⟨q, hg⟩, hcovered⟩ := Machine.run_invariant (I := fun s : Workers => (∃ q, Guarded q s) ∧ s.Covered)
    (fun _ _ _ ⟨⟨_, hg⟩, h⟩ hok hs => ⟨guarded_step hg hs, covered_step hg h hok hs⟩)
    ⟨⟨_, guarded_start env dataDir sessions size⟩, hstart⟩ hok hr
  have hpresent : ∀ d u, s.world.access.canRead d u = true → d ∈ s.world.manager.documents := by
    intro d u hread
    obtain hd | ⟨w, p, hp, _⟩ := hcovered d u hread
    · exact hd
    · rw [hquiet w] at hp
      cases hp
  have hunlocked : s.world.manager.locked = false := by
    by_contra hlocked
    obtain ⟨w, hw⟩ := hg.holder (Bool.not_eq_false _ ▸ hlocked)
    exact hw (hg.idle w (hquiet w))
  refine ⟨hpresent, fun u => ?_⟩
  obtain ⟨entries, hrun, hdocs⟩ := Server.run_listDocuments hunlocked u
  refine ⟨entries, hrun, fun entry hentry => ?_⟩
  have hlisted : entry.docId ∈ s.world.access.listDocumentsForUser u := by
    rw [← hdocs]
    exact List.mem_map_of_mem hentry
  exact hpresent entry.docId u (AccessControl.canRead_of_listed hlisted)

end Result

/-- Two accounts and a document. -/
def sharedSetup : List (Pool.Event Job) :=
  Pool.alone 0 (1, some (AuthRequestMsg.toJson { action := "register", username := "a", password := "p" })) 4 ++
    Pool.alone 0 (2, some (AuthRequestMsg.toJson { action := "register", username := "b", password := "p" })) 4 ++
    Pool.alone 0 (1, some (docCreateRequest "t")) 8

/-- The owner shares the document with the other user. -/
def shareJob : Job :=
  (1, some (DocShareRequestMsg.toJson { docId := 1, targetUsername := "b", role := "editor" }))

/-- The owner deletes the document. -/
def deleteJob : Job := (1, some (docIdRequest "doc_delete_request" 1))

/-- The deletion is started while the share runs, after its grant. -/
def timelyRun : List (Pool.Event Job) :=
  sharedSetup ++ [.submit shareJob, .submit deleteJob, .start 0, .start 1] ++ List.replicate 6 (.call 0) ++
    List.replicate 10 (.call 1) ++ [.finish 1] ++ List.replicate 3 (.call 0) ++ [.finish 0]

/-- The deletion comes between the check of the share and its grant. -/
def lateRun : List (Pool.Event Job) :=
  sharedSetup ++ [.submit shareJob, .submit deleteJob, .start 0, .start 1] ++ List.replicate 5 (.call 0) ++
    List.replicate 10 (.call 1) ++ [.finish 1] ++ List.replicate 4 (.call 0) ++ [.finish 0]

theorem timelyRun_refer :
    ∃ s, Machine.run step (start plainEnvironment {} [1, 2] 2) timelyRun = some s ∧
      ∀ d u, s.world.access.canRead d u = true → d ∈ s.world.manager.documents := by
  have hrun : (Machine.run step (start plainEnvironment {} [1, 2] 2) timelyRun).isSome := by decide +kernel
  have htimely : Machine.Along step (fun s e => ∀ d ∈ s.sharing e, d ∈ s.world.manager.documents)
      (start plainEnvironment {} [1, 2] 2) timelyRun := by
    decide +kernel
  have hidle := idle_of_size (Option.some_get hrun).symm (by
    clear htimely
    decide +kernel +revert)
  exact ⟨_, (Option.some_get hrun).symm, (rights_refer (Option.some_get hrun).symm
    (htimely.mono fun _ _ h d hd => .inl (h d hd)) hidle).1⟩

/-- **The right stays**, and the list of its user has the deleted document. -/
theorem orphaned_right :
    ∃ s, Machine.run step (start plainEnvironment {} [1, 2] 2) lateRun = some s ∧ (∀ w, s.workers w = none) ∧
      s.tasks = [] ∧ s.world.access.canRead 1 2 = true ∧ 1 ∉ s.world.manager.documents ∧
      ∃ entries, (listDocuments 2).run Server.exec s.world = (s.world, .ok entries) ∧
        1 ∈ entries.map DocListEntry.docId := by
  have hrun : (Machine.run step (start plainEnvironment {} [1, 2] 2) lateRun).isSome := by decide +kernel
  have hidle := idle_of_size (Option.some_get hrun).symm (by decide +kernel +revert)
  have hunlocked : ((Machine.run step (start plainEnvironment {} [1, 2] 2) lateRun).get hrun).world.manager.locked =
      false := by
    clear hidle
    decide +kernel +revert
  have hlisted : 1 ∈ ((Machine.run step (start plainEnvironment {} [1, 2] 2) lateRun).get
      hrun).world.access.listDocumentsForUser 2 := by
    clear hidle hunlocked
    decide +kernel +revert
  obtain ⟨entries, hentries, hdocs⟩ := Server.run_listDocuments hunlocked 2
  refine ⟨_, (Option.some_get hrun).symm, hidle, ?_, ?_, ?_, entries, hentries, hdocs ▸ hlisted⟩
  all_goals
    clear hidle hunlocked hlisted hentries hdocs
    decide +kernel +revert

end Workers

end CollabEditor
