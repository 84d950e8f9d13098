import CollabEditor.Server.Running

/-!
# `Server.Restarts` — document ids over one data directory

A restart builds a new manager on the old directory: `next_doc_id_` is 1 again, and goes above the id of a
document on disk only when that document is loaded.

## Contents
- **Lives of the server.** `Hosted`, its steps, `highest`.
- **The counter.** `Counted`, `counted_step`.
- **The result.** `create_spares_iff`: what `create_document` needs to leave the other documents alone.
-/

namespace CollabEditor

/-- A document has a file in the directory. -/
def DataDir.Occupied (d : DataDir) (docId : UInt32) : Prop := (d.txt docId).isSome ∨ (d.metaFile docId).isSome

instance (d : DataDir) (docId : UInt32) : Decidable (d.Occupied docId) := by
  unfold DataDir.Occupied
  infer_instance

/-! ## Lives of the server -/

/-- The server, and the documents that have been created or loaded since its last restart. -/
structure Hosted where
  server : Server
  seen   : List UInt32 := []

namespace Hosted

open Server

inductive Event where
  | create (title : String) (ownerId : UInt32)
  | get (docId : UInt32)
  | delete (docId : UInt32)
  /-- `save_document`, when the content of the document is `content`. -/
  | save (ref : ℕ) (content : List UInt8)
  | restart

def create (h : Hosted) (title : String) (ownerId : UInt32) : Hosted :=
  match (Handler.createDocument title ownerId).run exec h.server with
  | (t, .ok docId)  => { server := t, seen := docId :: h.seen }
  | (t, .error _) => { h with server := t }

def get (h : Hosted) (docId : UInt32) : Hosted :=
  match (Handler.getDocument docId).run exec h.server with
  | (t, .ok (some _)) => { server := t, seen := docId :: h.seen }
  | (t, _)            => { h with server := t }

def save (h : Hosted) (ref : ℕ) (content : List UInt8) : Hosted :=
  let m := h.server.manager
  { h with server := { h.server with manager :=
    { m with dataDir := m.dataDir.save (m.objects ref).session.doc.id content } } }

def step (h : Hosted) : Event → Option Hosted
  | .create title ownerId => some (h.create title ownerId)
  | .get docId            => some (h.get docId)
  | .delete docId         => some { h with server := ((Handler.deleteDocument docId).run exec h.server).1 }
  | .save ref content     => if ref < h.server.manager.allocated then some (h.save ref content) else none
  | .restart              => some { server := start h.server.env h.server.manager.dataDir }

/-- The event creates a document. -/
def Event.isCreate : Event → Bool
  | .create _ _ => true
  | _           => false

/-- The highest of some document ids, 0 if there is none. -/
def highest : List UInt32 → ℕ
  | []          => 0
  | d :: docIds => max d.toNat (highest docIds)

theorem le_highest {d : UInt32} {docIds : List UInt32} (h : d ∈ docIds) : d.toNat ≤ highest docIds := by
  induction h with
  | head docIds => exact Nat.le_max_left _ _
  | tail e _ ih => exact Nat.le_trans ih (Nat.le_max_right _ _)

theorem highest_le {n : ℕ} {docIds : List UInt32} (h : ∀ d ∈ docIds, d.toNat ≤ n) : highest docIds ≤ n := by
  induction docIds with
  | nil => exact Nat.zero_le n
  | cons d docIds ih =>
      exact Nat.max_le.mpr ⟨h d List.mem_cons_self, ih fun d hd => h d (List.mem_cons_of_mem _ hd)⟩

/-! ## The counter -/

/-- At most `n` documents have ever been created, and the counter is above those of this life. -/
structure Counted (n : ℕ) (h : Hosted) : Prop where
  unlocked : h.server.manager.locked = false
  files : ∀ d, h.server.manager.dataDir.Occupied d → d.toNat ≤ n
  seen : ∀ d ∈ h.seen, d.toNat ≤ n
  documents : ∀ d ∈ h.server.manager.documents, d ∈ h.seen
  objects : ∀ ref < h.server.manager.allocated, (h.server.manager.objects ref).session.doc.id ∈ h.seen
  next : highest h.seen + 1 < 2 ^ 32 → h.server.manager.nextDocId.toNat = highest h.seen + 1

section Counted

variable {n : ℕ} {h h' : Hosted} {e : Event} {title : String} {ownerId docId : UInt32} {ref : ℕ}

theorem occupied_create {d : DataDir} {k : UInt32} :
    (d.create docId title).Occupied k ↔ k = docId ∨ d.Occupied k := by
  unfold DataDir.Occupied DataDir.create
  by_cases hk : k = docId
  · subst hk
    simp
  · simp [hk]

theorem occupied_save {d : DataDir} {content : List UInt8} {k : UInt32} :
    (d.save docId content).Occupied k ↔ k = docId ∨ d.Occupied k := by
  unfold DataDir.Occupied DataDir.save
  by_cases hk : k = docId
  · subst hk
    simp
  · simp [hk]

theorem occupied_remove {d : DataDir} {k : UInt32} (hk : (d.remove docId).Occupied k) : d.Occupied k := by
  unfold DataDir.Occupied DataDir.remove at *
  by_cases heq : k = docId
  · subst heq
    simp at hk
  · simpa [Function.update_of_ne heq] using hk

theorem create_eq (hlock : h.server.manager.locked = false) : h.create title ownerId =
    { server := h.server.createDocument title ownerId, seen := h.server.manager.nextDocId :: h.seen } := by
  unfold create
  rw [run_createDocument hlock]

/-- A document that is added has been seen, as those before. -/
theorem Counted.mem_insert (hc : Counted n h) {d : UInt32}
    (hd : d ∈ h.server.manager.documents.insert docId ref) : d ∈ docId :: h.seen := by
  obtain rfl | hd := (AList.mem_insert _).mp hd
  · exact List.mem_cons_self
  · exact List.mem_cons_of_mem _ (hc.documents d hd)

/-- An object that is added belongs to a document that has been seen, as those before. -/
theorem Counted.mem_update (hc : Counted n h) {object : DocumentObject} (hid : object.session.doc.id = docId)
    (href : ref < h.server.manager.allocated + 1) :
    (Function.update h.server.manager.objects h.server.manager.allocated object ref).session.doc.id ∈
      docId :: h.seen := by
  obtain hlt | rfl := Nat.lt_succ_iff_lt_or_eq.mp href
  · rw [Function.update_of_ne (Nat.ne_of_lt hlt)]
    exact List.mem_cons_of_mem _ (hc.objects ref hlt)
  · rw [Function.update_self, hid]
    exact List.mem_cons_self

/-- A new document gets the next id. -/
theorem Counted.create (hc : Counted n h) (hn : n + 1 < 2 ^ 32) : Counted (n + 1) (h.create title ownerId) := by
  rw [create_eq hc.unlocked]
  have hle := highest_le hc.seen
  have hnext := hc.next (by omega)
  have hid : h.server.manager.nextDocId.toNat ≤ n + 1 := by omega
  refine ⟨hc.unlocked, fun d hd => ?_, fun d hd => ?_, fun d hd => hc.mem_insert hd,
    fun ref href => hc.mem_update rfl href, fun hlt => ?_⟩
  · obtain rfl | hd := occupied_create.mp hd
    · exact hid
    · exact Nat.le_succ_of_le (hc.files d hd)
  · obtain rfl | hd := List.mem_cons.mp hd
    · exact hid
    · exact Nat.le_succ_of_le (hc.seen d hd)
  · change highest (h.server.manager.nextDocId :: h.seen) + 1 < 2 ^ 32 at hlt
    change (h.server.manager.nextDocId + 1).toNat = highest (h.server.manager.nextDocId :: h.seen) + 1
    unfold highest at hlt ⊢
    rw [hnext, Nat.max_eq_left (Nat.le_succ _)] at hlt ⊢
    rw [UInt32.toNat_add, hnext]
    exact Nat.mod_eq_of_lt hlt

/-- A loaded document puts the counter above its id. -/
theorem Counted.get (hc : Counted n h) : Counted n (h.get docId) := by
  unfold Hosted.get
  rw [run_getDocument]
  unfold getDocument
  cases hdoc : h.server.manager.documents.lookup docId with
  | some ref =>
      have hseen := hc.documents docId (AList.lookup_isSome.mp (by rw [hdoc]; rfl))
      have hhighest : highest (docId :: h.seen) = highest h.seen := Nat.max_eq_right (le_highest hseen)
      refine ⟨hc.unlocked, hc.files, fun d hd => ?_, fun d hd => ?_, fun ref href => ?_, fun hlt => ?_⟩
      · obtain rfl | hd := List.mem_cons.mp hd
        · exact hc.seen d hseen
        · exact hc.seen d hd
      · exact List.mem_cons_of_mem _ (hc.documents d hd)
      · exact List.mem_cons_of_mem _ (hc.objects ref href)
      · rw [hhighest] at hlt ⊢
        exact hc.next hlt
  | none =>
      cases hload : h.server.manager.dataDir.load docId with
      | none => exact hc
      | some doc =>
          unfold DataDir.load at hload
          obtain ⟨content, htxt, hdoc'⟩ := Option.map_eq_some_iff.mp hload
          have hid : doc.id = docId := by
            rw [← hdoc']
            rfl
          have hfile := hc.files docId (.inl (by rw [htxt]; rfl))
          unfold DocumentManager.publish
          simp only [hdoc]
          refine ⟨hc.unlocked, hc.files, fun d hd => ?_, fun d hd => hc.mem_insert hd,
            fun ref href => hc.mem_update hid href, fun hlt => ?_⟩
          · obtain rfl | hd := List.mem_cons.mp hd
            · exact hfile
            · exact hc.seen d hd
          · change highest (docId :: h.seen) + 1 < 2 ^ 32 at hlt
            change (if h.server.manager.nextDocId ≤ docId then docId + 1 else h.server.manager.nextDocId).toNat =
              highest (docId :: h.seen) + 1
            unfold highest at hlt ⊢
            have hnext := hc.next (Nat.lt_of_le_of_lt (Nat.succ_le_succ (Nat.le_max_right _ _)) hlt)
            split_ifs with hle
            · have hdoc := UInt32.le_iff_toNat_le.mp hle
              rw [hnext] at hdoc
              rw [Nat.max_eq_left (Nat.le_of_succ_le hdoc)] at hlt ⊢
              rw [UInt32.toNat_add]
              exact Nat.mod_eq_of_lt hlt
            · have hdoc := UInt32.lt_iff_toNat_lt.mp (UInt32.not_le.mp hle)
              rw [hnext] at hdoc
              rw [Nat.max_eq_right (Nat.le_of_lt_succ hdoc)]
              exact hnext

theorem Counted.delete (hc : Counted n h) : Counted n { h with server := h.server.deleteDocument docId } where
  unlocked := (h.server.manager.locked_eraseEntries docId).trans hc.unlocked
  files d hd := by
    have hdir : (h.server.manager.eraseEntries docId).dataDir = h.server.manager.dataDir := by
      unfold DocumentManager.eraseEntries
      dsimp only
      cases h.server.manager.sessions.lookup docId <;> rfl
    change ((h.server.manager.eraseEntries docId).dataDir.remove docId).Occupied d at hd
    rw [hdir] at hd
    exact hc.files d (occupied_remove hd)
  seen := hc.seen
  documents d hd := by
    refine hc.documents d (AList.lookup_isSome.mp ?_)
    have hlookup := AList.lookup_isSome.mpr hd
    change ((h.server.manager.eraseEntries docId).documents.lookup d).isSome = true at hlookup
    rw [DocumentManager.documents_eraseEntries] at hlookup
    split_ifs at hlookup
    · cases hlookup
    · exact hlookup
  objects ref href := by
    have hallocated := h.server.manager.allocated_eraseEntries docId
    have hsession := h.server.manager.session_eraseEntries docId ref
    change ((h.server.manager.eraseEntries docId).objects ref).session.doc.id ∈ h.seen
    rw [hsession]
    exact hc.objects ref (hallocated ▸ href)
  next hlt := (congrArg UInt32.toNat (h.server.manager.nextDocId_eraseEntries docId)).trans (hc.next hlt)

theorem Counted.save (hc : Counted n h) {content : List UInt8} (href : ref < h.server.manager.allocated) :
    Counted n (h.save ref content) where
  unlocked := hc.unlocked
  files d hd := by
    obtain rfl | hd := occupied_save.mp hd
    · exact hc.seen _ (hc.objects ref href)
    · exact hc.files d hd
  seen := hc.seen
  documents := hc.documents
  objects := hc.objects
  next := hc.next

theorem counted_start {env : Environment} {dataDir : DataDir} (hfiles : ∀ d, dataDir.Occupied d → d.toNat ≤ n) :
    Counted n { server := start env dataDir } where
  unlocked := rfl
  files := hfiles
  seen := nofun
  documents d hd := absurd hd (AList.notMem_empty d)
  objects ref href := absurd href (Nat.not_lt_zero ref)
  next _ := rfl

theorem counted_step (hc : Counted n h) (hs : step h e = some h') (hn : n + 1 < 2 ^ 32 ∨ e.isCreate = false) :
    Counted (n + [e].countP Event.isCreate) h' := by
  cases e with
  | create title ownerId =>
      cases hs
      exact hc.create (hn.resolve_right nofun)
  | get docId =>
      cases hs
      exact hc.get
  | delete docId =>
      cases hs
      rw [run_deleteDocument hc.unlocked]
      exact hc.delete
  | save ref content =>
      change (if _ then _ else _) = some h' at hs
      split_ifs at hs with href
      cases hs
      exact hc.save href
  | restart =>
      cases hs
      exact counted_start hc.files

theorem counted_run {es : List Event} : ∀ {n : ℕ} {h : Hosted}, Counted n h →
    n + es.countP Event.isCreate < 2 ^ 32 → Machine.run step h es = some h' →
    Counted (n + es.countP Event.isCreate) h' := by
  induction es with
  | nil =>
      intro n h hc _ hr
      cases hr
      exact hc
  | cons e es ih =>
      intro n h hc hn hr
      obtain ⟨t, ht, hr'⟩ := Machine.run_cons.mp hr
      have hsum : (e :: es).countP Event.isCreate = [e].countP Event.isCreate + es.countP Event.isCreate := by
        rw [← List.countP_append, List.singleton_append]
      rw [hsum, ← Nat.add_assoc] at hn ⊢
      refine ih (counted_step hc ht ?_) hn hr'
      cases he : e.isCreate with
      | false => exact .inr rfl
      | true =>
          rw [List.countP_singleton, he] at hn
          exact .inl (Nat.lt_of_le_of_lt (Nat.le_add_right _ _) hn)

end Counted

/-! ## The result -/

/-- `create_document` returns an id under which no document has a file, and leaves the files of the documents
    that have some. -/
def Spares (s : Server) (title : String) (ownerId : UInt32) : Prop :=
  ∃ t docId, (Handler.createDocument title ownerId).run exec s = (t, .ok docId) ∧
    ∀ d, s.manager.dataDir.Occupied d → d ≠ docId ∧
      t.manager.dataDir.txt d = s.manager.dataDir.txt d ∧
      t.manager.dataDir.metaFile d = s.manager.dataDir.metaFile d

/-- **When a new document leaves the others alone**: exactly if none of them has the id after the highest one
    that has been created or loaded since the last restart. -/
theorem create_spares_iff {env : Environment} {dataDir : DataDir} {n : ℕ} {es : List Event} {h : Hosted}
    (hr : Machine.run step { server := start env dataDir } es = some h)
    (hfiles : ∀ d, dataDir.Occupied d → d.toNat ≤ n) (hcount : n + es.countP Event.isCreate + 1 < 2 ^ 32)
    (title : String) (ownerId : UInt32) :
    Spares h.server title ownerId ↔
      ∀ d, h.server.manager.dataDir.Occupied d → d.toNat ≠ highest h.seen + 1 := by
  have hstart : Counted n { server := start env dataDir } := counted_start hfiles
  have hc := counted_run hstart (Nat.lt_of_succ_lt hcount) hr
  have hle := highest_le hc.seen
  have hnext := hc.next (by omega)
  have hcreate := run_createDocument hc.unlocked title ownerId
  constructor
  · rintro ⟨t, docId, hrun, hspares⟩ d hd hid
    rw [hcreate] at hrun
    cases hrun
    exact (hspares d hd).1 (UInt32.toNat_inj.mp (hid.trans hnext.symm))
  · intro hfree
    refine ⟨_, _, hcreate, fun d hd => ?_⟩
    have hne : d ≠ h.server.manager.nextDocId := by
      rintro rfl
      exact hfree _ hd hnext
    exact ⟨hne, Function.update_of_ne hne _ _, Function.update_of_ne hne _ _⟩

/-- A document of an earlier life is loaded before the next one is created. -/
def reloadedRun : List Event := [.create "a" 1, .restart, .get 1]

theorem reloadedRun_spares :
    ∃ h, Machine.run step { server := start plainEnvironment {} } reloadedRun = some h ∧
      h.server.manager.dataDir.Occupied 1 ∧ Spares h.server "b" 1 := by
  have hrun : (Machine.run step { server := start plainEnvironment {} } reloadedRun).isSome := by decide +kernel
  have hhighest : highest ((Machine.run step { server := start plainEnvironment {} } reloadedRun).get hrun).seen = 1 := by
    decide +kernel +revert
  have hnone : ∀ d, DataDir.Occupied {} d → d.toNat ≤ 0 := by
    intro d hd
    obtain hd | hd := hd
    · cases hd
    · cases hd
  have hstart : Counted 0 { server := start plainEnvironment {} } := counted_start hnone
  have hc := counted_run hstart (by decide) (Option.some_get hrun).symm
  refine ⟨_, (Option.some_get hrun).symm, ?_,
    (create_spares_iff (Option.some_get hrun).symm hnone (by decide) "b" 1).mpr fun d hd => ?_⟩
  · clear hhighest hc
    decide +kernel +revert
  · have hle : d.toNat ≤ 1 := hc.files d hd
    rw [hhighest]
    omega

/-- A document is saved, and the server restarted. -/
def restartedRun : List Event := [.create "a" 1, .save 0 [120], .restart]

/-- **The new document gets the old one's id**, and its file is truncated. -/
theorem recreated_truncates :
    ∃ h t, Machine.run step { server := start plainEnvironment {} } restartedRun = some h ∧
      (Handler.createDocument "b" 1).run exec h.server = (t, .ok 1) ∧
      h.server.manager.dataDir.txt 1 = some [120] ∧ h.server.manager.dataDir.metaFile 1 = some "a" ∧
      t.manager.dataDir.txt 1 = some [] ∧ t.manager.dataDir.metaFile 1 = some "b" := by
  have hrun : (Machine.run step { server := start plainEnvironment {} } restartedRun).isSome := by decide +kernel
  obtain ⟨hunlocked, hnext, htxt, hmeta⟩ :
      ((Machine.run step { server := start plainEnvironment {} } restartedRun).get hrun).server.manager.locked = false ∧
      ((Machine.run step { server := start plainEnvironment {} } restartedRun).get hrun).server.manager.nextDocId = 1 ∧
      ((Machine.run step { server := start plainEnvironment {} } restartedRun).get hrun).server.manager.dataDir.txt 1 =
        some [120] ∧
      ((Machine.run step { server := start plainEnvironment {} } restartedRun).get hrun).server.manager.dataDir.metaFile 1 =
        some "a" := by
    decide +kernel +revert
  have hcreate := run_createDocument hunlocked "b" 1
  refine ⟨_, _, (Option.some_get hrun).symm, hnext ▸ hcreate, htxt, hmeta, ?_, ?_⟩
  all_goals
    clear hcreate hunlocked hnext htxt hmeta
    decide +kernel +revert

end Hosted

end CollabEditor
