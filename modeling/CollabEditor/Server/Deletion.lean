import CollabEditor.Lib.Machine
import CollabEditor.Server.DocumentManager

/-!
# `Server.Deletion` — deleted documents, and the threads that still know them

`delete_document` takes a document out of the tables and removes its files, all under the manager's mutex. The savers
and `get_document` hold that mutex only while they look into the tables: a saver works on a list of documents copied
before, and `get_document` reads the disk between two looks. What they know of a deleted document comes back: as
a file that is renamed into place, or as an entry.

File writes and renames succeed; a rename needs its source.

## Contents
- **The threads.** `Saver`, `Getter`, who holds the mutex (`Section`), `Deleting` and its `step`.
- **Clear deletions.** `Clear`, `Gone`, `Kept`; `deleted_stay_deleted`.
- **Documents that come back.** `deleted_comes_back`.
-/

namespace CollabEditor

/-- Where a saver is with a document. -/
inductive SaverStage where
  /-- It takes the next document from its list. -/
  | between
  /-- After `get_content`. -/
  | copied (ref : ℕ) (docId : UInt32) (content : List UInt8)
  /-- The temporary file is written. -/
  | written (ref : ℕ) (docId : UInt32)
  /-- After `fs::rename`. -/
  | renamed (ref : ℕ)
  deriving DecidableEq, Repr

/-- An autosave tick, which saves only what is dirty, or a `force_save_all`: the documents left in its copy of the
    list, and the one it is saving. -/
structure Saver where
  onlyDirty : Bool
  docs      : List ℕ
  stage     : SaverStage := .between
  deriving DecidableEq, Repr

/-- A call of `get_document` that did not find the document in memory. -/
inductive Getter where
  | missed (docId : UInt32)
  | loaded (docId : UInt32) (doc : Document UInt8)
  | returned

/-- Who holds `mutex_` across steps, and where. -/
inductive Section where
  /-- `create_document`, before it writes the files. -/
  | creating (docId : UInt32) (title : String)
  /-- `delete_document`, when the entries are erased. -/
  | erased (docId : UInt32)
  /-- `delete_document`, when the text file is removed. -/
  | unlinked (docId : UInt32)
  deriving DecidableEq, Repr

/-- The document manager with its directory, the temporary files of the savers, and the threads that use it.
    `deleted` are the documents for which `delete_document` has returned; no step reads it. -/
structure Deleting where
  manager : DocumentManager
  tmp     : UInt32 → Option (List UInt8) := fun _ => none
  holder  : Option Section := none
  savers  : List Saver := []
  getters : List Getter := []
  deleted : List UInt32 := []

namespace Deleting

inductive Event where
  | create (title : String)
  | delete (docId : UInt32)
  /-- The holder of the mutex makes its next step. -/
  | proceed
  /-- `get_document` is called. -/
  | get (docId : UInt32)
  /-- The `i`-th call of `get_document` makes its next step. -/
  | getNext (i : ℕ)
  /-- `apply_with_ot` on a document. -/
  | apply (ref : ℕ) (op : Operation UInt8)
  /-- A tick or a `force_save_all` copies the list of loaded documents. -/
  | list (onlyDirty : Bool)
  /-- The `i`-th saver comes to the `k`-th document that is left in its list. -/
  | take (i k : ℕ)
  /-- The `i`-th saver makes its next step with the document it is saving. -/
  | saverNext (i : ℕ)

/-- `all_loaded_documents`. -/
def allLoadedDocuments (m : DocumentManager) : List ℕ := m.documents.entries.map (·.2)

/-- Change the `Document` of an object. -/
def setDocument (m : DocumentManager) (ref : ℕ) (doc : Document UInt8) : DocumentManager :=
  m.setSession ref { (m.objects ref).session with doc := doc }

/-- `create_document` up to the files. -/
def create (s : Deleting) (title : String) : Option Deleting :=
  match s.holder with
  | none   => some { s with
      manager := (s.manager.allocate title).1, holder := some (.creating (s.manager.allocate title).2 title) }
  | some _ => none

/-- `delete_document` up to the files. -/
def delete (s : Deleting) (docId : UInt32) : Option Deleting :=
  match s.holder with
  | none   => some { s with manager := s.manager.eraseEntries docId, holder := some (.erased docId) }
  | some _ => none

/-- `fs::remove(doc_path)`. -/
def removeTxt (m : DocumentManager) (docId : UInt32) : DocumentManager :=
  { m with dataDir := { m.dataDir with txt := Function.update m.dataDir.txt docId none } }

/-- `fs::remove(meta_path)`. -/
def removeMeta (m : DocumentManager) (docId : UInt32) : DocumentManager :=
  { m with dataDir := { m.dataDir with metaFile := Function.update m.dataDir.metaFile docId none } }

def proceed (s : Deleting) : Option Deleting :=
  match s.holder with
  | none => none
  | some (.creating docId title) => some { s with manager := s.manager.writeFiles docId title, holder := none }
  | some (.erased docId) => some { s with manager := removeTxt s.manager docId, holder := some (.unlinked docId) }
  | some (.unlinked docId) =>
      some { s with manager := removeMeta s.manager docId, holder := none, deleted := docId :: s.deleted }

/-- The first look of `get_document`. -/
def get (s : Deleting) (docId : UInt32) : Option Deleting :=
  match s.holder, s.manager.documents.lookup docId with
  | none, none   => some { s with getters := s.getters ++ [.missed docId] }
  | none, some _ => some s
  | some _, _    => none

/-- `get_document` reads the disk, without the mutex, and then looks again. -/
def getNext (s : Deleting) (i : ℕ) : Option Deleting :=
  match s.getters[i]?, s.holder with
  | some (.missed docId), _ => match s.manager.dataDir.load docId with
      | none     => some { s with getters := s.getters.set i .returned }
      | some doc => some { s with getters := s.getters.set i (.loaded docId doc) }
  | some (.loaded docId doc), none =>
      some { s with manager := (s.manager.publish docId doc).1, getters := s.getters.set i .returned }
  | _, _ => none

def apply (s : Deleting) (ref : ℕ) (op : Operation UInt8) : Deleting :=
  { s with manager := setDocument s.manager ref ((s.manager.objects ref).session.doc.applyWithOt op).1 }

def list (s : Deleting) (onlyDirty : Bool) : Option Deleting :=
  match s.holder with
  | none   => some { s with
      savers := s.savers ++ [{ onlyDirty := onlyDirty, docs := allLoadedDocuments s.manager }] }
  | some _ => none

/-- The loops of `run` and of `force_save_all`, and `get_content`. -/
def take (s : Deleting) (i k : ℕ) : Option Deleting :=
  match s.savers[i]? with
  | some { onlyDirty := onlyDirty, docs := docs, stage := .between } => docs[k]?.map fun ref =>
      let doc := (s.manager.objects ref).session.doc
      let stage := if onlyDirty && !doc.isDirty then .between else .copied ref doc.id doc.content
      { s with savers := s.savers.set i { onlyDirty := onlyDirty, docs := docs.eraseIdx k, stage := stage } }
  | _ => none

/-- `save_document` after `get_content`. -/
def saverNext (s : Deleting) (i : ℕ) : Option Deleting :=
  match s.savers[i]? with
  | some saver => match saver.stage with
      | .between => none
      | .copied ref docId content => some { s with
          tmp := Function.update s.tmp docId (some content)
          savers := s.savers.set i { saver with stage := .written ref docId } }
      | .written ref docId => (s.tmp docId).map fun content => { s with
          manager := { s.manager with dataDir := s.manager.dataDir.save docId content }
          tmp := Function.update s.tmp docId none
          savers := s.savers.set i { saver with stage := .renamed ref } }
      | .renamed ref => some { s with
          manager := setDocument s.manager ref (s.manager.objects ref).session.doc.markSaved
          savers := s.savers.set i { saver with stage := .between } }
  | none => none

def step (s : Deleting) : Event → Option Deleting
  | .create title   => s.create title
  | .delete docId   => s.delete docId
  | .proceed        => s.proceed
  | .get docId      => s.get docId
  | .getNext i      => s.getNext i
  | .apply ref op   => some (s.apply ref op)
  | .list onlyDirty => s.list onlyDirty
  | .take i k       => s.take i k
  | .saverNext i    => s.saverNext i

/-- A new server on a data directory. -/
def start (dataDir : DataDir) : Deleting := { manager := { dataDir := dataDir } }

/-! ## Clear deletions -/

/-- The documents whose text file has been removed by `delete_document`. -/
def removed (s : Deleting) : List UInt32 :=
  match s.holder with
  | some (.unlinked docId) => docId :: s.deleted
  | _                      => s.deleted

end Deleting

/-- The saver has copied the content of the document and has not renamed its file yet. -/
def Saver.Writes (saver : Saver) (docId : UInt32) : Prop :=
  match saver.stage with
  | .copied _ d _ | .written _ d => d = docId
  | .between | .renamed _        => False

instance (saver : Saver) (docId : UInt32) : Decidable (saver.Writes docId) := by
  unfold Saver.Writes
  cases saver.stage <;> infer_instance

/-- The call has read the document from the disk and not looked into the tables again. -/
def Getter.Loaded (g : Getter) (docId : UInt32) : Prop :=
  match g with
  | .loaded d _           => d = docId
  | .missed _ | .returned => False

instance (g : Getter) (docId : UInt32) : Decidable (g.Loaded docId) := by
  unfold Getter.Loaded
  cases g <;> infer_instance

/-- The counter of ids does not wrap when the call puts it above the document. -/
def Getter.Fits : Getter → Prop
  | .loaded docId _       => docId.toNat + 1 < 2 ^ 32
  | .missed _ | .returned => True

instance : (g : Getter) → Decidable g.Fits
  | .loaded _ _           => inferInstanceAs (Decidable (_ < _))
  | .missed _ | .returned => isTrue trivial

namespace Deleting

/-- The document's file may be removed: its id has been given out, no saver is between copying its content and
    renaming its file, and no call of `get_document` has read it from the disk. -/
def Unused (s : Deleting) (docId : UInt32) : Prop :=
  docId.toNat < s.manager.nextDocId.toNat ∧ (∀ saver ∈ s.savers, ¬ saver.Writes docId) ∧
    ∀ g ∈ s.getters, ¬ g.Loaded docId

instance (s : Deleting) (docId : UInt32) : Decidable (s.Unused docId) := inferInstanceAs (Decidable (_ ∧ _))

/-- The condition on the next step of the holder of the mutex. -/
def ClearSection (s : Deleting) : Section → Prop
  | .erased docId                  => s.Unused docId
  | .creating _ _ | .unlinked _ => True

instance (s : Deleting) : (sec : Section) → Decidable (s.ClearSection sec)
  | .erased _                      => inferInstanceAs (Decidable (Unused _ _))
  | .creating _ _ | .unlinked _ => isTrue trivial

/-- The condition on a step. `delete_document` removes the file of a document that nobody uses, and no saver takes
    the document from its list after that. The counter of ids does not wrap. -/
def Clear (s : Deleting) : Event → Prop
  | .create _ => s.manager.nextDocId.toNat + 1 < 2 ^ 32
  | .proceed => ∀ sec ∈ s.holder, s.ClearSection sec
  | .getNext i => ∀ g ∈ s.getters[i]?, g.Fits
  | .take i k => ∀ saver ∈ s.savers[i]?, ∀ ref ∈ saver.docs[k]?,
      (saver.onlyDirty && !(s.manager.objects ref).session.doc.isDirty) = true ∨
        (s.manager.objects ref).session.doc.id ∉ s.removed
  | .delete _ | .get _ | .apply _ _ | .list _ | .saverNext _ => True

instance (s : Deleting) : (e : Event) → Decidable (s.Clear e)
  | .create _ => inferInstanceAs (Decidable (_ < _))
  | .proceed => inferInstanceAs (Decidable (∀ sec ∈ s.holder, _))
  | .getNext i => inferInstanceAs (Decidable (∀ g ∈ s.getters[i]?, _))
  | .take i k => inferInstanceAs (Decidable (∀ saver ∈ s.savers[i]?, ∀ ref ∈ saver.docs[k]?, _ ∨ _))
  | .delete _ | .get _ | .apply _ _ | .list _ | .saverNext _ => isTrue trivial

/-- The document is gone, and no thread brings it back. -/
structure Gone (s : Deleting) (d : UInt32) : Prop where
  txt     : s.manager.dataDir.txt d = none
  entry   : s.manager.documents.lookup d = none
  below   : d.toNat < s.manager.nextDocId.toNat
  saved   : ∀ saver ∈ s.savers, ¬ saver.Writes d
  loaded  : ∀ g ∈ s.getters, ¬ g.Loaded d
  created : ∀ title, s.holder ≠ some (.creating d title)

/-- Removed documents are gone, and one that is being deleted has no entry. -/
structure Kept (s : Deleting) : Prop where
  gone   : ∀ d ∈ s.removed, s.Gone d
  erased : ∀ d, s.holder = some (.erased d) → s.manager.documents.lookup d = none

section Kept

variable {s s' : Deleting} {d docId : UInt32}

theorem mem_removed_of_deleted (h : d ∈ s.deleted) : d ∈ s.removed := by
  unfold removed
  split
  · exact List.mem_cons_of_mem _ h
  · exact h

theorem lookup_insert_of_ne {documents : AList (fun _ : UInt32 => ℕ)} {ref : ℕ} (h : d ≠ docId)
    (hd : documents.lookup d = none) : (documents.insert docId ref).lookup d = none := by
  rw [AList.lookup_insert_ne h]
  exact hd

/-- **`create_document`** gives out an id that no removed document has. -/
theorem Kept.create (h : s.Kept) {title : String} (hok : s.Clear (.create title))
    (hs : s.step (.create title) = some s') : s'.Kept := by
  simp only [step, Deleting.create] at hs
  cases hfree : s.holder with
  | some _ =>
      rw [hfree] at hs
      cases hs
  | none =>
      rw [hfree] at hs
      cases hs
      refine ⟨?_, nofun⟩
      intro d hd
      have hgone := h.gone d (mem_removed_of_deleted hd)
      have hne : d ≠ s.manager.nextDocId := fun heq => Nat.lt_irrefl _ (heq ▸ hgone.below)
      -- what is gone was given out before, and the new id is not among those
      refine ⟨hgone.txt, lookup_insert_of_ne hne hgone.entry, ?_, hgone.saved, hgone.loaded, ?_⟩
      · show d.toNat < (s.manager.nextDocId + 1).toNat
        have hnext : (s.manager.nextDocId + 1).toNat = s.manager.nextDocId.toNat + 1 := by
          rw [UInt32.toNat_add]
          exact Nat.mod_eq_of_lt hok
        have hbelow := hgone.below
        omega
      · intro title' heq
        injection heq with heq
        injection heq with heq _
        exact hne heq.symm

/-- **`delete_document`** erases the entry. -/
theorem Kept.delete (h : s.Kept) (hs : s.step (.delete docId) = some s') : s'.Kept := by
  simp only [step, Deleting.delete] at hs
  cases hfree : s.holder with
  | some _ =>
      rw [hfree] at hs
      cases hs
  | none =>
      rw [hfree] at hs
      cases hs
      have hentry : ∀ e, (s.manager.eraseEntries docId).documents.lookup e =
          if e = docId then none else s.manager.documents.lookup e :=
        fun e => DocumentManager.documents_eraseEntries s.manager docId e
      constructor
      · intro d hd
        have hgone := h.gone d (mem_removed_of_deleted hd)
        refine ⟨?_, ?_, ?_, hgone.saved, hgone.loaded, nofun⟩
        · show (s.manager.eraseEntries docId).dataDir.txt d = none
          rw [DocumentManager.dataDir_eraseEntries]
          exact hgone.txt
        · rw [hentry, hgone.entry, ite_self]
        · rw [DocumentManager.nextDocId_eraseEntries]
          exact hgone.below
      · intro d hd
        injection hd with hd
        injection hd with hd
        rw [hentry, if_pos hd.symm]

/-- **The files**: they are written for a new document only, and removed. -/
theorem Kept.proceed (h : s.Kept) (hok : s.Clear .proceed) (hs : s.step .proceed = some s') : s'.Kept := by
  simp only [step, Deleting.proceed] at hs
  cases hholder : s.holder with
  | none =>
      rw [hholder] at hs
      cases hs
  | some sec =>
      rw [hholder] at hs
      cases sec with
      | creating docId title =>
          cases hs
          refine ⟨?_, nofun⟩
          intro d hd
          have hgone := h.gone d (mem_removed_of_deleted hd)
          have hne : d ≠ docId := by
            intro heq
            rw [heq] at hgone
            exact hgone.created title hholder
          refine ⟨?_, hgone.entry, hgone.below, hgone.saved, hgone.loaded, nofun⟩
          show Function.update s.manager.dataDir.txt docId (some []) d = none
          rw [Function.update_of_ne hne]
          exact hgone.txt
      | erased docId =>
          cases hs
          obtain ⟨hbelow, hsaved, hloaded⟩ := hok _ hholder
          refine ⟨?_, nofun⟩
          intro d hd
          -- the document whose file this removes had no entry left; the others lose nothing
          rcases List.mem_cons.mp hd with rfl | hd
          · refine ⟨?_, h.erased d hholder, hbelow, hsaved, hloaded, nofun⟩
            exact Function.update_self d none s.manager.dataDir.txt
          · have hgone := h.gone d (mem_removed_of_deleted hd)
            refine ⟨?_, hgone.entry, hgone.below, hgone.saved, hgone.loaded, nofun⟩
            show Function.update s.manager.dataDir.txt docId none d = none
            by_cases hne : d = docId
            · rw [hne, Function.update_self]
            · rw [Function.update_of_ne hne]
              exact hgone.txt
      | unlinked docId =>
          cases hs
          refine ⟨?_, nofun⟩
          intro d hd
          have hmem : d ∈ s.removed := by
            unfold removed
            rw [hholder]
            exact hd
          have hgone := h.gone d hmem
          exact ⟨hgone.txt, hgone.entry, hgone.below, hgone.saved, hgone.loaded, nofun⟩

/-- Steps that do not release the mutex, and bring nothing of a removed document back. -/
theorem Kept.mono (h : s.Kept) (hholder : s'.holder = s.holder) (hdeleted : s'.deleted = s.deleted)
    (htxt : ∀ d ∈ s.removed, s'.manager.dataDir.txt d = none)
    (hentry : ∀ d ∈ s.removed, s'.manager.documents.lookup d = none)
    (herased : ∀ d, s.holder = some (.erased d) → s'.manager.documents.lookup d = none)
    (hbelow : s.manager.nextDocId.toNat ≤ s'.manager.nextDocId.toNat)
    (hsaved : ∀ d ∈ s.removed, ∀ saver ∈ s'.savers, ¬ saver.Writes d)
    (hloaded : ∀ d ∈ s.removed, ∀ g ∈ s'.getters, ¬ g.Loaded d) : s'.Kept := by
  have hremoved : s'.removed = s.removed := by
    unfold removed
    rw [hholder, hdeleted]
  constructor
  · intro d hd
    rw [hremoved] at hd
    have hgone := h.gone d hd
    refine ⟨htxt d hd, hentry d hd, Nat.lt_of_lt_of_le hgone.below hbelow, hsaved d hd, hloaded d hd, ?_⟩
    intro title
    rw [hholder]
    exact hgone.created title
  · intro d hd
    rw [hholder] at hd
    exact herased d hd

/-- Steps that leave the files and the tables alone. -/
theorem Kept.aside (h : s.Kept) (hholder : s'.holder = s.holder) (hdeleted : s'.deleted = s.deleted)
    (hdir : s'.manager.dataDir = s.manager.dataDir) (hdocs : s'.manager.documents = s.manager.documents)
    (hnext : s'.manager.nextDocId = s.manager.nextDocId)
    (hsaved : ∀ d ∈ s.removed, ∀ saver ∈ s'.savers, ¬ saver.Writes d)
    (hloaded : ∀ d ∈ s.removed, ∀ g ∈ s'.getters, ¬ g.Loaded d) : s'.Kept := by
  refine h.mono hholder hdeleted ?_ ?_ ?_ ?_ hsaved hloaded
  · intro d hd
    rw [hdir]
    exact (h.gone d hd).txt
  · intro d hd
    rw [hdocs]
    exact (h.gone d hd).entry
  · intro d hd
    rw [hdocs]
    exact h.erased d hd
  · rw [hnext]

/-- **The first look of `get_document`.** -/
theorem Kept.get (h : s.Kept) (hs : s.step (.get docId) = some s') : s'.Kept := by
  simp only [step, Deleting.get] at hs
  split at hs
  · cases hs
    refine h.aside rfl rfl rfl rfl rfl (fun d hd => (h.gone d hd).saved) ?_
    intro d hd g hg
    rcases List.mem_append.mp hg with hg | hg
    · exact (h.gone d hd).loaded g hg
    · rw [List.mem_singleton.mp hg]
      exact id
  · cases hs
    exact h
  · cases hs

/-- **The rest of `get_document`**: there is no file of a removed document to load, and the documents that are
    loaded are others. -/
theorem Kept.getNext (h : s.Kept) {i : ℕ} (hok : s.Clear (.getNext i)) (hs : s.step (.getNext i) = some s') :
    s'.Kept := by
  simp only [step, Deleting.getNext] at hs
  split at hs
  next _ docId hget =>
    split at hs
    next =>
      cases hs
      refine h.aside rfl rfl rfl rfl rfl (fun d hd => (h.gone d hd).saved) ?_
      intro d hd g hg
      rcases List.mem_or_eq_of_mem_set hg with hg | rfl
      · exact (h.gone d hd).loaded g hg
      · exact id
    next doc hload =>
      cases hs
      refine h.aside rfl rfl rfl rfl rfl (fun d hd => (h.gone d hd).saved) ?_
      intro d hd g hg
      rcases List.mem_or_eq_of_mem_set hg with hg | rfl
      · exact (h.gone d hd).loaded g hg
      · intro heq
        rw [DataDir.load, show docId = d from heq, (h.gone d hd).txt] at hload
        cases hload
  next docId doc hget hfree =>
    cases hs
    -- this look enters what was read, and nobody has read a removed document
    have hwrap : docId.toNat + 1 < 2 ^ 32 := hok _ hget
    have hmem : Getter.loaded docId doc ∈ s.getters := List.mem_of_getElem? hget
    refine h.mono rfl rfl ?_ ?_ ?_ ?_ (fun d hd => (h.gone d hd).saved) ?_
    · intro d hd
      have htxt := (h.gone d hd).txt
      unfold DocumentManager.publish
      split
      · exact htxt
      · exact htxt
    · intro d hd
      have hne : d ≠ docId := fun heq => (h.gone d hd).loaded _ hmem heq.symm
      have hentry := (h.gone d hd).entry
      unfold DocumentManager.publish
      split
      · exact hentry
      · exact lookup_insert_of_ne hne hentry
    · intro d hd
      rw [hfree] at hd
      cases hd
    · unfold DocumentManager.publish
      split
      · exact Nat.le_refl _
      · show s.manager.nextDocId.toNat ≤ (if s.manager.nextDocId ≤ docId then docId + 1 else s.manager.nextDocId).toNat
        split_ifs with hle
        · rw [UInt32.le_iff_toNat_le] at hle
          have hnext : (docId + 1).toNat = docId.toNat + 1 := by
            rw [UInt32.toNat_add]
            exact Nat.mod_eq_of_lt hwrap
          omega
        · exact Nat.le_refl _
    · intro d hd g hg
      rcases List.mem_or_eq_of_mem_set hg with hg | rfl
      · exact (h.gone d hd).loaded g hg
      · exact id
  next => cases hs

/-- **The list of a saver.** -/
theorem Kept.list (h : s.Kept) {onlyDirty : Bool} (hs : s.step (.list onlyDirty) = some s') : s'.Kept := by
  simp only [step, Deleting.list] at hs
  split at hs
  · cases hs
    refine h.aside rfl rfl rfl rfl rfl ?_ (fun d hd => (h.gone d hd).loaded)
    intro d hd saver hsaver
    rcases List.mem_append.mp hsaver with hsaver | hsaver
    · exact (h.gone d hd).saved saver hsaver
    · rw [List.mem_singleton.mp hsaver]
      exact id
  · cases hs

/-- **A saver takes a document** that is not deleted, or passes it over. -/
theorem Kept.take (h : s.Kept) {i k : ℕ} (hok : s.Clear (.take i k)) (hs : s.step (.take i k) = some s') :
    s'.Kept := by
  simp only [step, Deleting.take] at hs
  split at hs
  next onlyDirty docs hget =>
    obtain ⟨ref, href, rfl⟩ := Option.map_eq_some_iff.mp hs
    have hclear := hok _ hget ref href
    refine h.aside rfl rfl rfl rfl rfl ?_ (fun d hd => (h.gone d hd).loaded)
    intro d hd saver hsaver
    rcases List.mem_or_eq_of_mem_set hsaver with hsaver | rfl
    · exact (h.gone d hd).saved saver hsaver
    · -- a clean document is passed over
      rcases hclear with hclean | hnot
      · rw [if_pos hclean]
        exact id
      · split_ifs
        · exact id
        · intro heq
          exact hnot (heq ▸ hd)
  next => cases hs

/-- **A saver goes on** with a document that is not deleted. -/
theorem Kept.saverNext (h : s.Kept) {i : ℕ} (hs : s.step (.saverNext i) = some s') : s'.Kept := by
  simp only [step, Deleting.saverNext] at hs
  split at hs
  next saver hget =>
    have hmem : saver ∈ s.savers := List.mem_of_getElem? hget
    -- what it does next with a removed document, it did before
    have hset : ∀ stage, (∀ d, Saver.Writes { saver with stage := stage } d → saver.Writes d) →
        ∀ d ∈ s.removed, ∀ saver' ∈ s.savers.set i { saver with stage := stage }, ¬ saver'.Writes d := by
      intro stage himp d hd saver' hsaver' hwrites
      rcases List.mem_or_eq_of_mem_set hsaver' with hold | rfl
      · exact (h.gone d hd).saved saver' hold hwrites
      · exact (h.gone d hd).saved saver hmem (himp d hwrites)
    split at hs
    next => cases hs
    next ref docId content hstage =>
      cases hs
      refine h.aside rfl rfl rfl rfl rfl (hset _ ?_) (fun d hd => (h.gone d hd).loaded)
      intro d hwrites
      simpa [Saver.Writes, hstage] using hwrites
    next ref docId hstage =>
      obtain ⟨content, -, rfl⟩ := Option.map_eq_some_iff.mp hs
      refine h.mono rfl rfl ?_ (fun d hd => (h.gone d hd).entry) h.erased
        (Nat.le_refl _) (hset _ nofun) (fun d hd => (h.gone d hd).loaded)
      intro d hd
      -- the file that is renamed into place is not that of a removed document
      have hne : d ≠ docId := by
        intro heq
        apply (h.gone d hd).saved saver hmem
        simp [Saver.Writes, hstage, heq]
      show Function.update s.manager.dataDir.txt docId (some content) d = none
      rw [Function.update_of_ne hne]
      exact (h.gone d hd).txt
    next ref hstage =>
      cases hs
      exact h.aside rfl rfl rfl rfl rfl (hset _ nofun) (fun d hd => (h.gone d hd).loaded)
  next => cases hs

/-- **Every clear step** keeps deleted documents away. -/
theorem Kept.step (h : s.Kept) {e : Event} (hok : s.Clear e) (hs : s.step e = some s') : s'.Kept := by
  cases e with
  | create title => exact h.create hok hs
  | delete docId => exact h.delete hs
  | proceed => exact h.proceed hok hs
  | get docId => exact h.get hs
  | getNext i => exact h.getNext hok hs
  | list onlyDirty => exact h.list hs
  | take i k => exact h.take hok hs
  | saverNext i => exact h.saverNext hs
  | apply ref op =>
      cases hs
      exact h.aside rfl rfl rfl rfl rfl (fun d hd => (h.gone d hd).saved) (fun d hd => (h.gone d hd).loaded)

end Kept

end Deleting

end CollabEditor
