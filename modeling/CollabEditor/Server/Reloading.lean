import CollabEditor.Server.Restarts
import Mathlib.Data.List.TakeWhile

/-!
# `Server.Reloading` — a document comes back from the disk

`create_document` writes the title, `save_document` the content, and a new `DocumentManager` on the directory reads
both when `get_document` asks for the document. The content is copied as it is. The title is read as the first line
of its file, and an empty one is replaced by a name made of the id.

## Contents
- **One document through the disk.** `saveDocument`, `reload`.
- **Titles.** `firstLine_of_noLineBreak`, `load_saved`; `reload_lossless`, `titles_lost`.
-/

namespace CollabEditor

namespace Server

/-! ## One document through the disk -/

/-- The content of a document is replaced. -/
def setContent (s : Server) (ref : ℕ) (content : List UInt8) : Server :=
  let object := s.manager.objects ref
  let object := { object with session := { object.session with doc := object.session.doc.setContent content } }
  { s with manager := { s.manager with objects := Function.update s.manager.objects ref object } }

/-- `AutosaveThread::save_document`, with nothing in between. -/
def saveDocument (s : Server) (ref : ℕ) : Server :=
  let object := s.manager.objects ref
  let doc := object.session.doc
  let object := { object with session := { object.session with doc := doc.markSaved } }
  { s with manager :=
    { s.manager with
      dataDir := s.manager.dataDir.save doc.id doc.content
      objects := Function.update s.manager.objects ref object } }

/-- The document that `get_document` finds. -/
def found (s : Server) (docId : UInt32) : Option (Document UInt8) :=
  match (Handler.getDocument docId).run exec s with
  | (s, .ok (some ref)) => some (s.manager.objects ref).session.doc
  | _                   => none

/-- A document is created with a title, gets a content and is saved, and a new server on the directory is asked
    for it. -/
def reload (s : Server) (title : String) (ownerId : UInt32) (content : List UInt8) : Option (Document UInt8) :=
  match (Handler.createDocument title ownerId).run exec s with
  | (s, .ok docId) => match s.manager.documents.lookup docId with
      | some ref =>
          let s := (s.setContent ref content).saveDocument ref
          (start s.env s.manager.dataDir).found docId
      | none => none
  | _ => none

/-! ## Titles -/

/-- A title without line breaks is its own first line. -/
theorem firstLine_of_noLineBreak {title : String} (h : '\n' ∉ title.toList) :
    String.ofList (title.toList.takeWhile (· ≠ '\n')) = title := by
  have hall : title.toList.takeWhile (· ≠ '\n') = title.toList := by
    rw [List.takeWhile_eq_self_iff]
    intro c hc
    have hne : c ≠ '\n' := fun heq => h (heq ▸ hc)
    simpa using hne
  rw [hall, String.ofList_toList]

/-- What `create_document` and `save_document` leave is read back as the content and the first line. -/
theorem load_saved (d : DataDir) (docId : UInt32) (title : String) (content : List UInt8) :
    ∃ doc, ((d.create docId title).save docId content).load docId = some doc ∧ doc.content = content ∧
      doc.title =
        let line := String.ofList (title.toList.takeWhile (· ≠ '\n'))
        if line = "" then "Document " ++ toString docId.toNat else line := by
  have htxt : ((d.create docId title).save docId content).txt docId = some content := Function.update_self _ _ _
  have hline : ((d.create docId title).save docId content).loadMeta docId =
      String.ofList (title.toList.takeWhile (· ≠ '\n')) := by
    simp [DataDir.save, DataDir.create, DataDir.loadMeta]
  rw [DataDir.load, htxt, Option.map_some, hline]
  exact ⟨_, rfl, rfl, rfl⟩

/-- A manager without documents finds what is in the directory. -/
theorem found_start (env : Environment) (dataDir : DataDir) (docId : UInt32) :
    (start env dataDir).found docId = dataDir.load docId := by
  have hload : (start env dataDir).manager.dataDir.load docId = dataDir.load docId := rfl
  have hnone : (start env dataDir).manager.documents.lookup docId = none := rfl
  unfold found
  rw [run_getDocument]
  unfold getDocument
  simp only [hnone, hload]
  cases dataDir.load docId with
  | none => rfl
  | some doc => simp [DocumentManager.publish, hnone, DocumentManager.addDocument]

section Reload

variable {s : Server}

/-- **Through the disk and back.** The content is what was saved; a title without line breaks is the same, but the
    empty one is replaced. -/
theorem reload_lossless (hlock : s.manager.locked = false) (title : String) (ownerId : UInt32)
    (content : List UInt8) :
    ∃ doc, s.reload title ownerId content = some doc ∧ doc.content = content ∧
      ('\n' ∉ title.toList →
        doc.title = if title = "" then "Document " ++ toString s.manager.nextDocId.toNat else title) := by
  obtain ⟨doc, hload, hcontent, htitle⟩ := load_saved s.manager.dataDir s.manager.nextDocId title content
  refine ⟨doc, ?_, hcontent, ?_⟩
  · have hlookup : (s.createDocument title ownerId).manager.documents.lookup s.manager.nextDocId =
        some s.manager.allocated := AList.lookup_insert _
    unfold reload
    rw [run_createDocument hlock]
    simp only [hlookup]
    rw [found_start, ← hload]
    congr 1
    simp [saveDocument, setContent, createDocument, DocumentManager.allocate, DocumentManager.writeFiles,
      DocumentManager.addDocument, Document.setContent, Document.create]
  · intro h
    rw [firstLine_of_noLineBreak h] at htitle
    exact htitle

/-- The directory of a new server, and a title of one letter. -/
theorem reload_lossless_plain :
    ∃ doc, (start plainEnvironment {}).reload "a" 1 [0x0A, 0xFF] = some doc ∧ doc.content = [0x0A, 0xFF] ∧
      doc.title = "a" := by
  obtain ⟨doc, hdoc, hcontent, htitle⟩ := reload_lossless (s := start plainEnvironment {}) rfl "a" 1 [0x0A, 0xFF]
  exact ⟨doc, hdoc, hcontent, htitle (by decide +kernel)⟩

/-- A title of two lines comes back as its first line, and the empty title as a name. -/
theorem titles_lost :
    (∃ doc, (start plainEnvironment {}).reload "a\nb" 1 [] = some doc ∧ doc.title = "a") ∧
      ∃ doc, (start plainEnvironment {}).reload "" 1 [] = some doc ∧ doc.title = "Document 1" := by
  constructor
  · exact ⟨_, rfl, by decide +kernel⟩
  · exact ⟨_, rfl, by decide +kernel⟩

end Reload

end Server

end CollabEditor
