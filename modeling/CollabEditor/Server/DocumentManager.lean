import CollabEditor.Server.DocumentSession

/-!
# `Server.DocumentManager` — the documents of the server

`server::DocumentManager` and the directory it works on. A method is one step where it holds the manager's
lock and calls nothing outside; `create_document`, `delete_document`, `list_documents` and `get_document`
are sequences of the sections defined here.

A `Document` and the `DocumentSession` started on it are one object of the heap: `documents_` and `sessions_`
hold references, and so do the handlers. An object outlives its entries, because the session's thread
drains the queue of a removed session.

## Contents
- **Files.** `DataDir`.
- **The records.** `DocumentObject`, `DocumentManager`.
- **The sections of its methods**, and what they leave.
-/

namespace CollabEditor

/-- Client sessions by `session_id`. -/
abbrev SessionId := ℕ

/-- `server::CursorState` has the fields of the `CursorInfo` that is sent of it. -/
abbrev CursorState := CursorInfo

/-- The files `documents/<id>.txt` and `documents/<id>.meta`. -/
structure DataDir where
  txt      : UInt32 → Option (List UInt8) := fun _ => none
  metaFile : UInt32 → Option String := fun _ => none

namespace DataDir

/-- Truncate the text file and write the title. -/
def create (d : DataDir) (docId : UInt32) (title : String) : DataDir where
  txt := Function.update d.txt docId (some [])
  metaFile := Function.update d.metaFile docId (some title)

/-- What `save_document` leaves. -/
def save (d : DataDir) (docId : UInt32) (content : List UInt8) : DataDir :=
  { d with txt := Function.update d.txt docId (some content) }

/-- `fs::remove` of both files. -/
def remove (d : DataDir) (docId : UInt32) : DataDir where
  txt := Function.update d.txt docId none
  metaFile := Function.update d.metaFile docId none

/-- `load_meta`: the first line of the file. -/
def loadMeta (d : DataDir) (docId : UInt32) : String :=
  match d.metaFile docId with
  | some title => String.ofList (title.toList.takeWhile (· ≠ '\n'))
  | none       => ""

/-- `load_from_disk_unlocked`. -/
def load (d : DataDir) (docId : UInt32) : Option (Document UInt8) :=
  (d.txt docId).map fun content =>
    let title := d.loadMeta docId
    let title := if title = "" then "Document " ++ toString docId.toNat else title
    (Document.create docId title).loadContent content

end DataDir

/-- A `Document` and its `DocumentSession`, once one is started. -/
structure DocumentObject where
  session       : DocumentSession UInt8 SessionId
  started       : Bool := false
  stopRequested : Bool := false
  /-- The session's thread has returned. -/
  exited        : Bool := false

/-- `server::DocumentManager`, with its directory and the heap of the documents made so far. -/
structure DocumentManager where
  documents     : AList (fun _ : UInt32 => ℕ) := ∅
  titles        : AList (fun _ : UInt32 => String) := ∅
  sessions      : AList (fun _ : UInt32 => ℕ) := ∅
  cursorBuffers : AList (fun _ : UInt32 => AList fun _ : UInt32 => CursorState) := ∅
  nextDocId     : UInt32 := 1
  /-- `mutex_` is held across steps. -/
  locked        : Bool := false
  dataDir       : DataDir := {}
  objects       : ℕ → DocumentObject := fun _ => { session := { doc := Document.create 0 "" } }
  allocated     : ℕ := 0

namespace DocumentManager

/-- `make_shared<Document>` and its entries in `documents_` and `titles_`. -/
def addDocument (m : DocumentManager) (docId : UInt32) (doc : Document UInt8) : DocumentManager :=
  { m with
    documents := m.documents.insert docId m.allocated
    titles := m.titles.insert docId doc.title
    objects := Function.update m.objects m.allocated { session := { doc := doc } }
    allocated := m.allocated + 1 }

/-- The first part of `create_document`: an id, and a document under it. -/
def allocate (m : DocumentManager) (title : String) : DocumentManager × UInt32 :=
  ({ m.addDocument m.nextDocId (Document.create m.nextDocId title) with nextDocId := m.nextDocId + 1 },
    m.nextDocId)

/-- The last part of `create_document`. -/
def writeFiles (m : DocumentManager) (docId : UInt32) (title : String) : DocumentManager :=
  { m with dataDir := m.dataDir.create docId title }

/-- `request_stop` of a session. -/
def requestStop (m : DocumentManager) (ref : ℕ) : DocumentManager :=
  { m with objects := Function.update m.objects ref { m.objects ref with stopRequested := true } }

/-- The first part of `delete_document`. -/
def eraseEntries (m : DocumentManager) (docId : UInt32) : DocumentManager :=
  let m := { m with documents := m.documents.erase docId, titles := m.titles.erase docId }
  let m := match m.sessions.lookup docId with
    | some ref => { m.requestStop ref with sessions := m.sessions.erase docId }
    | none     => m
  { m with cursorBuffers := m.cursorBuffers.erase docId }

/-- The last part of `delete_document`. -/
def removeFiles (m : DocumentManager) (docId : UInt32) : DocumentManager :=
  { m with dataDir := m.dataDir.remove docId }

/-- The last part of `get_document`: another thread may have been first. -/
def publish (m : DocumentManager) (docId : UInt32) (doc : Document UInt8) : DocumentManager × ℕ :=
  match m.documents.lookup docId with
  | some ref => (m, ref)
  | none     =>
      ({ m.addDocument docId doc with
          nextDocId := if m.nextDocId ≤ docId then docId + 1 else m.nextDocId }, m.allocated)

/-- `get_or_create_session`. -/
def getOrCreateSession (m : DocumentManager) (docId : UInt32) : DocumentManager × Option ℕ :=
  match m.sessions.lookup docId with
  | some ref => (m, some ref)
  | none     => match m.documents.lookup docId with
      | none     => (m, none)
      | some ref =>
          ({ m with
              sessions := m.sessions.insert docId ref
              objects := Function.update m.objects ref { m.objects ref with started := true } },
            some ref)

/-- `get_session`. -/
def getSession (m : DocumentManager) (docId : UInt32) : Option ℕ := m.sessions.lookup docId

/-- The title of a document and the number of its subscribers, as `list_documents` reads them. -/
def listed (m : DocumentManager) (docId : UInt32) : String × Int32 :=
  ((m.titles.lookup docId).getD "",
    match m.documents.lookup docId with
    | some ref => (m.objects ref).session.doc.subscriberCount
    | none     => 0)

/-- `update_cursor`. -/
def updateCursor (m : DocumentManager) (docId : UInt32) (state : CursorState) : DocumentManager :=
  let buffer := (m.cursorBuffers.lookup docId).getD ∅
  { m with cursorBuffers := m.cursorBuffers.insert docId (buffer.insert state.userId state) }

/-- `get_cursors`. -/
def getCursors (m : DocumentManager) (docId : UInt32) : List CursorState :=
  match m.cursorBuffers.lookup docId with
  | some buffer => buffer.entries.map Sigma.snd
  | none        => []

/-- `remove_cursor`. -/
def removeCursor (m : DocumentManager) (docId userId : UInt32) : DocumentManager :=
  match m.cursorBuffers.lookup docId with
  | some buffer => { m with cursorBuffers := m.cursorBuffers.insert docId (buffer.erase userId) }
  | none        => m

/-- Replace the session record of an object. -/
def setSession (m : DocumentManager) (ref : ℕ) (s : DocumentSession UInt8 SessionId) : DocumentManager :=
  { m with objects := Function.update m.objects ref { m.objects ref with session := s } }

/-- `enqueue_command` on a session. -/
def enqueueCommand (m : DocumentManager) (ref : ℕ) (cmd : DocCommand UInt8 SessionId) : DocumentManager :=
  m.setSession ref ((m.objects ref).session.enqueueCommand cmd)

/-! ## What the sections leave -/

section Frame

variable (m : DocumentManager)

theorem session_update (ref k : ℕ) (o : DocumentObject) (h : o.session = (m.objects ref).session) :
    (Function.update m.objects ref o k).session = (m.objects k).session := by
  by_cases hk : k = ref
  · rw [hk, Function.update_self, h]
  · rw [Function.update_of_ne hk]

theorem session_requestStop (ref k : ℕ) :
    ((m.requestStop ref).objects k).session = (m.objects k).session :=
  m.session_update ref k _ rfl

theorem documents_eraseEntries (docId d : UInt32) :
    (m.eraseEntries docId).documents.lookup d = if d = docId then none else m.documents.lookup d := by
  have h : (m.eraseEntries docId).documents = m.documents.erase docId := by
    unfold eraseEntries
    dsimp only
    cases m.sessions.lookup docId <;> rfl
  rw [h]
  split_ifs with hd
  · rw [hd, AList.lookup_erase]
  · exact AList.lookup_erase_ne hd

theorem sessions_eraseEntries (docId d : UInt32) :
    (m.eraseEntries docId).sessions.lookup d = if d = docId then none else m.sessions.lookup d := by
  unfold eraseEntries
  dsimp only
  cases hs : m.sessions.lookup docId with
  | some ref =>
      split_ifs with hd
      · rw [hd]
        exact AList.lookup_erase docId m.sessions
      · exact AList.lookup_erase_ne (s := m.sessions) hd
  | none =>
      split_ifs with hd
      · rw [hd]
        exact hs
      · rfl

@[simp] theorem allocated_eraseEntries (docId : UInt32) :
    (m.eraseEntries docId).allocated = m.allocated := by
  unfold eraseEntries
  dsimp only
  cases m.sessions.lookup docId <;> rfl

@[simp] theorem nextDocId_eraseEntries (docId : UInt32) :
    (m.eraseEntries docId).nextDocId = m.nextDocId := by
  unfold eraseEntries
  dsimp only
  cases m.sessions.lookup docId <;> rfl

@[simp] theorem dataDir_eraseEntries (docId : UInt32) : (m.eraseEntries docId).dataDir = m.dataDir := by
  unfold eraseEntries
  dsimp only
  cases m.sessions.lookup docId <;> rfl

@[simp] theorem locked_eraseEntries (docId : UInt32) : (m.eraseEntries docId).locked = m.locked := by
  unfold eraseEntries
  dsimp only
  cases m.sessions.lookup docId <;> rfl

@[simp] theorem session_eraseEntries (docId : UInt32) (k : ℕ) :
    ((m.eraseEntries docId).objects k).session = (m.objects k).session := by
  unfold eraseEntries
  dsimp only
  cases m.sessions.lookup docId with
  | some ref => exact session_requestStop _ ref k
  | none => rfl

/-- `get_or_create_session` changes nothing but its table and its objects. -/
theorem getOrCreateSession_frame (docId : UInt32) :
    (m.getOrCreateSession docId).1 = { m with
      sessions := (m.getOrCreateSession docId).1.sessions
      objects := (m.getOrCreateSession docId).1.objects } := by
  unfold getOrCreateSession
  cases m.sessions.lookup docId with
  | some ref => rfl
  | none => cases m.documents.lookup docId <;> rfl

@[simp] theorem documents_getOrCreateSession (docId : UInt32) :
    (m.getOrCreateSession docId).1.documents = m.documents := by
  rw [getOrCreateSession_frame]

@[simp] theorem titles_getOrCreateSession (docId : UInt32) :
    (m.getOrCreateSession docId).1.titles = m.titles := by
  rw [getOrCreateSession_frame]

@[simp] theorem dataDir_getOrCreateSession (docId : UInt32) :
    (m.getOrCreateSession docId).1.dataDir = m.dataDir := by
  rw [getOrCreateSession_frame]

@[simp] theorem cursorBuffers_getOrCreateSession (docId : UInt32) :
    (m.getOrCreateSession docId).1.cursorBuffers = m.cursorBuffers := by
  rw [getOrCreateSession_frame]

@[simp] theorem allocated_getOrCreateSession (docId : UInt32) :
    (m.getOrCreateSession docId).1.allocated = m.allocated := by
  rw [getOrCreateSession_frame]

@[simp] theorem nextDocId_getOrCreateSession (docId : UInt32) :
    (m.getOrCreateSession docId).1.nextDocId = m.nextDocId := by
  rw [getOrCreateSession_frame]

@[simp] theorem locked_getOrCreateSession (docId : UInt32) :
    (m.getOrCreateSession docId).1.locked = m.locked := by
  rw [getOrCreateSession_frame]

@[simp] theorem session_getOrCreateSession (docId : UInt32) (k : ℕ) :
    ((m.getOrCreateSession docId).1.objects k).session = (m.objects k).session := by
  unfold getOrCreateSession
  cases m.sessions.lookup docId with
  | some ref => rfl
  | none =>
      cases m.documents.lookup docId with
      | none => rfl
      | some ref => exact m.session_update ref k _ rfl

/-- The entries of `sessions_` after `get_or_create_session`. -/
theorem sessions_getOrCreateSession (docId d : UInt32) :
    (m.getOrCreateSession docId).1.sessions.lookup d =
      if d = docId then (m.getOrCreateSession docId).2 else m.sessions.lookup d := by
  unfold getOrCreateSession
  cases hs : m.sessions.lookup docId with
  | some ref =>
      split_ifs with hd
      · rw [hd]
        exact hs
      · rfl
  | none =>
      cases m.documents.lookup docId with
      | none =>
          split_ifs with hd
          · rw [hd]
            exact hs
          · rfl
      | some ref =>
          split_ifs with hd
          · rw [hd]
            exact AList.lookup_insert m.sessions
          · exact AList.lookup_insert_ne (s := m.sessions) hd

/-- It returns the entry of the session table, or else starts a session on the document. -/
theorem getOrCreateSession_cases {docId : UInt32} {ref : ℕ} (h : (m.getOrCreateSession docId).2 = some ref) :
    m.sessions.lookup docId = some ref ∨ m.documents.lookup docId = some ref := by
  unfold getOrCreateSession at h
  cases hs : m.sessions.lookup docId with
  | some ref' => rw [hs] at h; exact .inl h
  | none =>
      rw [hs] at h
      dsimp only at h
      cases hd : m.documents.lookup docId with
      | none => rw [hd] at h; cases h
      | some ref' => rw [hd] at h; exact .inr h

theorem session_setSession (ref k : ℕ) (s : DocumentSession UInt8 SessionId) :
    ((m.setSession ref s).objects k).session = if k = ref then s else (m.objects k).session := by
  unfold setSession
  dsimp only
  split_ifs with hk
  · rw [hk, Function.update_self]
  · rw [Function.update_of_ne hk]

theorem session_addDocument {k : ℕ} (hk : k < m.allocated) (docId : UInt32) (doc : Document UInt8) :
    ((m.addDocument docId doc).objects k).session = (m.objects k).session := by
  unfold addDocument
  dsimp only
  rw [Function.update_of_ne (Nat.ne_of_lt hk)]

end Frame

end DocumentManager

end CollabEditor
