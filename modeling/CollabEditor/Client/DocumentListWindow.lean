import CollabEditor.Protocol.Codec

/-!
# `Client.DocumentListWindow` — the list of documents and the way into one of them

The window remembers the document it has asked to join, `pending_join_doc_id_`, and asks for no other one
meanwhile. A slot returns the window's next state and the list of its effects in order.

A refused join has no document id on the wire, so that the decoder leaves it 0: the window takes such a
response for one to another request.

## Contents
- **Slots.** `requestJoin`, `onMessageReceived` and its handlers.
- **Responses.** `onMessageReceived_docJoinResponse`, `onMessageReceived_error`.
-/

namespace CollabEditor

/-- `parse_envelope`, the type; a payload that is not JSON is `none`. -/
def parseEnvelope (payload : Option Json) : MessageType :=
  match payload with
  | none   => .unknown
  | some j => match j.find? "type" with
      | some (.string type) => parseMessageType type
      | _                   => .unknown

/-- `parse_as`. -/
def parseAs {β : Type} (fromJson : Json → Except JsonException β) (payload : Option Json) : Option β :=
  payload.bind fun j => (fromJson j).toOption

/-- `collab_client::DocumentListWindow`: `pending_join_doc_id_`, the cards of the list and the status line. -/
structure DocumentListWindow where
  pendingJoinDocId : UInt32 := 0
  list             : List DocListEntry := []
  status           : String := ""

/-- What a slot does besides updating the window. -/
inductive WindowEffect where
  | send (request : Json)
  | warning (title text : String)
  | documentJoined (msg : DocJoinResponseMsg UInt8)

namespace DocumentListWindow

/-- `refresh`. -/
def refresh (w : DocumentListWindow) : DocumentListWindow × List WindowEffect :=
  ({ w with status := "Refreshing…" }, [.send (.object [("type", .string "doc_list_request")])])

/-- `requestJoin`. -/
def requestJoin (w : DocumentListWindow) (docId : UInt32) : DocumentListWindow × List WindowEffect :=
  if w.pendingJoinDocId ≠ 0 then (w, [])
  else
    ({ w with pendingJoinDocId := docId, status := "Opening document #" ++ toString docId ++ "…" },
      [.send (docIdRequest "doc_join_request" docId)])

/-- `applyDocList`. -/
def applyDocList (w : DocumentListWindow) (documents : List DocListEntry) : DocumentListWindow :=
  { w with
    list := documents
    status :=
      if documents.isEmpty then "No documents yet. Create your first one."
      else toString documents.length ++ " document(s)." }

/-- `handleDocListResponse`. -/
def handleDocListResponse (w : DocumentListWindow) (payload : Option Json) :
    DocumentListWindow × List WindowEffect :=
  match parseAs docListDocuments payload with
  | some documents => (w.applyDocList documents, [])
  | none           => (w, [])

/-- `handleDocCreateResponse`. -/
def handleDocCreateResponse (w : DocumentListWindow) (payload : Option Json) :
    DocumentListWindow × List WindowEffect :=
  match parseAs DocCreateResponseMsg.fromJson payload with
  | none     => (w, [])
  | some msg =>
      let (w, effects) := w.refresh
      if msg.success then
        let (w, effects') := w.requestJoin msg.docId
        (w, effects ++ effects')
      else (w, .warning "Create failed" "Could not create the document." :: effects)

/-- `handleDocJoinResponse`. -/
def handleDocJoinResponse (w : DocumentListWindow) (payload : Option Json) :
    DocumentListWindow × List WindowEffect :=
  match parseAs DocJoinResponseMsg.fromJson payload with
  | none     => (w, [])
  | some msg =>
      if w.pendingJoinDocId ≠ 0 ∧ msg.docId ≠ w.pendingJoinDocId then (w, [])
      else
        let w := { w with pendingJoinDocId := 0 }
        if msg.success then (w, [.documentJoined msg])
        else (w, [.warning "Join failed" ("Could not open document (" ++ msg.error ++ ").")])

/-- `handleErrorMessage`. -/
def handleErrorMessage (w : DocumentListWindow) (payload : Option Json) :
    DocumentListWindow × List WindowEffect :=
  let w := match parseAs ErrorMsg.fromJson payload with
    | some err => { w with status := err.message }
    | none     => w
  ({ w with pendingJoinDocId := 0 }, [])

/-- `onMessageReceived`. -/
def onMessageReceived (w : DocumentListWindow) (payload : Option Json) :
    DocumentListWindow × List WindowEffect :=
  match parseEnvelope payload with
  | .docListResponse   => w.handleDocListResponse payload
  | .docCreateResponse => w.handleDocCreateResponse payload
  | .docJoinResponse   => w.handleDocJoinResponse payload
  | .error             => w.handleErrorMessage payload
  | .docDeleteResponse | .docShareResponse | .roleChanged | .docDeleted | .userJoined | .userLeft => w.refresh
  | _ => (w, [])

/-! ## Responses -/

/-- The window asks for a document. -/
def Asks (effects : List WindowEffect) (docId : UInt32) : Prop :=
  .send (docIdRequest "doc_join_request" docId) ∈ effects

/-- A request is sent exactly when nothing is pending. -/
theorem requestJoin_asks (w : DocumentListWindow) (docId : UInt32) :
    Asks (w.requestJoin docId).2 docId ↔ w.pendingJoinDocId = 0 := by
  unfold requestJoin Asks
  split_ifs with h
  · exact ⟨fun hmem => absurd hmem List.not_mem_nil, fun h0 => absurd h0 h⟩
  · exact ⟨fun _ => not_not.mp h, fun _ => List.mem_singleton.mpr rfl⟩

/-- `parse_envelope` finds the type that an envelope names. -/
theorem parseEnvelope_of {j : Json} {type : MessageType} (h : envelopeType j = .ok type) :
    parseEnvelope (some j) = type := by
  unfold envelopeType Json.member at h
  unfold parseEnvelope Json.find?
  cases j with
  | object members =>
      dsimp only at h ⊢
      cases hm : members.lookup "type" with
      | none => rw [hm] at h; cases h
      | some value =>
          rw [hm] at h
          cases value with
          | string name => exact Except.ok.inj h
          | _ => cases h
  | _ => cases h

theorem parseAs_of {β : Type} {fromJson : Json → Except JsonException β} {j : Json} {x : β}
    (h : fromJson j = .ok x) : parseAs fromJson (some j) = some x := by
  unfold parseAs
  rw [Option.bind_some, h]
  rfl

/-- An error message ends whatever is pending, and is shown. -/
theorem onMessageReceived_error (w : DocumentListWindow) (err : ErrorMsg) :
    w.onMessageReceived (some err.toJson) = ({ w with pendingJoinDocId := 0, status := err.message }, []) := by
  have htype : envelopeType err.toJson = .ok .error := rfl
  unfold onMessageReceived
  rw [parseEnvelope_of htype]
  show w.handleErrorMessage (some err.toJson) = _
  unfold handleErrorMessage
  rw [parseAs_of err.fromJson_toJson]

/-- **A join response** ends whatever is pending, unless it carries another id than the pending one. -/
theorem onMessageReceived_docJoinResponse (w : DocumentListWindow) {msg : DocJoinResponseMsg UInt8}
    (h : (Message.server (.docJoinResponse msg)).Carried) :
    ∃ j, msg.toJson = .ok j ∧ w.onMessageReceived (some j) =
      if w.pendingJoinDocId ≠ 0 ∧ msg.docId ≠ w.pendingJoinDocId then (w, [])
      else ({ w with pendingJoinDocId := 0 },
        if msg.success then [.documentJoined msg]
        else [.warning "Join failed" ("Could not open document (" ++ msg.error ++ ").")]) := by
  obtain ⟨j, hj, hread, htype⟩ := DocJoinResponseMsg.fromJson_toJson h
  refine ⟨j, hj, ?_⟩
  unfold onMessageReceived
  rw [parseEnvelope_of htype]
  show w.handleDocJoinResponse (some j) = _
  unfold handleDocJoinResponse
  rw [parseAs_of hread]
  dsimp only
  split_ifs <;> rfl

end DocumentListWindow

end CollabEditor
