import CollabEditor.Client.EditorWidget
import CollabEditor.Client.OTController
import CollabEditor.Lib.Machine
import CollabEditor.Protocol.Frame

/-!
# `Client.EditorWindow` — the screen and the replicated document

`EditorWindow` opens the widget and the controller on the same content and wires them together: the operations
of an edit go to the controller, and every remote operation that the controller applies to its document goes
to the widget. The two then hold the same text, the one in UTF-16 units and the other in bytes.

## Contents
- **The window.** `EditorWindow`, `setup`, `step`.
- **The conditions.** `Aligned`: a remote operation between code points; `Reported`: a change of the Qt document.
- **In sync.** `EditorWidget.Shows`, kept by a local edit and by a remote operation.
- **The controller.** `content_onLocalOperations`, `content_onNetworkMessage`: its document is the old one after
  the operations it passes on.
- **Runs.** `SplicesAlike`, what an event does to both texts; `editor_shows_document`.
-/

namespace CollabEditor

open Diamond

/-! ## The window -/

/-- `collab_client::EditorWindow`, with its widget and its controller. -/
structure EditorWindow where
  editor : EditorWidget
  ot     : OTController UInt8
  deriving DecidableEq

/-- `EditorWidget::resetContent`, on a new widget. -/
def EditorWidget.resetContent (w : EditorWidget) (content : List UInt16) : EditorWidget :=
  { w with text := content, lastKnownText := content, applyingRemote := false }

/-- The operations that `remoteOperationApplied` is emitted with. -/
def remoteOps {α : Type} (effects : List (Effect α)) : List (Operation α) :=
  effects.filterMap fun e => match e with
    | .remoteOperationApplied op => some op
    | _ => none

namespace EditorWindow

variable (qt : QtCodec)

/-- The constructor: `setupModels` and `setupUi`. -/
def setup (userId : UInt32) (initial : DocJoinResponseMsg UInt8) : Option EditorWindow := do
  let content ← fromStdString qt initial.content
  return {
    editor := { userId := userId, currentRevision := initial.revision : EditorWidget }.resetContent content
    ot := {
      userId := userId
      docId := initial.docId
      doc := { content := initial.content, revision := initial.revision }
      revision := initial.revision } }

/-- What happens to an open window. -/
inductive Event where
  | contentsChange (text : List UInt16) (position charsRemoved charsAdded : ℕ)
  | networkMessage (payload : ServerMsg UInt8)
  deriving DecidableEq

/-- `onRemoteOperationApplied`, for one operation after another. -/
def onRemoteOperations (editor : EditorWidget) : List (Operation UInt8) → Option EditorWidget
  | [] => some editor
  | op :: ops => do
      let editor ← editor.applyRemoteOperation qt op
      onRemoteOperations editor ops

/-- One event; `none` where the text outgrows Qt's limits. -/
def step (w : EditorWindow) : Event → Option EditorWindow
  | .contentsChange text position charsRemoved charsAdded => do
      let (editor, ops) ← w.editor.contentsChange qt text position charsRemoved charsAdded
      return { editor := editor, ot := (w.ot.onLocalOperations ops).1 }
  | .networkMessage payload => do
      let (ot, effects) ← w.ot.onNetworkMessage payload
      let editor ← onRemoteOperations qt w.editor (remoteOps effects)
      return { editor := editor, ot := ot }

end EditorWindow

/-! ## The conditions -/

/-- The parts into which the operation divides the content are whole code points. -/
def OnCodePoints (content : List UInt8) (op : Operation UInt8) : Prop :=
  match op.type with
  | .insert => Utf8.Valid (content.take op.position.toNat) ∧ Utf8.Valid (content.drop op.position.toNat) ∧
      Utf8.Valid op.text
  | .delete => Utf8.Valid (content.take op.position.toNat) ∧
      Utf8.Valid ((content.drop op.position.toNat).take op.length.toNat) ∧
      Utf8.Valid (content.drop (op.position.toNat + op.length.toNat))

instance (content : List UInt8) (op : Operation UInt8) : Decidable (OnCodePoints content op) :=
  match h : op.type with
  | .insert => decidable_of_iff (Utf8.Valid (content.take op.position.toNat) ∧
      Utf8.Valid (content.drop op.position.toNat) ∧ Utf8.Valid op.text) (by simp [OnCodePoints, h])
  | .delete => decidable_of_iff (Utf8.Valid (content.take op.position.toNat) ∧
      Utf8.Valid ((content.drop op.position.toNat).take op.length.toNat) ∧
      Utf8.Valid (content.drop (op.position.toNat + op.length.toNat))) (by simp [OnCodePoints, h])

/-- A remote operation in range of the content and on its code points. Its text has come in one frame. -/
def Aligned (content : List UInt8) (op : Operation UInt8) : Prop :=
  op.toEdit.InRange content ∧ OnCodePoints content op ∧ op.text.length ≤ maxPayloadSize.toNat

instance (content : List UInt8) (op : Operation UInt8) : Decidable (Aligned content op) :=
  inferInstanceAs (Decidable (_ ∧ _))

/-- What `contentsChange` reports of a change from `old` to `new`: the range that was removed and the one that
    was added, both between code points and both possibly past the end. -/
structure Reported (old new : List UInt16) (position charsRemoved charsAdded : ℕ) : Prop where
  inside  : position ≤ old.length
  front   : new.take position = old.take position
  back    : new.drop (position + charsAdded) = old.drop (position + charsRemoved)
  before  : Utf16.Valid (old.take position)
  removed : Utf16.Valid (mid old position charsRemoved)
  added   : Utf16.Valid (mid new position charsAdded)
  after   : Utf16.Valid (old.drop (position + charsRemoved))

instance (old new : List UInt16) (position charsRemoved charsAdded : ℕ) :
    Decidable (Reported old new position charsRemoved charsAdded) :=
  decidable_of_iff (position ≤ old.length ∧ new.take position = old.take position ∧
      new.drop (position + charsAdded) = old.drop (position + charsRemoved) ∧
      Utf16.Valid (old.take position) ∧ Utf16.Valid (mid old position charsRemoved) ∧
      Utf16.Valid (mid new position charsAdded) ∧ Utf16.Valid (old.drop (position + charsRemoved)))
    ⟨fun ⟨h₁, h₂, h₃, h₄, h₅, h₆, h₇⟩ => ⟨h₁, h₂, h₃, h₄, h₅, h₆, h₇⟩,
      fun ⟨h₁, h₂, h₃, h₄, h₅, h₆, h₇⟩ => ⟨h₁, h₂, h₃, h₄, h₅, h₆, h₇⟩⟩

/-- The event is a change as Qt reports it, or brings remote operations that are aligned on the content that
    each of them finds. -/
def EditorWindow.Expected (w : EditorWindow) : EditorWindow.Event → Prop
  | .contentsChange text position charsRemoved charsAdded =>
      Reported w.editor.text text position charsRemoved charsAdded
  | .networkMessage payload => ∀ p ∈ w.ot.onNetworkMessage payload,
      ChainOk apply Aligned w.ot.doc.content (remoteOps p.2)

instance (w : EditorWindow) (e : EditorWindow.Event) : Decidable (w.Expected e) :=
  match e with
  | .contentsChange _ _ _ _ => inferInstanceAs (Decidable (Reported _ _ _ _ _))
  | .networkMessage _ => inferInstanceAs (Decidable (∀ _ ∈ _, _))

/-! ## In sync -/

section Shows

variable {qt : QtCodec} {w w' : EditorWidget} {content : List UInt8}

/-- The widget shows the content: its text and the copy it keeps are the UTF-16 of the code points that the
    content is the UTF-8 of. -/
structure EditorWidget.Shows (w : EditorWidget) (content : List UInt8) : Prop where
  known : w.lastKnownText = w.text
  idle  : w.applyingRemote = false
  fits  : w.text.length < 2 ^ 30
  shows : ∃ cs, w.text = Utf16.encode cs ∧ content = Utf8.bytes cs

/-- **A local edit** changes the text, and its operations the content, to the same characters. -/
theorem EditorWidget.Shows.contentsChange {text : List UInt16} {position charsRemoved charsAdded : ℕ}
    {ops : List (Operation UInt8)} (h : w.Shows content)
    (hrep : Reported w.text text position charsRemoved charsAdded)
    (hstep : w.contentsChange qt text position charsRemoved charsAdded = some (w', ops)) :
    w'.Shows (acts apply content ops) := by
  obtain ⟨cs, htext, rfl⟩ := h.shows
  obtain ⟨as, has⟩ := Utf16.valid_iff.mp hrep.before
  obtain ⟨ms, hms⟩ := Utf16.valid_iff.mp hrep.removed
  obtain ⟨ns, hns⟩ := Utf16.valid_iff.mp hrep.added
  obtain ⟨bs, hbs⟩ := Utf16.valid_iff.mp hrep.after
  have hold : w.text = Utf16.encode (as ++ ms ++ bs) := by
    rw [Utf16.encode_append, Utf16.encode_append, ← has, ← hms, ← hbs, mid, ← List.drop_drop, List.append_assoc,
      List.take_append_drop, List.take_append_drop]
  have hnew : text = Utf16.encode (as ++ ns ++ bs) := by
    rw [Utf16.encode_append, Utf16.encode_append, ← has, ← hns, ← hbs, ← hrep.front, ← hrep.back, mid,
      ← List.drop_drop, List.append_assoc, List.take_append_drop, List.take_append_drop]
  have hcs : cs = as ++ ms ++ bs := Utf16.encode_inj (htext.symm.trans hold)
  have hposition : position = (Utf16.encode as).length := by
    rw [← has, List.length_take, Nat.min_eq_left hrep.inside]
  obtain ⟨rfl, hfits, hacts⟩ := EditorWidget.acts_onContentsChange (w := { w with text := text }) h.idle
    (h.known.trans hold) (by rw [h.known]; exact h.fits) hposition (by rw [h.known]; exact hms) hns hstep
  refine ⟨rfl, h.idle, hfits, as ++ ns ++ bs, hnew, ?_⟩
  rw [hcs]
  exact hacts

/-- **A remote operation** edits the text as it edits the content. -/
theorem EditorWidget.Shows.applyRemoteOperation {op : Operation UInt8} (h : w.Shows content)
    (hop : Aligned content op) (hstep : w.applyRemoteOperation qt op = some w') :
    w'.Shows (apply content op) := by
  cases hn : op.isNoop with
  | true =>
      unfold EditorWidget.applyRemoteOperation at hstep
      rw [if_pos hn] at hstep
      cases hstep
      rw [apply_noop hn]
      exact h
  | false =>
      obtain ⟨cs, htext, rfl⟩ := h.shows
      have hbytes : (Utf8.bytes cs).length < 2 ^ 32 := by
        have hsize := (Utf16.length_encode cs).2
        have hfits := h.fits
        rw [htext] at hfits
        omega
      obtain ⟨hrange, hparts, hframe⟩ := hop
      unfold OnCodePoints at hparts
      cases ht : op.type with
      | insert =>
          rw [op.toEdit_insert ht] at hrange
          rw [ht] at hparts
          obtain ⟨hbefore, hafter, hins⟩ := hparts
          obtain ⟨as, has⟩ := Utf8.valid_iff_bytes.mp hbefore
          obtain ⟨bs, hbs⟩ := Utf8.valid_iff_bytes.mp hafter
          obtain ⟨ns, hns⟩ := Utf8.valid_iff_bytes.mp hins
          -- the boundaries of the operation part the text between characters
          have hcs : cs = as ++ bs := by
            apply Utf8.bytes_inj
            rw [Utf8.bytes_append, ← has, ← hbs, List.take_append_drop]
          have hpos : op.position.toNat = (Utf8.bytes as).length := by
            rw [← has, List.length_take, Nat.min_eq_left hrange]
          obtain ⟨text, hnew, hfits, rfl⟩ := EditorWidget.applyRemoteOperation_insert h.known (hcs ▸ htext) ht hpos
            hns (Nat.lt_of_le_of_lt hframe (by decide)) hn hstep
          refine ⟨rfl, rfl, hfits, as ++ ns ++ bs, hnew, ?_⟩
          rw [hcs, Utf8.bytes_append] at hbytes ⊢
          rw [apply_between_insert ht hpos hbytes, hns, Utf8.bytes_append, Utf8.bytes_append]
      | delete =>
          rw [op.toEdit_delete ht] at hrange
          rw [ht] at hparts
          obtain ⟨hbefore, hdel, hafter⟩ := hparts
          obtain ⟨as, has⟩ := Utf8.valid_iff_bytes.mp hbefore
          obtain ⟨ms, hms⟩ := Utf8.valid_iff_bytes.mp hdel
          obtain ⟨bs, hbs⟩ := Utf8.valid_iff_bytes.mp hafter
          have hcs : cs = as ++ ms ++ bs := by
            apply Utf8.bytes_inj
            rw [Utf8.bytes_append, Utf8.bytes_append, ← has, ← hms, ← hbs, ← List.drop_drop, List.append_assoc,
              List.take_append_drop, List.take_append_drop]
          have hrange' : op.position.toNat + op.length.toNat ≤ (Utf8.bytes cs).length := hrange
          have hpos : op.position.toNat = (Utf8.bytes as).length := by
            rw [← has, List.length_take]
            omega
          have hlen : op.length.toNat = (Utf8.bytes ms).length := by
            rw [← hms, List.length_take, List.length_drop]
            omega
          obtain ⟨text, hnew, hfits, rfl⟩ := EditorWidget.applyRemoteOperation_delete h.known (hcs ▸ htext) ht hpos
            hlen hn hstep
          refine ⟨rfl, rfl, hfits, as ++ bs, hnew, ?_⟩
          rw [hcs, Utf8.bytes_append, Utf8.bytes_append] at hbytes ⊢
          rw [apply_between_delete ht hpos hlen hbytes, Utf8.bytes_append]

theorem EditorWidget.Shows.onRemoteOperations {ops : List (Operation UInt8)} (h : w.Shows content)
    (hops : ChainOk apply Aligned content ops) (hstep : EditorWindow.onRemoteOperations qt w ops = some w') :
    w'.Shows (acts apply content ops) := by
  induction ops generalizing w content with
  | nil =>
      cases hstep
      exact h
  | cons op ops ih =>
      obtain ⟨w₁, hone, hrest⟩ := Option.bind_eq_some_iff.mp hstep
      exact ih (h.applyRemoteOperation hops.1 hone) hops.2 hrest

end Shows

/-! ## The controller -/

section Controller

variable {α : Type} {c c' : OTController α} {effects : List (Effect α)}

/-- What an operation does depends neither on its author nor on its base. -/
theorem content_localLoop (c : OTController α) (ops : List (Operation α)) :
    (c.localLoop ops).1.doc.content = acts apply c.doc.content ops := by
  induction ops generalizing c with
  | nil => rfl
  | cons op ops ih =>
      have hone : (c.onLocalOperation op).1.doc.content = apply c.doc.content op := by
        unfold OTController.onLocalOperation
        by_cases hn : op.isNoop = true
        · rw [if_pos hn, apply_noop hn]
        · rw [if_neg hn]
          cases c.state <;> rfl
      show ((c.onLocalOperation op).1.localLoop ops).1.doc.content = _
      rw [ih, hone]
      rfl

theorem content_onLocalOperations (c : OTController α) (ops : List (Operation α)) :
    (c.onLocalOperations ops).1.doc.content = acts apply c.doc.content ops := content_localLoop c ops

theorem remoteOps_append (es es' : List (Effect α)) : remoteOps (es ++ es') = remoteOps es ++ remoteOps es' :=
  List.filterMap_append

@[simp] theorem remoteOps_emitStateLabel (c : OTController α) : remoteOps [c.emitStateLabel] = [] := by
  unfold OTController.emitStateLabel
  cases c.state <;> rfl

theorem content_receiveOperation {op : Operation α} (h : c.receiveOperation op = some (c', effects)) :
    c'.doc.content = acts apply c.doc.content (remoteOps effects) := by
  by_cases hs : c.state = .synchronized
  · unfold OTController.receiveOperation at h
    rw [hs] at h
    cases h
    rfl
  · cases hp : c.pendingOp with
    | none =>
        unfold OTController.receiveOperation at h
        split at h
        · next hsync => exact absurd hsync hs
        · rw [hp] at h
          cases h
    | some p =>
        rw [OTController.receiveOperation_pending hs hp] at h
        cases h
        rfl

theorem content_broadcastLoop {ops : List (Operation α)} (h : c.broadcastLoop ops = some (c', effects)) :
    c'.doc.content = acts apply c.doc.content (remoteOps effects) := by
  induction ops generalizing c effects with
  | nil =>
      cases h
      rfl
  | cons op ops ih =>
      obtain ⟨⟨c₁, effects₁⟩, hone, h⟩ := Option.bind_eq_some_iff.mp h
      obtain ⟨⟨c₂, effects₂⟩, hrest, h⟩ := Option.bind_eq_some_iff.mp h
      cases h
      rw [ih hrest, content_receiveOperation hone, remoteOps_append, acts_append]

theorem content_handleAck {msg : OperationAckMsg} (h : c.handleAck msg = some (c', effects)) :
    c'.doc.content = acts apply c.doc.content (remoteOps effects) := by
  unfold OTController.handleAck at h
  cases hs : c.state with
  | synchronized =>
      rw [hs] at h
      cases h
      rfl
  | awaitingAck =>
      rw [hs] at h
      cases h
      rfl
  | awaitingAckWithBuffer =>
      rw [hs] at h
      cases hb : c.buffer with
      | nil =>
          rw [hb] at h
          cases h
      | cons op rest =>
          rw [hb] at h
          cases h
          -- the label depends on what is left in the buffer
          cases rest <;> rfl

theorem content_handleBroadcast {msg : OperationBroadcastMsg α} (h : c.handleBroadcast msg = some (c', effects)) :
    c'.doc.content = acts apply c.doc.content (remoteOps effects) := by
  unfold OTController.handleBroadcast at h
  split_ifs at h
  · cases h
    rfl
  · obtain ⟨⟨c₁, effects₁⟩, hloop, h⟩ := Option.bind_eq_some_iff.mp h
    cases h
    rw [remoteOps_append, acts_append, ← content_broadcastLoop hloop]
    rfl

/-- **A message.** The content afterwards is the content before with the remote operations that the controller
    passes on. -/
theorem content_onNetworkMessage {payload : ServerMsg α} (h : c.onNetworkMessage payload = some (c', effects)) :
    c'.doc.content = acts apply c.doc.content (remoteOps effects) := by
  unfold OTController.onNetworkMessage at h
  split at h
  · split_ifs at h
    · exact content_handleAck h
    · cases h
      rfl
  · split_ifs at h
    · exact content_handleBroadcast h
    · cases h
      rfl
  · cases h
    unfold OTController.handleError
    split_ifs <;> rfl
  · cases h
    rfl

end Controller

/-! ## Runs -/

namespace EditorWindow

variable {qt : QtCodec} {w w' : EditorWindow}

theorem step_shows {e : Event} (h : w.editor.Shows w.ot.doc.content) (hexp : w.Expected e)
    (hstep : w.step qt e = some w') : w'.editor.Shows w'.ot.doc.content := by
  cases e with
  | contentsChange text position charsRemoved charsAdded =>
      obtain ⟨⟨editor, ops⟩, hchange, hstep⟩ := Option.bind_eq_some_iff.mp hstep
      cases hstep
      show EditorWidget.Shows editor (w.ot.onLocalOperations ops).1.doc.content
      rw [content_onLocalOperations]
      exact h.contentsChange hexp hchange
  | networkMessage payload =>
      obtain ⟨⟨ot, effects⟩, hmsg, hstep⟩ := Option.bind_eq_some_iff.mp hstep
      obtain ⟨editor, hremote, hstep⟩ := Option.bind_eq_some_iff.mp hstep
      cases hstep
      show EditorWidget.Shows editor ot.doc.content
      rw [content_onNetworkMessage hmsg]
      exact h.onRemoteOperations (hexp _ hmsg) hremote

/-- A new window shows the document it was opened with. -/
theorem setup_shows {userId : UInt32} {initial : DocJoinResponseMsg UInt8} (hvalid : Utf8.Valid initial.content)
    (hframe : initial.content.length ≤ maxPayloadSize.toNat) (h : setup qt userId initial = some w) :
    w.editor.Shows w.ot.doc.content := by
  obtain ⟨cs, hcs⟩ := Utf8.valid_iff_bytes.mp hvalid
  obtain ⟨content, hcontent, h⟩ := Option.bind_eq_some_iff.mp h
  cases h
  have hsize : initial.content.length < 2 ^ 24 + 1 := Nat.lt_succ_of_le hframe
  rw [hcs] at hcontent hsize
  have htext := fromStdString_eq (by omega) hcontent
  have hunits := (Utf16.length_encode cs).1
  refine ⟨rfl, rfl, ?_, cs, htext, hcs⟩
  show content.length < 2 ^ 30
  rw [htext]
  omega

/-- The next event edits the text of the widget and the bytes of the document alike. -/
structure SplicesAlike (qt : QtCodec) (w : EditorWindow) : Prop where
  /-- The operations that `onContentsChange` builds, applied in order to the old bytes, give the bytes of the new
      text, and they are what the controller is given. -/
  edited : ∀ text position charsRemoved charsAdded w',
    Reported w.editor.text text position charsRemoved charsAdded →
    w.step qt (.contentsChange text position charsRemoved charsAdded) = some w' →
    ∃ ops, w.editor.contentsChange qt text position charsRemoved charsAdded = some (w'.editor, ops) ∧
      w'.ot = (w.ot.onLocalOperations ops).1 ∧ w'.editor.lastKnownText = text ∧
      ∃ cs, text = Utf16.encode cs ∧ acts apply w.ot.doc.content ops = Utf8.bytes cs
  /-- The splice that `applyRemoteOperation` makes is `apply` on the bytes. -/
  spliced : ∀ op editor, Aligned w.ot.doc.content op → w.editor.applyRemoteOperation qt op = some editor →
    editor.lastKnownText = editor.text ∧
      ∃ cs, editor.text = Utf16.encode cs ∧ apply w.ot.doc.content op = Utf8.bytes cs
  /-- A message takes the widget and the controller's document through the same operations. -/
  received : ∀ payload w', w.Expected (.networkMessage payload) → w.step qt (.networkMessage payload) = some w' →
    ∃ effects, w.ot.onNetworkMessage payload = some (w'.ot, effects) ∧
      onRemoteOperations qt w.editor (remoteOps effects) = some w'.editor ∧
      w'.ot.doc.content = acts apply w.ot.doc.content (remoteOps effects) ∧
      ∃ cs, w'.editor.lastKnownText = Utf16.encode cs ∧ w'.ot.doc.content = Utf8.bytes cs

theorem splicesAlike_of_shows (h : w.editor.Shows w.ot.doc.content) : w.SplicesAlike qt where
  edited text position charsRemoved charsAdded w' hrep hstep := by
    obtain ⟨⟨editor, ops⟩, hchange, hstep⟩ := Option.bind_eq_some_iff.mp hstep
    cases hstep
    have hnew := h.contentsChange hrep hchange
    have htext := EditorWidget.text_contentsChange hchange
    obtain ⟨cs, hcs, hcontent⟩ := hnew.shows
    exact ⟨ops, hchange, rfl, hnew.known.trans htext, cs, htext.symm.trans hcs, hcontent⟩
  spliced op editor hop hstep := by
    have hnew := h.applyRemoteOperation hop hstep
    exact ⟨hnew.known, hnew.shows⟩
  received payload w' hexp hstep := by
    obtain ⟨⟨ot, effects⟩, hmsg, hrest⟩ := Option.bind_eq_some_iff.mp hstep
    obtain ⟨editor, hremote, hrest⟩ := Option.bind_eq_some_iff.mp hrest
    cases hrest
    have hnew := h.onRemoteOperations (hexp _ hmsg) hremote
    obtain ⟨cs, hcs, hcontent⟩ := hnew.shows
    have hacts := content_onNetworkMessage hmsg
    exact ⟨effects, hmsg, hremote, hacts, cs, hnew.known.trans hcs, hacts.trans hcontent⟩

/-- **The screen shows the document.** After every run of edits and messages, the UTF-8 encoding of the text
    that the widget knows is the content of the local document, and the next event edits both alike. -/
theorem editor_shows_document {userId : UInt32} {initial : DocJoinResponseMsg UInt8} {w₀ : EditorWindow}
    {es : List Event} (hvalid : Utf8.Valid initial.content) (hframe : initial.content.length ≤ maxPayloadSize.toNat)
    (hopen : setup qt userId initial = some w₀) (hexp : Machine.Along (step qt) Expected w₀ es)
    (hr : Machine.run (step qt) w₀ es = some w) :
    (∃ cs, w.editor.lastKnownText = Utf16.encode cs ∧ w.ot.doc.content = Utf8.bytes cs) ∧
      (∀ b ∈ qt.toUtf8 w.editor.lastKnownText, b = w.ot.doc.content) ∧
      w.editor.text = w.editor.lastKnownText ∧ w.SplicesAlike qt := by
  have h := Machine.run_invariant (fun _ _ _ h he hs => step_shows h he hs) (setup_shows hvalid hframe hopen) hexp hr
  obtain ⟨cs, htext, hcontent⟩ := h.shows
  refine ⟨⟨cs, h.known.trans htext, hcontent⟩, fun b hb => ?_, h.known.symm, splicesAlike_of_shows h⟩
  rw [h.known, htext] at hb
  rw [hcontent]
  exact (qt.toUtf8_eq hb).1

end EditorWindow

/-- Conversions of valid texts. -/
def plainCodec : QtCodec where
  maxBytes := 2 ^ 31 - 33
  maxUnits := 2 ^ 30 - 17
  toUtf8 text := (Utf16.decode text).bind fun cs =>
    if (Utf8.bytes cs).length ≤ 2 ^ 31 - 33 then some (Utf8.bytes cs) else none
  fromUtf8 bytes := (Utf8.decode bytes).bind fun s =>
    if (Utf16.encode s.toList).length ≤ 2 ^ 30 - 17 then some (Utf16.encode s.toList) else none
  maxBytes_lt := by decide
  maxUnits_lt := by decide
  toUtf8_encode cs := by rw [Utf16.decode_encode]; rfl
  fromUtf8_bytes cs := by
    obtain ⟨s, hs, hbytes⟩ := Utf8.decode_of_valid (Utf8.valid_iff_bytes.mpr ⟨cs, rfl⟩)
    rw [hs, Option.bind_some, Utf8.bytes_inj hbytes]

/-- The document `hé😀`. -/
def greeting : DocJoinResponseMsg UInt8 :=
  { success := true, docId := 3, content := Utf8.bytes ['h', 'é', '😀'], revision := 5, role := "editor" }

/-- `é` is replaced by `ñx`; someone else, who still sees `é`, deletes the emoji and adds `!!`; and the whole
    text is replaced, which Qt reports with the end of the paragraph. -/
def greetingRun : List EditorWindow.Event :=
  [.contentsChange (Utf16.encode ['h', 'ñ', 'x', '😀']) 1 1 2,
   .networkMessage (.operationBroadcast {
     docId := 3, userId := 2, username := "bo", revision := 6
     ops := [{ op := "delete", pos := 3, text := [], len := 4 }] }),
   .networkMessage (.operationBroadcast {
     docId := 3, userId := 2, username := "bo", revision := 7
     ops := [{ op := "insert", pos := 3, text := Utf8.bytes ['!', '!'], len := 2 }] }),
   .contentsChange (Utf16.encode ['é']) 0 6 2]

/-- The texts after the three first events and at the end. -/
theorem editor_shows_greeting :
    ∃ w₀ w₁ w, EditorWindow.setup plainCodec 1 greeting = some w₀ ∧
      Machine.run (EditorWindow.step plainCodec) w₀ (greetingRun.take 3) = some w₁ ∧
      w₁.editor.lastKnownText = Utf16.encode ['h', 'ñ', 'x', '!', '!'] ∧
      w₁.ot.doc.content = Utf8.bytes ['h', 'ñ', 'x', '!', '!'] ∧
      Machine.run (EditorWindow.step plainCodec) w₀ greetingRun = some w ∧
      w.editor.lastKnownText = Utf16.encode ['é'] ∧ w.ot.doc.content = Utf8.bytes ['é'] ∧
      w.editor.text = w.editor.lastKnownText ∧ w.SplicesAlike plainCodec := by
  have hopen : (EditorWindow.setup plainCodec 1 greeting).isSome := by decide +kernel
  have hfirst : (Machine.run (EditorWindow.step plainCodec) ((EditorWindow.setup plainCodec 1 greeting).get hopen)
      (greetingRun.take 3)).isSome := by decide +kernel +revert
  have hrun : (Machine.run (EditorWindow.step plainCodec) ((EditorWindow.setup plainCodec 1 greeting).get hopen)
      greetingRun).isSome := by
    clear hfirst
    decide +kernel +revert
  have hexp : Machine.Along (EditorWindow.step plainCodec) EditorWindow.Expected
      ((EditorWindow.setup plainCodec 1 greeting).get hopen) greetingRun := by
    clear hrun hfirst
    decide +kernel +revert
  have hshows := (EditorWindow.editor_shows_document (by decide +kernel) (by decide)
    (Option.some_get hopen).symm hexp (Option.some_get hrun).symm).2.2
  refine ⟨_, _, _, (Option.some_get hopen).symm, (Option.some_get hfirst).symm, ?_, ?_, (Option.some_get hrun).symm,
    ?_, ?_, hshows⟩
  all_goals
    clear hexp hshows
    decide +kernel +revert

end CollabEditor
