import CollabEditor.System.Wholeness

/-!
# `System.Screens` — every screen shows the server's text

The system with an editor window at each client: what a user types changes the Qt document, its operations go
to the controller and on to the server, and what the controller applies to its document goes back to the Qt
document. The text on a screen is a list of UTF-16 units and the server's content a list of bytes, and between
them stand three conversions, two transforms and two channels. `screens_show_server`: in every run in which
the users edit between characters, each screen shows its client's document at any time, and the server's document
once the system is at rest.

## Contents
- **The window's slots.** `onEffects`, what a controller tells its window.
- **One widget.** The operations of an edit are whole (`EditorWidget.Shows.whole_ops`), and a whole remote
  operation is shown as it is applied (`EditorWidget.Shows.remote`).
- **The machine.** `Screens`, `step`, `Expected`.
- **Runs.** `InSync`, kept by every step; `screens_show_server`.
-/

namespace CollabEditor

open Diamond OTController

/-! ## Operations that fit a frame -/

/-- The text that an insertion brings has travelled in one frame. -/
def FitsFrame (op : Operation UInt8) : Prop := op.type = .insert → op.text.length ≤ maxPayloadSize.toNat

instance (op : Operation UInt8) : Decidable (FitsFrame op) := inferInstanceAs (Decidable (_ → _))

/-- Whole on a text, and of a size that can travel. -/
def WholeFrame (d : List UInt8) (op : Operation UInt8) : Prop := Whole d op ∧ FitsFrame op

/-- The transform keeps the text of an insertion or swallows it. -/
theorem xform_text {a b : Operation UInt8} (ha : a.type = .insert) :
    (xform a b).text = a.text ∨ (xform a b).text = [] := by
  simp only [xform, transform, transformInsertInsert, transformInsertDelete, ha]
  cases b.type <;> dsimp only <;> split_ifs <;> simp

theorem wholeFrame_kept : System.Kept WholeFrame where
  laws :=
    { site_xf := whole_laws.site_xf
      closed := by
        intro d a b ha hb hf
        refine ⟨whole_laws.closed ha.1 hb.1 hf, ?_⟩
        intro ht
        rw [xform_type] at ht
        rcases xform_text (b := b) ht with hkept | hgone
        · rw [hkept]
          exact ha.2 ht
        · rw [hgone]
          exact Nat.zero_le _
      converge := fun ha hb => whole_laws.converge ha.1 hb.1 }
  same := by
    intro d p e h hp
    refine ⟨System.whole_same h hp.1, ?_⟩
    intro ht
    have htp : p.type = .insert := h.type.trans ht
    rw [← h.text htp]
    exact hp.2 htp

/-! ## The window's slots -/

namespace EditorWindow

variable (qt : QtCodec)

/-- `onRemoteOperationApplied` and `onRevisionChanged`, for what a slot of the controller emits. The other signals
    reach the status bar only. -/
def onEffects (editor : EditorWidget) : List (Effect UInt8) → Option EditorWidget
  | [] => some editor
  | .remoteOperationApplied op :: effects => do
      let editor ← editor.applyRemoteOperation qt op
      onEffects editor effects
  | .revisionChanged revision :: effects => onEffects { editor with currentRevision := revision } effects
  | .send _ :: effects => onEffects editor effects
  | .stateChanged _ :: effects => onEffects editor effects
  | .fatalError _ :: effects => onEffects editor effects

end EditorWindow

/-! ## One widget -/

section Widget

variable {qt : QtCodec} {w w' : EditorWidget} {content : List UInt8} {as ms ns bs : List Char}

theorem valid_bytes (cs : List Char) : Utf8.Valid (Utf8.bytes cs) := Utf8.valid_iff_bytes.mpr ⟨cs, rfl⟩

/-- The deletion between two parts of a text is whole. -/
theorem whole_delete {op : Operation UInt8} (ht : op.type = .delete) (hpos : op.position.toNat = (Utf8.bytes as).length)
    (hlen : op.length.toNat = (Utf8.bytes ms).length) : Whole (Utf8.bytes (as ++ ms ++ bs)) op := by
  have hsize : (Utf8.bytes (as ++ ms ++ bs)).length =
      (Utf8.bytes as).length + (Utf8.bytes ms).length + (Utf8.bytes bs).length := by
    simp only [Utf8.bytes_append, List.length_append]
  have hfirst : Edit.Cut Utf8.Valid (Utf8.bytes (as ++ ms ++ bs)) (Utf8.bytes as).length := by
    rw [List.append_assoc, Utf8.bytes_append]
    exact Edit.cut_append (valid_bytes as) (valid_bytes _)
  have hlast : Edit.Cut Utf8.Valid (Utf8.bytes (as ++ ms ++ bs))
      ((Utf8.bytes as).length + (Utf8.bytes ms).length) := by
    have hcut := Edit.cut_append (valid_bytes (as ++ ms)) (valid_bytes bs)
    rwa [← Utf8.bytes_append, Utf8.bytes_append as, List.length_append] at hcut
  refine ⟨(inRange_delete ht).mpr (by omega), ?_⟩
  rw [op.toEdit_delete ht, hpos, hlen]
  exact ⟨by omega, .inr ⟨hfirst, hlast⟩⟩

/-- The insertion of characters between two parts of a text is whole. -/
theorem whole_insert {op : Operation UInt8} (ht : op.type = .insert) (hpos : op.position.toNat = (Utf8.bytes as).length)
    (htext : op.text = Utf8.bytes ns) (hlen : op.length = UInt32.ofNat op.text.length) :
    Whole (Utf8.bytes (as ++ bs)) op := by
  have hcut : Edit.Cut Utf8.Valid (Utf8.bytes (as ++ bs)) (Utf8.bytes as).length := by
    rw [Utf8.bytes_append]
    exact Edit.cut_append (valid_bytes as) (valid_bytes bs)
  refine ⟨(inRange_insert ht).mpr ⟨hpos ▸ hcut.1, hlen⟩, ?_⟩
  rw [op.toEdit_insert ht, hpos, htext]
  exact ⟨hcut, valid_bytes ns⟩

theorem EditorWidget.whole_removedOp {utf8Pos : UInt32} {position charsRemoved : ℕ} {ops : List (Operation UInt8)}
    (bs : List Char) (hpos : utf8Pos.toNat = (Utf8.bytes as).length)
    (hremoved : mid w.lastKnownText position charsRemoved = Utf16.encode ms)
    (h : w.removedOp qt utf8Pos position charsRemoved = some ops) :
    ChainOk apply Whole (Utf8.bytes (as ++ ms ++ bs)) ops ∧ AllWellFormed ops := by
  unfold removedOp at h
  split_ifs at h with hcount
  · obtain ⟨removed, hconv, h⟩ := Option.bind_eq_some_iff.mp h
    rw [hremoved] at hconv
    obtain ⟨rfl, hlt⟩ := qt.toUtf8_eq hconv
    cases h
    refine ⟨⟨whole_delete rfl hpos (Word.toNat_ofNat (by omega)), trivial⟩, ?_⟩
    intro op hop
    rw [List.mem_singleton.mp hop]
    exact Operation.wellFormed_makeDelete _ _ _ _ _
  · cases h
    exact ⟨trivial, fun _ hop => absurd hop List.not_mem_nil⟩

theorem EditorWidget.whole_addedOp {utf8Pos : UInt32} {position charsAdded : ℕ} {ops : List (Operation UInt8)}
    (as bs : List Char) (hpos : utf8Pos.toNat = (Utf8.bytes as).length) (hadded : mid w.text position charsAdded = Utf16.encode ns)
    (h : w.addedOp qt utf8Pos position charsAdded = some ops) :
    ChainOk apply Whole (Utf8.bytes (as ++ bs)) ops ∧ AllWellFormed ops := by
  unfold addedOp at h
  split_ifs at h with hcount
  · obtain ⟨plain, hplain, h⟩ := Option.bind_eq_some_iff.mp h
    obtain ⟨rfl, -⟩ := toPlainText_eq hplain
    obtain ⟨added, hconv, h⟩ := Option.bind_eq_some_iff.mp h
    rw [hadded] at hconv
    obtain ⟨rfl, -⟩ := qt.toUtf8_eq hconv
    cases h
    refine ⟨⟨whole_insert rfl hpos rfl rfl, trivial⟩, ?_⟩
    intro op hop
    rw [List.mem_singleton.mp hop]
    exact Operation.wellFormed_makeInsert _ _ _ _
  · cases h
    exact ⟨trivial, fun _ hop => absurd hop List.not_mem_nil⟩

/-- **The operations of an edit** between characters are whole, each on what its predecessor leaves. -/
theorem EditorWidget.Shows.whole_ops {text : List UInt16} {position charsRemoved charsAdded : ℕ}
    {ops : List (Operation UInt8)} (h : w.Shows content)
    (hrep : Reported w.text text position charsRemoved charsAdded)
    (hstep : w.contentsChange qt text position charsRemoved charsAdded = some (w', ops)) :
    ChainOk apply Whole content ops ∧ AllWellFormed ops := by
  obtain ⟨cs, htext, rfl⟩ := h.shows
  obtain ⟨as, has⟩ := Utf16.valid_iff.mp hrep.before
  obtain ⟨ms, hms⟩ := Utf16.valid_iff.mp hrep.removed
  obtain ⟨ns, hns⟩ := Utf16.valid_iff.mp hrep.added
  obtain ⟨bs, hbs⟩ := Utf16.valid_iff.mp hrep.after
  have hold : w.text = Utf16.encode (as ++ ms ++ bs) := by
    rw [Utf16.encode_append, Utf16.encode_append, ← has, ← hms, ← hbs, mid, ← List.drop_drop, List.append_assoc,
      List.take_append_drop, List.take_append_drop]
  have hcs : cs = as ++ ms ++ bs := Utf16.encode_inj (htext.symm.trans hold)
  have hposition : position = (Utf16.encode as).length := by
    rw [← has, List.length_take, Nat.min_eq_left hrep.inside]
  unfold EditorWidget.contentsChange EditorWidget.onContentsChange at hstep
  rw [if_neg (by rw [h.idle]; decide)] at hstep
  obtain ⟨utf8Pos, hoffset, hstep⟩ := Option.bind_eq_some_iff.mp hstep
  obtain ⟨deletes, hdeletes, hstep⟩ := Option.bind_eq_some_iff.mp hstep
  obtain ⟨inserts, hinserts, hstep⟩ := Option.bind_eq_some_iff.mp hstep
  obtain ⟨plain, -, hstep⟩ := Option.bind_eq_some_iff.mp hstep
  cases hstep
  have hsize := h.fits
  have hbytes : (Utf8.bytes (as ++ ms ++ bs)).length < 2 ^ 32 := by
    have hunits := (Utf16.length_encode (as ++ ms ++ bs)).2
    rw [hold] at hsize
    omega
  have hpos : utf8Pos.toNat = (Utf8.bytes as).length := by
    rw [hold] at hsize
    rw [h.known, hposition, hold, List.append_assoc] at hoffset
    exact utf16ToUtf8Offset_append (by rwa [← List.append_assoc]) hoffset
  have hremoved : mid w.lastKnownText position charsRemoved = Utf16.encode ms := by rw [h.known]; exact hms
  -- the deletion applies to the old text, the insertion to what the deletion leaves
  obtain ⟨hdel, hdelwf⟩ := EditorWidget.whole_removedOp bs hpos hremoved hdeletes
  obtain ⟨hins, hinswf⟩ := EditorWidget.whole_addedOp as bs hpos hns hinserts
  rw [hcs]
  refine ⟨ChainOk.append.mpr ⟨hdel, ?_⟩, ?_⟩
  · rw [EditorWidget.acts_removedOp hpos hremoved hbytes hdeletes]
    exact hins
  · intro op hop
    rcases List.mem_append.mp hop with hd | hi
    · exact hdelwf op hd
    · exact hinswf op hi

/-- The text of a deletion plays no part in how it is shown. -/
theorem EditorWidget.applyRemoteOperation_text {op : Operation UInt8} (ht : op.type = .delete) (text : List UInt8) :
    w.applyRemoteOperation qt { op with text := text } = w.applyRemoteOperation qt op := by
  simp only [applyRemoteOperation, editDocument, Operation.isNoop, ht]

/-- **A whole remote operation** is shown as it is applied. -/
theorem EditorWidget.Shows.remote {op : Operation UInt8} (h : w.Shows content) (hop : WholeFrame content op)
    (hstep : w.applyRemoteOperation qt op = some w') : w'.Shows (apply content op) := by
  obtain ⟨⟨hrange, haligned⟩, hframe⟩ := hop
  cases ht : op.type with
  | insert =>
      have haligned' := haligned
      rw [op.toEdit_insert ht] at haligned
      refine h.applyRemoteOperation ⟨haligned'.inRange, ?_, hframe ht⟩ hstep
      simp only [OnCodePoints, ht]
      exact ⟨haligned.1.2.1, haligned.1.2.2, haligned.2⟩
  | delete =>
      have hdelete := haligned
      rw [op.toEdit_delete ht] at hdelete
      obtain ⟨hsize, hzero | ⟨hfirst, hlast⟩⟩ := hdelete
      · -- a deletion of nothing is not shown at all, wherever it points
        have hn : op.isNoop = true := by
          have hlen : op.length = 0 := UInt32.toNat_inj.mp hzero
          simp [Operation.isNoop, ht, hlen]
        unfold EditorWidget.applyRemoteOperation at hstep
        rw [if_pos hn] at hstep
        cases hstep
        rw [apply_noop hn]
        exact h
      · rw [← applyRemoteOperation_text ht []] at hstep
        have hkept : apply content { op with text := [] } = apply content op := by
          simp only [apply, Operation.isNoop, ht]
        rw [← hkept]
        refine h.applyRemoteOperation ⟨?_, ?_, Nat.zero_le _⟩ hstep
        · have hr := haligned.inRange
          rw [op.toEdit_delete ht] at hr
          have hedit : ({ op with text := [] } : Operation UInt8).toEdit =
              .del op.position.toNat op.length.toNat := Operation.toEdit_delete ht
          rw [hedit]
          exact hr
        · obtain ⟨xs, zs, ys, hd, hxs, hzs, hvx, hvz, hvy⟩ := hfirst.between pieces_valid hlast (Nat.le_add_right _ _)
          have hlen : op.length.toNat = zs.length := by omega
          simp only [OnCodePoints, ht]
          refine ⟨hfirst.2.1, ?_, hlast.2.2⟩
          rw [hd, ← hxs, hlen, List.append_assoc, List.drop_left, List.take_left]
          exact hvz

theorem EditorWidget.Shows.onEffects {effects : List (Effect UInt8)} (h : w.Shows content)
    (hops : ChainOk apply WholeFrame content (remoteOps effects))
    (hstep : EditorWindow.onEffects qt w effects = some w') :
    w'.Shows (acts apply content (remoteOps effects)) := by
  induction effects generalizing w content with
  | nil =>
      cases hstep
      exact h
  | cons effect effects ih =>
      cases effect with
      | remoteOperationApplied op =>
          obtain ⟨w₁, hone, hrest⟩ := Option.bind_eq_some_iff.mp hstep
          exact ih (h.remote hops.1 hone) hops.2 hrest
      | revisionChanged revision =>
          exact ih (w := { w with currentRevision := revision }) ⟨h.known, h.idle, h.fits, h.shows⟩ hops hstep
      | send msg => exact ih h hops hstep
      | stateChanged label => exact ih h hops hstep
      | fatalError message => exact ih h hops hstep

end Widget

/-- A condition on the operations alone. -/
theorem chain_of_forall {P : Operation UInt8 → Prop} {ops : List (Operation UInt8)} (h : ∀ op ∈ ops, P op) :
    ∀ {d : List UInt8}, ChainOk apply (fun _ op => P op) d ops := by
  induction ops with
  | nil => intro d; trivial
  | cons op ops ih =>
      intro d
      exact ⟨h op List.mem_cons_self, ih fun o ho => h o (List.mem_cons_of_mem op ho)⟩

/-! ## The machine -/

/-- The system, and the editor widget of each user's window. -/
structure Screens where
  system  : System UInt8
  editors : UInt32 → EditorWidget

namespace Screens

open CollabEditor.System (Carries Meets EditsMeet)

/-- One step of one party. -/
inductive Event where
  /-- The Qt document of a user's widget becomes `text`. -/
  | contentsChange (u : UInt32) (text : List UInt16) (position charsRemoved charsAdded : ℕ)
  | receive (u : UInt32)
  | share (u : UInt32) (msg : DocShareRequestMsg)
  | process
  | deliver (u : UInt32)
  | join (u : UInt32)
  | leave (u : UInt32)
  deriving DecidableEq

variable (qt : QtCodec)

/-- The widget of a new window: `setIdentity` and `resetContent`. -/
def opened (doc : Document UInt8) (u : UInt32) : Option EditorWidget := do
  let content ← fromStdString qt doc.content
  return { userId := u, currentRevision := doc.revision : EditorWidget }.resetContent content

/-- The parties other than the windows. -/
def offscreen (s : Screens) (e : System.Event UInt8) : Option Screens := do
  let system ← s.system.step e
  return { s with system := system }

def contentsChange (s : Screens) (u : UInt32) (text : List UInt16) (position charsRemoved charsAdded : ℕ) :
    Option Screens := do
  let (editor, ops) ← (s.editors u).contentsChange qt text position charsRemoved charsAdded
  let system ← s.system.step (.edit u ops)
  return { system := system, editors := Function.update s.editors u editor }

/-- The window's slots run on what the controller emits. -/
def deliver (s : Screens) (u : UInt32) : Option Screens := do
  let msg ← (s.system.down u).head?
  let (_, effects) ← (s.system.clients u).onNetworkMessage msg
  let editor ← EditorWindow.onEffects qt (s.editors u) effects
  let system ← s.system.step (.deliver u)
  return { system := system, editors := Function.update s.editors u editor }

def join (s : Screens) (u : UInt32) : Option Screens := do
  let editor ← opened qt s.system.session.doc u
  let system ← s.system.step (.join u)
  return { system := system, editors := Function.update s.editors u editor }

def step (s : Screens) : Event → Option Screens
  | .contentsChange u text position charsRemoved charsAdded =>
      s.contentsChange qt u text position charsRemoved charsAdded
  | .receive u   => s.offscreen (.receive u)
  | .share u msg => s.offscreen (.share u msg)
  | .process     => s.offscreen .process
  | .deliver u   => s.deliver qt u
  | .join u      => s.join qt u
  | .leave u     => s.offscreen (.leave u)

/-- The users have opened the document. -/
def start (doc : Document UInt8) (users : List UInt32) (username : UInt32 → String)
    (findUserId : String → Option UInt32) (access : AccessControl) : Option Screens := do
  let content ← fromStdString qt doc.content
  return {
    system := System.start doc users username findUserId access
    editors := fun u => { userId := u, currentRevision := doc.revision : EditorWidget }.resetContent content }

/-- Changes are as Qt reports them, and what is typed at once fits a frame, as does the document that somebody
    joins; the documents around a transform are below `2^31` bytes, and its arithmetic is exact. -/
def Expected (s : Screens) : Event → Prop
  | .contentsChange u text position charsRemoved charsAdded =>
      Reported (s.editors u).text text position charsRemoved charsAdded ∧
        ∀ p ∈ (s.editors u).contentsChange qt text position charsRemoved charsAdded, ∀ op ∈ p.2, FitsFrame op
  | .process   => (s.system.WithinBounds .process ∧ s.system.Sound .process) ∧ s.system.SmallTexts .process
  | .deliver u => s.system.WithinBounds (.deliver u) ∧ s.system.Sound (.deliver u)
  | .join _    => s.system.session.doc.content.length ≤ maxPayloadSize.toNat
  | .receive _ | .share _ _ | .leave _ => True

instance (s : Screens) : (e : Event) → Decidable (s.Expected qt e)
  | .contentsChange _ _ _ _ _ => inferInstanceAs (Decidable (Reported _ _ _ _ _ ∧ ∀ _ ∈ _, _))
  | .process => inferInstanceAs (Decidable ((_ ∧ _) ∧ System.SmallTexts _ _))
  | .deliver _ => inferInstanceAs (Decidable (_ ∧ _))
  | .join _ => inferInstanceAs (Decidable (_ ≤ _))
  | .receive _ | .share _ _ | .leave _ => isTrue trivial

/-! ## In sync -/

/-- Every user's screen shows the document of its client. -/
structure InSync (s : Screens) : Prop where
  follows : ∃ t, System.Follows WholeFrame s.system t
  server  : Utf8.Valid s.system.session.doc.content
  shows   : ∀ u ∈ s.system.users, (s.editors u).Shows (s.system.clients u).doc.content

variable {qt} {s s' : Screens} {system' : System UInt8} {u : UInt32}

/-- A new widget shows the server's document. -/
theorem opened_shows (qt : QtCodec) {doc : Document UInt8} (u : UInt32) {editor : EditorWidget}
    (hvalid : Utf8.Valid doc.content) (hframe : doc.content.length ≤ maxPayloadSize.toNat) (h : opened qt doc u = some editor) :
    editor.Shows doc.content := by
  obtain ⟨content, hcontent, h⟩ := Option.bind_eq_some_iff.mp h
  cases h
  obtain ⟨cs, hcs⟩ := Utf8.valid_iff_bytes.mp hvalid
  have hsize : doc.content.length < 2 ^ 24 + 1 := Nat.lt_succ_of_le hframe
  rw [hcs] at hcontent hsize
  have htext := fromStdString_eq (by omega) hcontent
  have hunits := (Utf16.length_encode cs).1
  refine ⟨rfl, rfl, ?_, cs, htext, hcs⟩
  show content.length < 2 ^ 30
  rw [htext]
  omega

/-- The windows take no part in a step of the other parties. -/
theorem InSync.offscreen (h : s.InSync) {e : System.Event UInt8} (hmeet : s.system.Meets WholeFrame e)
    (hs : s.system.step e = some system') (hserver : Utf8.Valid system'.session.doc.content)
    (hsame : ∀ w ∈ system'.users, w ∈ s.system.users ∧ system'.clients w = s.system.clients w) :
    InSync { s with system := system' } := by
  obtain ⟨t, hf⟩ := h.follows
  refine ⟨System.step_follows wholeFrame_kept hf hmeet hs, hserver, fun w hw => ?_⟩
  obtain ⟨hold, hclient⟩ := hsame w hw
  show (s.editors w).Shows (system'.clients w).doc.content
  rw [hclient]
  exact h.shows w hold

/-- **A user types.** -/
theorem InSync.contentsChange {text : List UInt16} {position charsRemoved charsAdded : ℕ} (h : s.InSync)
    (hexp : s.Expected qt (.contentsChange u text position charsRemoved charsAdded))
    (hs : s.step qt (.contentsChange u text position charsRemoved charsAdded) = some s') : s'.InSync := by
  obtain ⟨⟨editor, ops⟩, hchange, hs⟩ := Option.bind_eq_some_iff.mp hs
  obtain ⟨system', hstep, hs⟩ := Option.bind_eq_some_iff.mp hs
  cases hs
  obtain ⟨hrep, hfits⟩ := hexp
  obtain ⟨hu, hwf, hreact⟩ := System.edit_cases hstep
  have hshows := h.shows u hu
  obtain ⟨hwhole, -⟩ := hshows.whole_ops hrep hchange
  have hmeet : s.system.Meets WholeFrame (.edit u ops) := by
    refine ⟨⟨⟨?_, trivial⟩, trivial, trivial⟩, ?_⟩
    · exact hwhole.mono fun _ _ hop => hop.1
    · exact System.chain_and hwhole (chain_of_forall fun op hop => hfits _ hchange op hop)
  obtain ⟨t, hf⟩ := h.follows
  refine ⟨System.step_follows wholeFrame_kept hf hmeet hstep, ?_, fun w hw => ?_⟩
  · rw [hreact]
    exact h.server
  · subst hreact
    by_cases hwu : w = u
    · subst hwu
      simp only [System.react, Function.update_self]
      rw [content_onLocalOperations]
      exact hshows.contentsChange hrep hchange
    · simp only [System.react, Function.update_of_ne hwu]
      exact h.shows w hw

/-- **A message reaches a window.** -/
theorem InSync.deliver (h : s.InSync) (hexp : s.Expected qt (.deliver u)) (hs : s.step qt (.deliver u) = some s') :
    s'.InSync := by
  obtain ⟨msg, hhead, hs⟩ := Option.bind_eq_some_iff.mp hs
  obtain ⟨⟨c, effects⟩, hmsg, hs⟩ := Option.bind_eq_some_iff.mp hs
  obtain ⟨editor, hshown, hs⟩ := Option.bind_eq_some_iff.mp hs
  obtain ⟨system', hstep, hs⟩ := Option.bind_eq_some_iff.mp hs
  cases hs
  obtain ⟨t, hf⟩ := h.follows
  have hmeet : s.system.Meets WholeFrame (.deliver u) := ⟨hexp, trivial⟩
  have hfollows := System.step_follows wholeFrame_kept hf hmeet hstep
  obtain ⟨hu, msg', rest, c', effects', hd, hm, rfl⟩ := System.deliver_cases hstep
  rw [hd] at hhead
  cases hhead
  rw [hm] at hmsg
  cases hmsg
  obtain ⟨-, -, hchain⟩ := hf.carries.deliver wholeFrame_kept hf.refines hf.tracks hf.coherent hf.few
    (System.admissible_of hexp) hu hd hm
  refine ⟨hfollows, h.server, fun w hw => ?_⟩
  by_cases hwu : w = u
  · subst hwu
    simp only [System.react, Function.update_self]
    rw [content_onNetworkMessage hm]
    exact (h.shows w hu).onEffects hchain hshown
  · simp only [System.react, Function.update_of_ne hwu]
    exact h.shows w hw

/-- **A turn of the session thread** keeps the server's text valid. -/
theorem InSync.process (h : s.InSync) (hexp : s.Expected qt .process) (hs : s.step qt .process = some s') :
    s'.InSync := by
  obtain ⟨system', hstep, hs⟩ := Option.bind_eq_some_iff.mp hs
  cases hs
  obtain ⟨t, hf⟩ := h.follows
  have hmeet : s.system.Meets WholeFrame .process := ⟨hexp.1, trivial⟩
  obtain ⟨cmd, rest, hq, hsystem⟩ := System.process_cases hstep
  have hgen := hf.refines.genuine cmd (by rw [hq]; exact List.mem_cons_self)
  obtain ⟨-, hchain⟩ := hf.carries.process wholeFrame_kept hf.refines hf.tracks hexp.1.2.1
    (System.admissible_of hexp.1) hq
  refine h.offscreen hmeet hstep ?_ ?_
  · rw [hsystem]
    show Utf8.Valid ((s.system.session.setQueue rest).processCommand cmd).1.doc.content
    rw [System.content_process hgen.type]
    exact System.valid_acts_single h.server hexp.2 (System.length_stored_le _ _) (hchain.mono fun _ _ hop => hop.1)
  · rw [hsystem]
    exact fun w hw => ⟨hw, rfl⟩

/-- **Somebody joins**: a new window, opened on the server's content. -/
theorem InSync.join (h : s.InSync) (hexp : s.Expected qt (.join u)) (hs : s.step qt (.join u) = some s') :
    s'.InSync := by
  obtain ⟨editor, hopened, hs⟩ := Option.bind_eq_some_iff.mp hs
  obtain ⟨system', hstep, hs⟩ := Option.bind_eq_some_iff.mp hs
  cases hs
  obtain ⟨t, hf⟩ := h.follows
  have hmeet : s.system.Meets WholeFrame (.join u) := ⟨⟨⟨trivial, trivial⟩, trivial, trivial⟩, trivial⟩
  have hfollows := System.step_follows wholeFrame_kept hf hmeet hstep
  obtain ⟨-, rfl⟩ := System.join_cases hstep
  refine ⟨hfollows, h.server, fun w hw => ?_⟩
  by_cases hwu : w = u
  · subst hwu
    simp only [System.push, Function.update_self]
    exact opened_shows _ _ h.server hexp hopened
  · simp only [System.push, Function.update_of_ne hwu]
    exact h.shows w ((List.mem_cons.mp hw).resolve_left hwu)

/-- **Every step keeps the screens in sync.** -/
theorem step_inSync {e : Event} (h : s.InSync) (hexp : s.Expected qt e) (hs : s.step qt e = some s') :
    s'.InSync := by
  cases e with
  | contentsChange u text position charsRemoved charsAdded => exact h.contentsChange hexp hs
  | receive u =>
      obtain ⟨system', hstep, hs⟩ := Option.bind_eq_some_iff.mp hs
      cases hs
      have hmeet : s.system.Meets WholeFrame (.receive u) := ⟨⟨⟨trivial, trivial⟩, trivial, trivial⟩, trivial⟩
      refine h.offscreen hmeet hstep ?_ ?_
      all_goals obtain ⟨_, _, -, ⟨_, -, rfl⟩ | ⟨-, rfl⟩⟩ := System.receive_cases hstep
      · exact h.server
      · exact h.server
      · exact fun w hw => ⟨hw, rfl⟩
      · exact fun w hw => ⟨hw, rfl⟩
  | share u msg =>
      obtain ⟨system', hstep, hs⟩ := Option.bind_eq_some_iff.mp hs
      cases hs
      have hmeet : s.system.Meets WholeFrame (.share u msg) := ⟨⟨⟨trivial, trivial⟩, trivial, trivial⟩, trivial⟩
      refine h.offscreen hmeet hstep ?_ ?_
      all_goals obtain ⟨_, rfl⟩ | ⟨_, rfl⟩ := System.share_cases hstep
      · exact h.server
      · exact h.server
      · exact fun w hw => ⟨hw, rfl⟩
      · exact fun w hw => ⟨hw, rfl⟩
  | process => exact h.process hexp hs
  | deliver u => exact h.deliver hexp hs
  | join u => exact h.join hexp hs
  | leave u =>
      obtain ⟨system', hstep, hs⟩ := Option.bind_eq_some_iff.mp hs
      cases hs
      have hmeet : s.system.Meets WholeFrame (.leave u) := ⟨⟨⟨trivial, trivial⟩, trivial, trivial⟩, trivial⟩
      refine h.offscreen hmeet hstep ?_ ?_
      all_goals obtain ⟨-, -, rfl⟩ := System.leave_cases hstep
      · exact h.server
      · exact fun w hw => ⟨(List.mem_filter.mp hw).1, rfl⟩

/-- **Every screen shows the document of its client, and at rest the server's document.** In every run of editor
    windows, channels and session thread that starts from one document, with any interleaving of typing between
    characters, role changes, joins, leaves, processing and deliveries. -/
theorem screens_show_server {doc : Document UInt8} {users : List UInt32} {username : UInt32 → String}
    {findUserId : String → Option UInt32} {access : AccessControl} {s₀ : Screens} {es : List Event}
    (hw : doc.WindowExact) (hvalid : Utf8.Valid doc.content) (hframe : doc.content.length ≤ maxPayloadSize.toNat)
    (hstart : start qt doc users username findUserId access = some s₀)
    (hexp : Machine.Along (step qt) (Expected qt) s₀ es) (hr : Machine.run (step qt) s₀ es = some s) :
    (∀ u ∈ s.system.users, (s.editors u).Shows (s.system.clients u).doc.content) ∧
      (s.system.Quiet → ∀ u ∈ s.system.users, (s.system.clients u).state = .synchronized →
        (s.editors u).Shows s.system.session.doc.content) := by
  have hinit : s₀.InSync := by
    obtain ⟨content, hcontent, hstart⟩ := Option.bind_eq_some_iff.mp hstart
    cases hstart
    refine ⟨⟨_, System.start_follows hw users username findUserId access⟩, hvalid, fun u _ => ?_⟩
    refine opened_shows qt u hvalid hframe ?_
    unfold opened
    rw [hcontent]
    rfl
  have h := Machine.run_invariant (fun _ _ _ h hexp hs => step_inSync h hexp hs) hinit hexp hr
  refine ⟨h.shows, ?_⟩
  intro hquiet u hu hsync
  obtain ⟨t, hf⟩ := h.follows
  have hagrees := hf.refines.agrees hf.tracks hf.coherent hu (hquiet.2 u hu).2 hsync
  rw [← hagrees.1]
  exact h.shows u hu

/-- Two users have `hé😀` open. -/
def greeted : Option Screens :=
  start plainCodec ((Document.create 1 "t").setContent (Utf8.bytes ['h', 'é', '😀'])) [1, 2] (fun _ => "")
    (fun _ => none) (System.twoRights 1)

/-- User 1 replaces the `é` by `ñx` while user 2 removes the emoji. -/
def greetedRun : List Event :=
  [.contentsChange 1 (Utf16.encode ['h', 'ñ', 'x', '😀']) 1 1 2, .contentsChange 2 (Utf16.encode ['h', 'é']) 2 2 0,
    .receive 2, .process, .receive 1, .process, .deliver 1, .deliver 1, .receive 1, .process, .deliver 1,
    .deliver 2, .deliver 2, .deliver 2]

theorem screens_show_server_greeted :
    ∃ s₀ s, greeted = some s₀ ∧ Machine.run (step plainCodec) s₀ greetedRun = some s ∧
      (∀ u ∈ s.system.users, (s.editors u).Shows (s.system.clients u).doc.content) ∧
      (s.system.Quiet → ∀ u ∈ s.system.users, (s.system.clients u).state = .synchronized →
        (s.editors u).Shows s.system.session.doc.content) := by
  have hstart : greeted.isSome := by decide +kernel
  have hrun : (Machine.run (step plainCodec) (greeted.get hstart) greetedRun).isSome := by decide +kernel +revert
  have hexp : Machine.Along (step plainCodec) (Expected plainCodec) (greeted.get hstart) greetedRun := by
    clear hrun
    decide +kernel +revert
  have hinit : start plainCodec ((Document.create 1 "t").setContent (Utf8.bytes ['h', 'é', '😀'])) [1, 2] (fun _ => "")
      (fun _ => none) (System.twoRights 1) = some (greeted.get hstart) := (Option.some_get hstart).symm
  exact ⟨_, _, hinit, (Option.some_get hrun).symm, screens_show_server (by exact rfl) (by decide +kernel) (by decide +kernel)
    hinit hexp (Option.some_get hrun).symm⟩

end Screens

end CollabEditor
