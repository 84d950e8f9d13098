import CollabEditor.Core.TransformSpec
import CollabEditor.Lib.Utf16

/-!
# `Client.EditorWidget` — the text on the screen

`utf8_codec` and the slots of `EditorWidget` that change the text. The Qt document is the list of UTF-16 units
that `toPlainText` returns; an edit replaces a range of it and runs the slot `onContentsChange` with the range
and its new length. Qt's conversions are a parameter, `QtCodec`, of which only what they do with valid text is
known. A `QString` and a `QByteArray` are limited to just under 2 GB each, and a conversion that exceeds the
limit throws: the slot is then `none`. The text cursor, which `applyRemoteOperation` moves along afterwards, is
not modelled.

## Contents
- **Qt.** `QtCodec`, `left`, `mid`, `setPosition`.
- **The widget.** `onContentsChange`, `applyRemoteOperation`.
- **Offsets.** `utf16ToUtf8Offset_append`, `utf8ToUtf16Offset_append`.
- **Edits.** `applyRemoteOperation_insert`, `applyRemoteOperation_delete`, `acts_onContentsChange`.
-/

namespace CollabEditor

open Diamond

/-! ## Qt -/

/-- `QString::toUtf8` and `QString::fromUtf8`, and the limits of their results: just under 2 GB are fewer than
    `2^31` bytes, and fewer than `2^30` UTF-16 units. -/
structure QtCodec where
  maxBytes : ℕ
  maxUnits : ℕ
  toUtf8   : List UInt16 → Option (List UInt8)
  fromUtf8 : List UInt8 → Option (List UInt16)
  maxBytes_lt : maxBytes < 2 ^ 31
  maxUnits_lt : maxUnits < 2 ^ 30
  toUtf8_encode : ∀ cs, toUtf8 (Utf16.encode cs) =
    if (Utf8.bytes cs).length ≤ maxBytes then some (Utf8.bytes cs) else none
  fromUtf8_bytes : ∀ cs, fromUtf8 (Utf8.bytes cs) =
    if (Utf16.encode cs).length ≤ maxUnits then some (Utf16.encode cs) else none

/-- `QByteArray::left`: nothing for a negative length. -/
def left (bytes : List UInt8) (len : Int32) : List UInt8 := bytes.take len.toInt.toNat

/-- `QString::mid`. -/
def mid (text : List UInt16) (position n : ℕ) : List UInt16 := (text.drop position).take n

/-- `QTextCursor::setPosition`: a position that the document does not have is ignored. -/
def setPosition (text : List UInt16) (old : ℕ) (pos : Int32) : ℕ :=
  if 0 ≤ pos ∧ pos.toInt ≤ text.length then pos.toInt.toNat else old

section Codec

variable (qt : QtCodec)

/-- `QPlainTextEdit::toPlainText`. -/
def toPlainText (text : List UInt16) : Option (List UInt16) :=
  if text.length ≤ qt.maxUnits then some text else none

/-- `utf16_to_utf8_offset`. -/
def utf16ToUtf8Offset (text : List UInt16) (utf16Offset : Int32) : Option UInt32 :=
  if utf16Offset ≤ 0 then some 0
  else if text.length ≤ utf16Offset.toInt then
    return UInt32.ofNat (← qt.toUtf8 text).length
  else
    return UInt32.ofNat (← qt.toUtf8 (text.take utf16Offset.toInt.toNat)).length

/-- `utf8_to_utf16_offset`; the length that `left` is given is cast to an `int`. -/
def utf8ToUtf16Offset (utf8Text : List UInt8) (utf8Offset : UInt32) : Option Int32 :=
  if utf8Offset = 0 then some 0
  else if UInt32.ofNat utf8Text.length ≤ utf8Offset then
    return Int32.ofNat (← qt.fromUtf8 utf8Text).length
  else
    return Int32.ofNat (← qt.fromUtf8 (left utf8Text utf8Offset.toInt32)).length

/-- `QString::fromUtf8(text.data(), static_cast<int>(text.size()))`. -/
def fromStdString (text : List UInt8) : Option (List UInt16) :=
  qt.fromUtf8 (left text (Int32.ofNat text.length))

end Codec

/-! ## The widget -/

/-- `collab_client::EditorWidget`, with the text of its document. -/
structure EditorWidget where
  text            : List UInt16 := []
  lastKnownText   : List UInt16 := []
  applyingRemote  : Bool := false
  userId          : UInt32 := 0
  currentRevision : UInt32 := 0
  deriving DecidableEq

namespace EditorWidget

variable (qt : QtCodec)

/-- The delete that `onContentsChange` builds. -/
def removedOp (w : EditorWidget) (utf8Pos : UInt32) (position charsRemoved : ℕ) :
    Option (List (Operation UInt8)) :=
  if 0 < charsRemoved then do
    let removed ← qt.toUtf8 (mid w.lastKnownText position charsRemoved)
    return [makeDelete utf8Pos (UInt32.ofNat removed.length) removed w.userId w.currentRevision]
  else some []

/-- The insert that `onContentsChange` builds. -/
def addedOp (w : EditorWidget) (utf8Pos : UInt32) (position charsAdded : ℕ) :
    Option (List (Operation UInt8)) :=
  if 0 < charsAdded then do
    let plain ← toPlainText qt w.text
    let added ← qt.toUtf8 (mid plain position charsAdded)
    return [makeInsert utf8Pos added w.userId w.currentRevision]
  else some []

/-- `onContentsChange`, with the operations of `localOperationsGenerated`. -/
def onContentsChange (w : EditorWidget) (position charsRemoved charsAdded : ℕ) :
    Option (EditorWidget × List (Operation UInt8)) :=
  if w.applyingRemote then do
    let plain ← toPlainText qt w.text
    return ({ w with lastKnownText := plain }, [])
  else do
    let utf8Pos ← utf16ToUtf8Offset qt w.lastKnownText (Int32.ofNat position)
    let deletes ← w.removedOp qt utf8Pos position charsRemoved
    let inserts ← w.addedOp qt utf8Pos position charsAdded
    let plain ← toPlainText qt w.text
    return ({ w with lastKnownText := plain }, deletes ++ inserts)

/-- The document's text becomes `text`, and its signal `contentsChange` is emitted. -/
def contentsChange (w : EditorWidget) (text : List UInt16) (position charsRemoved charsAdded : ℕ) :
    Option (EditorWidget × List (Operation UInt8)) :=
  { w with text := text }.onContentsChange qt position charsRemoved charsAdded

/-- The edit of `applyRemoteOperation`: `insertText`, or `removeSelectedText` between two positions. -/
def editDocument (w : EditorWidget) (utf8Before : List UInt8) (op : Operation UInt8) :
    Option (EditorWidget × List (Operation UInt8)) := do
  let utf16Pos ← utf8ToUtf16Offset qt utf8Before op.position
  let pos := setPosition w.text 0 utf16Pos
  match op.type with
  | .insert =>
      let inserted ← fromStdString qt op.text
      w.contentsChange qt (w.text.take pos ++ inserted ++ w.text.drop pos) pos 0 inserted.length
  | .delete =>
      let utf16End ← utf8ToUtf16Offset qt utf8Before (op.position + op.length)
      let last := setPosition w.text pos utf16End
      w.contentsChange qt (w.text.take (min pos last) ++ w.text.drop (max pos last)) (min pos last)
        (max pos last - min pos last) 0

/-- `applyRemoteOperation`; the text is converted before the edit for the positions of the operation, and
    after it for those of the text cursor. -/
def applyRemoteOperation (w : EditorWidget) (op : Operation UInt8) : Option EditorWidget :=
  if op.isNoop then some w
  else do
    let utf8Before ← qt.toUtf8 w.lastKnownText
    let (w, _) ← { w with applyingRemote := true }.editDocument qt utf8Before op
    let plain ← toPlainText qt w.text
    let _utf8After ← qt.toUtf8 plain
    return { w with lastKnownText := plain, applyingRemote := false }

end EditorWidget

/-! ## Offsets -/

section Offsets

variable {qt : QtCodec} {as bs cs : List Char}

theorem QtCodec.toUtf8_eq {b : List UInt8} (h : qt.toUtf8 (Utf16.encode cs) = some b) :
    b = Utf8.bytes cs ∧ b.length < 2 ^ 31 := by
  have hmax := qt.maxBytes_lt
  rw [qt.toUtf8_encode] at h
  split_ifs at h with hfits
  cases h
  exact ⟨rfl, by omega⟩

theorem QtCodec.fromUtf8_eq {u : List UInt16} (h : qt.fromUtf8 (Utf8.bytes cs) = some u) :
    u = Utf16.encode cs := by
  rw [qt.fromUtf8_bytes] at h
  split_ifs at h
  cases h
  rfl

theorem toPlainText_eq {text u : List UInt16} (h : toPlainText qt text = some u) :
    u = text ∧ text.length < 2 ^ 30 := by
  have hmax := qt.maxUnits_lt
  unfold toPlainText at h
  split_ifs at h with hfits
  cases h
  exact ⟨rfl, by omega⟩

/-- Below `2^31` an `int` is the number it is made of. -/
theorem toInt_ofNat {n : ℕ} (h : n < 2 ^ 31) : (Int32.ofNat n).toInt = n := Int32.toInt_ofNat_of_lt h

theorem left_append {xs ys : List UInt8} {len : Int32} (h : len.toInt = xs.length) :
    left (xs ++ ys) len = xs := by
  unfold left
  rw [h, Int.toNat_natCast, List.take_left]

/-- **From units to bytes.** The offset after the units of a prefix is the offset after its bytes. -/
theorem utf16ToUtf8Offset_append {offset : UInt32} (hsize : (Utf16.encode (as ++ bs)).length < 2 ^ 30)
    (h : utf16ToUtf8Offset qt (Utf16.encode (as ++ bs)) (Int32.ofNat (Utf16.encode as).length) = some offset) :
    offset.toNat = (Utf8.bytes as).length := by
  rw [Utf16.encode_append, List.length_append] at hsize
  have hint : (Int32.ofNat (Utf16.encode as).length).toInt = (Utf16.encode as).length := toInt_ofNat (by omega)
  have hconv : ∀ {b}, qt.toUtf8 (Utf16.encode as) = some b →
      (UInt32.ofNat b.length).toNat = (Utf8.bytes as).length := by
    intro b hb
    obtain ⟨rfl, hlt⟩ := qt.toUtf8_eq hb
    exact Word.toNat_ofNat (by omega)
  unfold utf16ToUtf8Offset at h
  simp only [Int32.le_iff_toInt_le, hint, Int32.toInt_zero, Utf16.encode_append, List.length_append,
    Int.toNat_natCast, List.take_left] at h
  split_ifs at h with hzero hend
  · -- nothing before the offset
    have hnil : as = [] := Utf16.encode_eq_nil.mp (List.length_eq_zero_iff.mp (by omega))
    cases h
    rw [hnil]
    rfl
  · -- nothing after it
    have hnil : bs = [] := Utf16.encode_eq_nil.mp (List.length_eq_zero_iff.mp (by omega))
    rw [hnil, Utf16.encode_nil, List.append_nil] at h
    obtain ⟨b, hb, hoffset⟩ := Option.bind_eq_some_iff.mp h
    cases hoffset
    exact hconv hb
  · obtain ⟨b, hb, hoffset⟩ := Option.bind_eq_some_iff.mp h
    cases hoffset
    exact hconv hb

/-- **From bytes to units.** -/
theorem utf8ToUtf16Offset_append {offset : UInt32} {pos : Int32}
    (hsize : (Utf8.bytes (as ++ bs)).length < 2 ^ 31) (hoffset : offset.toNat = (Utf8.bytes as).length)
    (h : utf8ToUtf16Offset qt (Utf8.bytes (as ++ bs)) offset = some pos) :
    pos = Int32.ofNat (Utf16.encode as).length := by
  rw [Utf8.bytes_append, List.length_append] at hsize
  unfold utf8ToUtf16Offset at h
  simp only [Utf8.bytes_append, List.length_append] at h
  split_ifs at h with hzero hend
  · rw [hzero, UInt32.toNat_zero] at hoffset
    cases h
    rw [Utf8.bytes_eq_nil.mp (List.length_eq_zero_iff.mp hoffset.symm)]
    rfl
  · rw [UInt32.le_iff_toNat_le, hoffset, Word.toNat_ofNat (by omega)] at hend
    have hnil : bs = [] := Utf8.bytes_eq_nil.mp (List.length_eq_zero_iff.mp (by omega))
    rw [hnil, Utf8.bytes_nil, List.append_nil] at h
    obtain ⟨u, hu, hpos⟩ := Option.bind_eq_some_iff.mp h
    cases hpos
    rw [qt.fromUtf8_eq hu]
  · have hint : offset.toInt32.toInt = (Utf8.bytes as).length := by
      rw [Word.toInt_toInt32 (by rw [hoffset]; omega), hoffset]
    rw [left_append hint] at h
    obtain ⟨u, hu, hpos⟩ := Option.bind_eq_some_iff.mp h
    cases hpos
    rw [qt.fromUtf8_eq hu]

theorem setPosition_ofNat {text : List UInt16} {old n : ℕ} (hn : n ≤ text.length) (hsize : text.length < 2 ^ 31) :
    setPosition text old (Int32.ofNat n) = n := by
  have hint : (Int32.ofNat n).toInt = n := toInt_ofNat (by omega)
  unfold setPosition
  rw [if_pos ⟨by rw [Int32.le_iff_toInt_le, hint, Int32.toInt_zero]; omega, by rw [hint]; omega⟩, hint]
  rfl

theorem fromStdString_eq {u : List UInt16} (hsize : (Utf8.bytes as).length < 2 ^ 31)
    (h : fromStdString qt (Utf8.bytes as) = some u) : u = Utf16.encode as := by
  unfold fromStdString at h
  rw [← List.append_nil (Utf8.bytes as), left_append (by rw [List.append_nil]; exact toInt_ofNat hsize)] at h
  exact qt.fromUtf8_eq h

end Offsets

/-! ## Edits -/

section Edits

variable {qt : QtCodec} {as ms ns bs : List Char} {op : Operation UInt8}

/-- An insertion between two parts of the document. -/
theorem apply_between_insert {xs ys : List UInt8} (ht : op.type = .insert) (hpos : op.position.toNat = xs.length)
    (hsize : (xs ++ ys).length < 2 ^ 32) : apply (xs ++ ys) op = xs ++ op.text ++ ys := by
  by_cases hn : op.text = []
  · simp [apply, Operation.isNoop, ht, hn]
  · have hclamp : (min op.position (UInt32.ofNat (xs ++ ys).length)).toNat = xs.length := by
      rw [Word.toNat_min, Word.toNat_ofNat hsize, hpos, List.length_append]
      omega
    simp only [apply, Operation.isNoop, ht, List.isEmpty_iff, hn, if_false, hclamp, List.take_left, List.drop_left]

/-- A deletion of the middle part of the document. -/
theorem apply_between_delete {xs zs ys : List UInt8} (ht : op.type = .delete)
    (hpos : op.position.toNat = xs.length) (hlen : op.length.toNat = zs.length)
    (hsize : (xs ++ zs ++ ys).length < 2 ^ 32) : apply (xs ++ zs ++ ys) op = xs ++ ys := by
  by_cases hn : op.length = 0
  · rw [hn] at hlen
    have hnil : zs = [] := List.length_eq_zero_iff.mp hlen.symm
    simp [apply, Operation.isNoop, ht, hn, hnil]
  · have hsize' := hsize
    rw [List.length_append, List.length_append] at hsize'
    have hclamp : (min op.position (UInt32.ofNat (xs ++ zs ++ ys).length)).toNat = xs.length := by
      rw [Word.toNat_min, Word.toNat_ofNat hsize, hpos, List.length_append, List.length_append]
      omega
    have hrest : (min op.length (UInt32.ofNat ((xs ++ zs ++ ys).length - xs.length))).toNat = zs.length := by
      rw [Word.toNat_min, Word.toNat_ofNat (by omega), hlen, List.length_append, List.length_append]
      omega
    have htake : (xs ++ zs ++ ys).take xs.length = xs := by rw [List.append_assoc, List.take_left]
    have hdrop : (xs ++ zs ++ ys).drop (xs.length + zs.length) = ys := by
      rw [← List.length_append, List.drop_left]
    have hnoop : op.isNoop = false := by simp [Operation.isNoop, ht, hn]
    unfold apply
    simp only [hnoop, ht, hclamp, hrest, htake, hdrop]
    rfl

namespace EditorWidget

variable {w w' : EditorWidget}

/-- While a remote operation is applied, a change of the document is only noted. -/
theorem contentsChange_applying {text : List UInt16} {position charsRemoved charsAdded : ℕ}
    {ops : List (Operation UInt8)} (hr : w.applyingRemote = true)
    (h : w.contentsChange qt text position charsRemoved charsAdded = some (w', ops)) :
    w' = { w with text := text, lastKnownText := text } := by
  unfold contentsChange onContentsChange at h
  rw [if_pos hr] at h
  obtain ⟨u, hu, hw⟩ := Option.bind_eq_some_iff.mp h
  obtain ⟨rfl, -⟩ := toPlainText_eq hu
  cases hw
  rfl

theorem acts_removedOp {utf8Pos : UInt32} {position charsRemoved : ℕ} {ops : List (Operation UInt8)}
    (hpos : utf8Pos.toNat = (Utf8.bytes as).length)
    (hremoved : mid w.lastKnownText position charsRemoved = Utf16.encode ms)
    (hsize : (Utf8.bytes (as ++ ms ++ bs)).length < 2 ^ 32)
    (h : w.removedOp qt utf8Pos position charsRemoved = some ops) :
    acts apply (Utf8.bytes (as ++ ms ++ bs)) ops = Utf8.bytes (as ++ bs) := by
  unfold removedOp at h
  split_ifs at h with hcount
  · obtain ⟨removed, hconv, h⟩ := Option.bind_eq_some_iff.mp h
    rw [hremoved] at hconv
    obtain ⟨rfl, hlt⟩ := qt.toUtf8_eq hconv
    cases h
    simp only [Utf8.bytes_append] at hsize ⊢
    exact apply_between_delete rfl hpos (Word.toNat_ofNat (by omega)) hsize
  · cases h
    have hnil : ms = [] := by
      rw [Nat.eq_zero_of_not_pos hcount] at hremoved
      exact Utf16.encode_eq_nil.mp hremoved.symm
    rw [hnil, List.append_nil]
    rfl

theorem acts_addedOp {utf8Pos : UInt32} {position charsAdded : ℕ} {ops : List (Operation UInt8)}
    (hpos : utf8Pos.toNat = (Utf8.bytes as).length)
    (hadded : mid w.text position charsAdded = Utf16.encode ns)
    (hsize : (Utf8.bytes (as ++ bs)).length < 2 ^ 32)
    (h : w.addedOp qt utf8Pos position charsAdded = some ops) :
    acts apply (Utf8.bytes (as ++ bs)) ops = Utf8.bytes (as ++ ns ++ bs) := by
  unfold addedOp at h
  split_ifs at h with hcount
  · obtain ⟨plain, hplain, h⟩ := Option.bind_eq_some_iff.mp h
    obtain ⟨rfl, -⟩ := toPlainText_eq hplain
    obtain ⟨added, hconv, h⟩ := Option.bind_eq_some_iff.mp h
    rw [hadded] at hconv
    obtain ⟨rfl, -⟩ := qt.toUtf8_eq hconv
    cases h
    simp only [Utf8.bytes_append] at hsize ⊢
    exact apply_between_insert rfl hpos hsize
  · cases h
    have hnil : ns = [] := by
      rw [Nat.eq_zero_of_not_pos hcount] at hadded
      exact Utf16.encode_eq_nil.mp hadded.symm
    rw [hnil, List.append_nil]
    rfl

/-- Whatever `onContentsChange` does, the document has the text it has been given. -/
theorem text_contentsChange {text : List UInt16} {position charsRemoved charsAdded : ℕ}
    {ops : List (Operation UInt8)}
    (h : w.contentsChange qt text position charsRemoved charsAdded = some (w', ops)) : w'.text = text := by
  unfold contentsChange onContentsChange at h
  split_ifs at h
  · obtain ⟨plain, _, h⟩ := Option.bind_eq_some_iff.mp h
    cases h
    rfl
  · obtain ⟨utf8Pos, _, h⟩ := Option.bind_eq_some_iff.mp h
    obtain ⟨deletes, _, h⟩ := Option.bind_eq_some_iff.mp h
    obtain ⟨inserts, _, h⟩ := Option.bind_eq_some_iff.mp h
    obtain ⟨plain, _, h⟩ := Option.bind_eq_some_iff.mp h
    cases h
    rfl

/-- **A local edit.** The operations for the replacement of `ms` by `ns`, applied in order to the bytes of the
    old text, give the bytes of the new one. -/
theorem acts_onContentsChange {position charsRemoved charsAdded : ℕ} {ops : List (Operation UInt8)}
    (hr : w.applyingRemote = false) (hold : w.lastKnownText = Utf16.encode (as ++ ms ++ bs))
    (hsize : w.lastKnownText.length < 2 ^ 30) (hposition : position = (Utf16.encode as).length)
    (hremoved : mid w.lastKnownText position charsRemoved = Utf16.encode ms)
    (hadded : mid w.text position charsAdded = Utf16.encode ns)
    (h : w.onContentsChange qt position charsRemoved charsAdded = some (w', ops)) :
    w' = { w with lastKnownText := w.text } ∧ w.text.length < 2 ^ 30 ∧
      acts apply (Utf8.bytes (as ++ ms ++ bs)) ops = Utf8.bytes (as ++ ns ++ bs) := by
  unfold onContentsChange at h
  rw [if_neg (by rw [hr]; decide)] at h
  obtain ⟨utf8Pos, hoffset, h⟩ := Option.bind_eq_some_iff.mp h
  obtain ⟨deletes, hdeletes, h⟩ := Option.bind_eq_some_iff.mp h
  obtain ⟨inserts, hinserts, h⟩ := Option.bind_eq_some_iff.mp h
  obtain ⟨text, htext, h⟩ := Option.bind_eq_some_iff.mp h
  obtain ⟨rfl, hsize'⟩ := toPlainText_eq htext
  cases h
  refine ⟨rfl, hsize', ?_⟩
  rw [hold] at hsize hoffset
  rw [hposition, List.append_assoc] at hoffset
  have hpos := utf16ToUtf8Offset_append (by rwa [← List.append_assoc]) hoffset
  -- a text that fits a `QString` has fewer than `2^32` bytes
  have hbytes : (Utf8.bytes (as ++ ms ++ bs)).length < 2 ^ 32 := by
    have := (Utf16.length_encode (as ++ ms ++ bs)).2
    omega
  have hrest : (Utf8.bytes (as ++ bs)).length < 2 ^ 32 := by
    simp only [Utf8.bytes_append, List.length_append] at hbytes ⊢
    omega
  rw [acts_append, acts_removedOp hpos hremoved hbytes hdeletes, acts_addedOp hpos hadded hrest hinserts]

/-- What a remote operation leaves of the widget. -/
theorem applyRemoteOperation_editDocument (hn : op.isNoop = false)
    (h : w.applyRemoteOperation qt op = some w') :
    ∃ utf8Before text, qt.toUtf8 w.lastKnownText = some utf8Before ∧ text.length < 2 ^ 30 ∧
      (∃ ops, { w with applyingRemote := true }.editDocument qt utf8Before op =
        some ({ w with applyingRemote := true, text := text, lastKnownText := text }, ops)) ∧
      w' = { w with text := text, lastKnownText := text, applyingRemote := false } := by
  unfold applyRemoteOperation at h
  rw [if_neg (by rw [hn]; decide)] at h
  obtain ⟨utf8Before, hbefore, h⟩ := Option.bind_eq_some_iff.mp h
  obtain ⟨⟨edited, ops⟩, hedit, h⟩ := Option.bind_eq_some_iff.mp h
  obtain ⟨plain, hplain, h⟩ := Option.bind_eq_some_iff.mp h
  obtain ⟨after, -, h⟩ := Option.bind_eq_some_iff.mp h
  obtain ⟨rfl, hsize⟩ := toPlainText_eq hplain
  have hedited : ∃ text, edited = { w with applyingRemote := true, text := text, lastKnownText := text } := by
    unfold editDocument at hedit
    obtain ⟨utf16Pos, -, hedit⟩ := Option.bind_eq_some_iff.mp hedit
    cases ht : op.type with
    | insert =>
        rw [ht] at hedit
        obtain ⟨inserted, -, hedit⟩ := Option.bind_eq_some_iff.mp hedit
        exact ⟨_, contentsChange_applying rfl hedit⟩
    | delete =>
        rw [ht] at hedit
        obtain ⟨utf16End, -, hedit⟩ := Option.bind_eq_some_iff.mp hedit
        exact ⟨_, contentsChange_applying rfl hedit⟩
  obtain ⟨text, rfl⟩ := hedited
  cases h
  exact ⟨utf8Before, text, hbefore, hsize, ⟨ops, hedit⟩, rfl⟩

/-- **A remote insertion** puts its characters between those that its position parts. -/
theorem applyRemoteOperation_insert (hknown : w.lastKnownText = w.text) (htext : w.text = Utf16.encode (as ++ bs))
    (ht : op.type = .insert) (hpos : op.position.toNat = (Utf8.bytes as).length) (hop : op.text = Utf8.bytes ns)
    (hsize : op.text.length < 2 ^ 31) (hn : op.isNoop = false) (h : w.applyRemoteOperation qt op = some w') :
    ∃ text, text = Utf16.encode (as ++ ns ++ bs) ∧ text.length < 2 ^ 30 ∧
      w' = { w with text := text, lastKnownText := text, applyingRemote := false } := by
  obtain ⟨utf8Before, text, hbefore, hlen, ⟨ops, hedit⟩, hw⟩ := applyRemoteOperation_editDocument hn h
  refine ⟨text, ?_, hlen, hw⟩
  rw [hknown, htext] at hbefore
  obtain ⟨rfl, hbytes⟩ := qt.toUtf8_eq hbefore
  unfold editDocument at hedit
  obtain ⟨utf16Pos, hutf16, hedit⟩ := Option.bind_eq_some_iff.mp hedit
  rw [ht] at hedit
  obtain ⟨inserted, hinserted, hedit⟩ := Option.bind_eq_some_iff.mp hedit
  have hunits := (Utf16.length_encode (as ++ bs)).1
  have hprefix : setPosition w.text 0 utf16Pos = (Utf16.encode as).length := by
    rw [utf8ToUtf16Offset_append hbytes hpos hutf16, htext]
    refine setPosition_ofNat ?_ (by omega)
    rw [Utf16.encode_append, List.length_append]
    omega
  rw [hop] at hinserted hsize
  have hspliced := congrArg EditorWidget.text (contentsChange_applying rfl hedit)
  dsimp only at hspliced
  rw [hspliced, hprefix, fromStdString_eq hsize hinserted, htext]
  simp only [Utf16.encode_append, List.take_left, List.drop_left]

/-- **A remote deletion** removes the characters between its two ends. -/
theorem applyRemoteOperation_delete (hknown : w.lastKnownText = w.text)
    (htext : w.text = Utf16.encode (as ++ ms ++ bs)) (ht : op.type = .delete)
    (hpos : op.position.toNat = (Utf8.bytes as).length) (hop : op.length.toNat = (Utf8.bytes ms).length)
    (hn : op.isNoop = false) (h : w.applyRemoteOperation qt op = some w') :
    ∃ text, text = Utf16.encode (as ++ bs) ∧ text.length < 2 ^ 30 ∧
      w' = { w with text := text, lastKnownText := text, applyingRemote := false } := by
  obtain ⟨utf8Before, text, hbefore, hlen, ⟨ops, hedit⟩, hw⟩ := applyRemoteOperation_editDocument hn h
  refine ⟨text, ?_, hlen, hw⟩
  rw [hknown, htext] at hbefore
  obtain ⟨rfl, hbytes⟩ := qt.toUtf8_eq hbefore
  unfold editDocument at hedit
  obtain ⟨utf16Pos, hutf16, hedit⟩ := Option.bind_eq_some_iff.mp hedit
  rw [ht] at hedit
  obtain ⟨utf16End, hend, hedit⟩ := Option.bind_eq_some_iff.mp hedit
  have hunits := (Utf16.length_encode (as ++ ms ++ bs)).1
  have hparts : (Utf16.encode (as ++ ms ++ bs)).length =
      (Utf16.encode as).length + (Utf16.encode ms).length + (Utf16.encode bs).length := by
    simp only [Utf16.encode_append, List.length_append]
  have hprefix : setPosition w.text 0 utf16Pos = (Utf16.encode as).length := by
    rw [List.append_assoc] at hutf16
    rw [utf8ToUtf16Offset_append (by rwa [← List.append_assoc]) hpos hutf16, htext]
    exact setPosition_ofNat (by omega) (by omega)
  have hfinish : setPosition w.text (Utf16.encode as).length utf16End = (Utf16.encode (as ++ ms)).length := by
    have hsum : (op.position + op.length).toNat = (Utf8.bytes (as ++ ms)).length := by
      simp only [Utf8.bytes_append, List.length_append] at hbytes ⊢
      rw [Word.toNat_add (by omega)]
      omega
    rw [utf8ToUtf16Offset_append hbytes hsum hend, htext]
    refine setPosition_ofNat ?_ (by omega)
    rw [Utf16.encode_append, List.length_append]
    omega
  have horder : (Utf16.encode as).length ≤ (Utf16.encode (as ++ ms)).length := by
    rw [Utf16.encode_append, List.length_append]
    omega
  have hspliced := congrArg EditorWidget.text (contentsChange_applying rfl hedit)
  dsimp only at hspliced
  rw [hspliced, hprefix, hfinish, Nat.min_eq_left horder, Nat.max_eq_right horder, htext, Utf16.encode_append,
    List.drop_left, Utf16.encode_append as ms, List.append_assoc, List.take_left, Utf16.encode_append]

end EditorWidget

end Edits

end CollabEditor
