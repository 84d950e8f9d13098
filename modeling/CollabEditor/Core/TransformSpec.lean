import CollabEditor.Core.Transform
import CollabEditor.Lib.Edit
import CollabEditor.Lib.Diamond

/-!
# `Core.TransformSpec` — `transform` refines the rebasing of list edits

`Operation.toEdit` reads an operation as an `Edit` with natural-number positions. On operations in range
of a document below `2^31` bytes, `apply` is `Edit.act` and `transform` is `Edit.rebase`, up to one
defect: `transform_delete_delete` subtracts the length of a disjoint deletion from the position of the
other one, and when that other deletion is *empty and strictly inside* the first, the subtraction wraps
below zero. `Underflows` names exactly that branch.

## Contents
- **Range.** `InRange d op`, `Operation.toEdit`, `apply_eq_act`.
- **Refinement.** `transform_refines`: `transform` computes `Edit.rebase` where nothing underflows.
- **Closure.** `transform_inRange`.
- **Convergence (TP1).** `transform_converges`, also on operations that underflow.
- **Laws.** `transform_laws`: the transform is an instance of `Lib.Diamond`.
-/

namespace CollabEditor

variable {α : Type}

/-- An operation read as an edit with unbounded positions. -/
def Operation.toEdit (op : Operation α) : Edit α :=
  match op.type with
  | .insert => .ins op.position.toNat op.text op.userId.toNat
  | .delete => .del op.position.toNat op.length.toNat

/-- The operation is in range of the document: an insertion of its own text at a position the document
    has, or a deletion of a range it has (`position + length` does not wrap). -/
def InRange (d : List α) (op : Operation α) : Prop :=
  op.WellFormed ∧ op.toEdit.InRange d

instance (d : List α) (op : Operation α) : Decidable (InRange d op) :=
  inferInstanceAs (Decidable (_ ∧ _))

/-- The subtraction `a.position - b.length` that `transform_delete_delete` makes for a deletion `a`
    right of a disjoint deletion `b` wraps below zero. -/
def Underflows (a b : Operation α) : Prop :=
  a.type = .delete ∧ b.type = .delete ∧ deleteOverlap a b = 0 ∧
    b.position < a.position ∧ a.position < b.length

instance (a b : Operation α) : Decidable (Underflows a b) :=
  inferInstanceAs (Decidable (_ ∧ _))

theorem Operation.toEdit_insert {op : Operation α} (h : op.type = .insert) :
    op.toEdit = .ins op.position.toNat op.text op.userId.toNat := by
  simp [Operation.toEdit, h]

theorem Operation.toEdit_delete {op : Operation α} (h : op.type = .delete) :
    op.toEdit = .del op.position.toNat op.length.toNat := by
  simp [Operation.toEdit, h]

theorem InRange.insert {d : List α} {op : Operation α} (h : InRange d op) (ht : op.type = .insert) :
    op.position.toNat ≤ d.length ∧ op.length = UInt32.ofNat op.text.length := by
  obtain ⟨hwf, hr⟩ := h
  rw [op.toEdit_insert ht] at hr
  exact ⟨hr, hwf ht⟩

theorem InRange.delete {d : List α} {op : Operation α} (h : InRange d op) (ht : op.type = .delete) :
    op.position.toNat + op.length.toNat ≤ d.length := by
  have hr := h.2
  rwa [op.toEdit_delete ht] at hr

theorem inRange_insert {d : List α} {op : Operation α} (ht : op.type = .insert) :
    InRange d op ↔ op.position.toNat ≤ d.length ∧ op.length = UInt32.ofNat op.text.length := by
  refine ⟨fun h => h.insert ht, fun h => ⟨fun _ => h.2, ?_⟩⟩
  rw [op.toEdit_insert ht]
  exact h.1

theorem inRange_delete {d : List α} {op : Operation α} (ht : op.type = .delete) :
    InRange d op ↔ op.position.toNat + op.length.toNat ≤ d.length := by
  refine ⟨fun h => h.delete ht, fun h => ⟨fun hc => absurd (ht.symm.trans hc) (by decide), ?_⟩⟩
  rw [op.toEdit_delete ht]
  exact h

/-! ## `apply` is `act` -/

/-- In range, nothing is clamped: `apply` is the edit's action. -/
theorem apply_eq_act {d : List α} {op : Operation α} (h : InRange d op) (hd : d.length < 2 ^ 32) :
    apply d op = op.toEdit.act d := by
  cases ht : op.type with
  | insert =>
      have hp := (h.insert ht).1
      rw [op.toEdit_insert ht]
      by_cases hn : op.text = []
      · simp [apply, Operation.isNoop, ht, hn]
      · have hclamp : (min op.position (UInt32.ofNat d.length)).toNat = op.position.toNat := by
          rw [Word.toNat_min, Word.toNat_ofNat hd, Nat.min_eq_left hp]
        simp [apply, Operation.isNoop, ht, hn, Edit.act, hclamp]
  | delete =>
      have hp := h.delete ht
      rw [op.toEdit_delete ht]
      by_cases hn : op.length = 0
      · simp [apply, Operation.isNoop, ht, hn]
      · have hclamp : (min op.position (UInt32.ofNat d.length)).toNat = op.position.toNat := by
          rw [Word.toNat_min, Word.toNat_ofNat hd]; omega
        have hlen : (min op.length (UInt32.ofNat (d.length - op.position.toNat))).toNat
            = op.length.toNat := by
          rw [Word.toNat_min, Word.toNat_ofNat (by omega)]; omega
        simp [apply, Operation.isNoop, ht, hn, Edit.act, hclamp, hlen]

/-- A no-op is the identity, wherever it points. -/
theorem apply_noop {d : List α} {op : Operation α} (h : op.isNoop = true) : apply d op = d := by
  simp [apply, h]

/-! ## `transform` refines `rebase` -/

section Overlap

variable {a b : Operation α}

/-- Below `2^31` the signed overlap is the number of bytes the two deletions share. -/
theorem toNat_deleteOverlap (ha : a.position.toNat + a.length.toNat < 2 ^ 31)
    (hb : b.position.toNat + b.length.toNat < 2 ^ 31) :
    (deleteOverlap a b).toUInt32.toNat =
      Edit.shared a.position.toNat a.length.toNat b.position.toNat b.length.toNat := by
  have hend : (min (a.position + a.length) (b.position + b.length)).toNat =
      min (a.position.toNat + a.length.toNat) (b.position.toNat + b.length.toNat) := by
    rw [Word.toNat_min, Word.toNat_add (by omega), Word.toNat_add (by omega)]
  have hstart : (max a.position b.position).toNat = max a.position.toNat b.position.toNat :=
    Word.toNat_max _ _
  have hneg := Word.sub_neg_iff
    (a := min (a.position + a.length) (b.position + b.length)) (b := max a.position b.position)
    (by rw [hend]; omega) (by rw [hstart]; omega)
  simp only [deleteOverlap, Edit.shared]
  split_ifs with h
  · rw [hneg, hend, hstart] at h
    show (0 : UInt32).toNat = _
    rw [UInt32.toNat_zero]
    omega
  · rw [hneg, hend, hstart] at h
    rw [Int32.toUInt32_sub, UInt32.toUInt32_toInt32, UInt32.toUInt32_toInt32,
      Word.toNat_sub (by rw [hend, hstart]; omega), hend, hstart]

theorem deleteOverlap_eq_zero (ha : a.position.toNat + a.length.toNat < 2 ^ 31)
    (hb : b.position.toNat + b.length.toNat < 2 ^ 31) :
    deleteOverlap a b = 0 ↔
      Edit.shared a.position.toNat a.length.toNat b.position.toNat b.length.toNat = 0 := by
  rw [← toNat_deleteOverlap ha hb]
  constructor
  · intro h; rw [h]; rfl
  · intro h
    have h' : (deleteOverlap a b).toUInt32 = 0 := UInt32.toNat_inj.mp h
    rw [← Int32.toInt32_toUInt32 (deleteOverlap a b), h']
    rfl

end Overlap

/-- The rebased deletion keeps a position that does not wrap, unless the transform underflows. -/
theorem noUnderflow_toEdit {a b : Operation α} {d : List α} (hd : d.length < 2 ^ 31)
    (ha : InRange d a) (hb : InRange d b) (hn : ¬ Underflows a b) :
    Edit.NoUnderflow a.toEdit b.toEdit := by
  cases hta : a.type <;> cases htb : b.type <;>
    simp only [Operation.toEdit, hta, htb, Edit.NoUnderflow]
  have ha' := ha.delete hta
  have hb' := hb.delete htb
  intro h0 hlt
  rw [← deleteOverlap_eq_zero (by omega) (by omega)] at h0
  by_contra hle
  exact hn ⟨hta, htb, h0, UInt32.lt_iff_toNat_lt.mpr hlt, UInt32.lt_iff_toNat_lt.mpr (by omega)⟩

section Refinement

variable {d : List α} {a b : Operation α}

/-- What a document of fewer than `2^32` bytes leaves for the texts inserted into it. -/
theorem length_text_lt (hb : InRange d b) (htb : b.type = .insert) (hd : d.length < 2 ^ 31)
    (hdb : (apply d b).length < 2 ^ 32) : d.length + b.text.length < 2 ^ 32 := by
  rw [apply_eq_act hb (by omega), b.toEdit_insert htb, Edit.length_act_ins (hb.insert htb).1] at hdb
  exact hdb

theorem toNat_length_insert (hb : InRange d b) (htb : b.type = .insert) (hd : d.length < 2 ^ 31)
    (hdb : (apply d b).length < 2 ^ 32) : b.length.toNat = b.text.length := by
  have := length_text_lt hb htb hd hdb
  rw [(hb.insert htb).2, Word.toNat_ofNat (by omega)]

theorem transform_insert_insert (hta : a.type = .insert) (htb : b.type = .insert)
    (hd : d.length < 2 ^ 31) (hdb : (apply d b).length < 2 ^ 32) (ha : InRange d a)
    (hb : InRange d b) : (transform a b).1.toEdit = a.toEdit.rebase b.toEdit := by
  have hpa := (ha.insert hta).1
  have hlen := toNat_length_insert hb htb hd hdb
  have hsize := length_text_lt hb htb hd hdb
  rw [a.toEdit_insert hta, b.toEdit_insert htb]
  simp only [transform, hta, htb, transformInsertInsert, Edit.rebase, UInt32.lt_iff_toNat_lt]
  split_ifs <;> first
    | (exfalso; omega)
    | (rw [Operation.toEdit_insert hta])
    | (rw [Operation.toEdit_insert rfl]
       simp only [Word.toNat_add (show a.position.toNat + b.length.toNat < 2 ^ 32 by omega), hlen])

theorem transform_insert_delete (hta : a.type = .insert) (htb : b.type = .delete)
    (hd : d.length < 2 ^ 31) (hb : InRange d b) :
    (transform a b).1.toEdit = a.toEdit.rebase b.toEdit := by
  have hpb := hb.delete htb
  rw [a.toEdit_insert hta, b.toEdit_delete htb]
  simp only [transform, hta, htb, transformInsertDelete, Edit.rebase, UInt32.le_iff_toNat_le,
    Word.toNat_add (show b.position.toNat + b.length.toNat < 2 ^ 32 by omega)]
  split_ifs with h1 h2
  · rw [Operation.toEdit_insert hta]
  · rw [Operation.toEdit_insert rfl]
    simp only [Word.toNat_sub (show b.length.toNat ≤ a.position.toNat by omega)]
  · rw [Operation.toEdit_insert rfl]

theorem transform_delete_insert (hta : a.type = .delete) (htb : b.type = .insert)
    (hd : d.length < 2 ^ 31) (hdb : (apply d b).length < 2 ^ 32) (ha : InRange d a)
    (hb : InRange d b) : (transform a b).1.toEdit = a.toEdit.rebase b.toEdit := by
  have hpa := ha.delete hta
  have hlen := toNat_length_insert hb htb hd hdb
  have hsize := length_text_lt hb htb hd hdb
  rw [a.toEdit_delete hta, b.toEdit_insert htb]
  simp only [transform, hta, htb, transformInsertDelete, Edit.rebase, UInt32.le_iff_toNat_le,
    Word.toNat_add (show a.position.toNat + a.length.toNat < 2 ^ 32 by omega)]
  split_ifs with h1 h2
  · rw [Operation.toEdit_delete rfl]
    simp only [Word.toNat_add (show a.position.toNat + b.length.toNat < 2 ^ 32 by omega), hlen]
  · rw [Operation.toEdit_delete hta]
  · rw [Operation.toEdit_delete rfl]
    simp only [Word.toNat_add (show a.length.toNat + b.length.toNat < 2 ^ 32 by omega), hlen]

theorem transform_delete_delete (hta : a.type = .delete) (htb : b.type = .delete)
    (hd : d.length < 2 ^ 31) (ha : InRange d a) (hb : InRange d b) (hn : ¬ Underflows a b) :
    (transform a b).1.toEdit = a.toEdit.rebase b.toEdit := by
  have hpa := ha.delete hta
  have hpb := hb.delete htb
  have hn' := noUnderflow_toEdit hd ha hb hn
  have hov := toNat_deleteOverlap (a := a) (b := b) (by omega) (by omega)
  rw [a.toEdit_delete hta, b.toEdit_delete htb] at hn' ⊢
  simp only [Edit.NoUnderflow] at hn'
  simp only [transform, hta, htb, transformDeleteDelete, Edit.rebase, UInt32.lt_iff_toNat_lt,
    deleteOverlap_eq_zero (a := a) (b := b) (by omega) (by omega)]
  split_ifs with h0 h1 _ h2
  · exfalso; omega
  · rw [Operation.toEdit_delete hta]
  · rw [Operation.toEdit_delete rfl]
    simp only [Word.toNat_sub (hn' h0 h2)]
  · rw [Operation.toEdit_delete hta]
  · rw [Operation.toEdit_delete rfl]
    have hle : (deleteOverlap a b).toUInt32.toNat ≤ a.length.toNat := by
      rw [hov, Edit.shared]; omega
    simp only [Word.toNat_min, Word.toNat_sub hle, hov]

/-- **`transform` refines `rebase`.** For operations in range of one document below `2^31` bytes and
    where nothing underflows, the first component is the edit rebased over the other one. -/
theorem transform_refines (hd : d.length < 2 ^ 31) (hdb : (apply d b).length < 2 ^ 32)
    (ha : InRange d a) (hb : InRange d b) (hn : ¬ Underflows a b) :
    (transform a b).1.toEdit = a.toEdit.rebase b.toEdit := by
  cases hta : a.type with
  | insert =>
      cases htb : b.type with
      | insert => exact transform_insert_insert hta htb hd hdb ha hb
      | delete => exact transform_insert_delete hta htb hd hb
  | delete =>
      cases htb : b.type with
      | insert => exact transform_delete_insert hta htb hd hdb ha hb
      | delete => exact transform_delete_delete hta htb hd ha hb hn

end Refinement

/-- The transformed operation keeps the length field of an insertion equal to the size of its text. -/
theorem transform_wellFormed {a : Operation α} (b : Operation α) (ha : a.WellFormed) :
    (transform a b).1.WellFormed := by
  intro ht
  rw [transform_type] at ht
  have hlen := ha ht
  simp only [transform, ht, transformInsertInsert, transformInsertDelete]
  cases b.type <;> dsimp only <;> split_ifs <;> first | exact hlen | rfl

/-! ## Closure and convergence -/

section Laws

variable {d : List α} {a b : Operation α}

/-- **Closure.** The transformed operation is in range of the document the other one leaves. -/
theorem transform_inRange (hd : d.length < 2 ^ 31) (hdb : (apply d b).length < 2 ^ 31)
    (ha : InRange d a) (hb : InRange d b) (hn : ¬ Underflows a b) :
    InRange (apply d b) (transform a b).1 := by
  refine ⟨transform_wellFormed b ha.1, ?_⟩
  rw [transform_refines hd (by omega) ha hb hn, apply_eq_act hb (by omega)]
  exact Edit.rebase_inRange ha.2 hb.2 (noUnderflow_toEdit hd ha hb hn)

/-- What underflows is an empty deletion, and it leaves the other deletion as it was. -/
theorem transform_underflow (hd : d.length < 2 ^ 31) (ha : InRange d a) (hb : InRange d b)
    (hu : Underflows a b) :
    a.isNoop = true ∧ (transform a b).1.isNoop = true ∧ (transform b a).1 = b := by
  obtain ⟨hta, htb, h0, hlt, hlen⟩ := hu
  have hpa := ha.delete hta
  have hpb := hb.delete htb
  have hov := h0
  have hlt' : ¬ a.position < b.position := UInt32.lt_asymm hlt
  rw [deleteOverlap_eq_zero (by omega) (by omega), Edit.shared] at h0
  rw [UInt32.lt_iff_toNat_lt] at hlen
  have hempty : a.length = 0 := by
    apply UInt32.toNat_inj.mp
    rw [UInt32.lt_iff_toNat_lt] at hlt
    rw [UInt32.toNat_zero]
    omega
  refine ⟨by simp [Operation.isNoop, hta, hempty], ?_, ?_⟩
  · simp [Operation.isNoop, transform, transformDeleteDelete, hta, htb, hov, hlt, hlt', hempty]
  · simp [transform, transformDeleteDelete, hta, htb, deleteOverlap_comm a b, hov, hlt]

theorem apart_toEdit (hab : a.userId ≠ b.userId) : Edit.Apart a.toEdit b.toEdit := by
  cases hta : a.type <;> cases htb : b.type <;> simp only [Operation.toEdit, hta, htb, Edit.Apart]
  exact fun h => hab (UInt32.toNat_inj.mp h)

/-- **The transform diamond.** Two operations in range of one document, by different users: each one
    followed by the other transformed against it gives the same document. -/
theorem transform_diamond (hd : d.length < 2 ^ 31) (hda : (apply d a).length < 2 ^ 31)
    (hdb : (apply d b).length < 2 ^ 31) (ha : InRange d a) (hb : InRange d b)
    (hab : a.userId ≠ b.userId) :
    apply (apply d b) (transform a b).1 = apply (apply d a) (transform b a).1 := by
  by_cases hu : Underflows a b
  · obtain ⟨hna, hna', hb'⟩ := transform_underflow hd ha hb hu
    rw [hb', apply_noop hna, apply_noop hna']
  by_cases hu' : Underflows b a
  · obtain ⟨hnb, hnb', ha'⟩ := transform_underflow hd hb ha hu'
    rw [ha', apply_noop hnb, apply_noop hnb']
  have hra := transform_inRange hd hdb ha hb hu
  have hrb := transform_inRange hd hda hb ha hu'
  rw [apply_eq_act hra (by omega), apply_eq_act hrb (by omega), transform_refines hd (by omega) ha hb hu,
    transform_refines hd (by omega) hb ha hu', apply_eq_act ha (by omega), apply_eq_act hb (by omega)]
  exact Edit.rebase_converges ha.2 hb.2 (apart_toEdit hab)

/-- One side of `transform`: `a` rewritten to apply after `b`. -/
def xform (a b : Operation α) : Operation α := (transform a b).1

/-- `a` may be transformed against `b` on `d`: both documents are below `2^31` bytes and the transform
    does not underflow. -/
def Fine (d : List α) (a b : Operation α) : Prop :=
  d.length < 2 ^ 31 ∧ (apply d b).length < 2 ^ 31 ∧ ¬ Underflows a b

instance (d : List α) (a b : Operation α) : Decidable (Fine d a b) :=
  inferInstanceAs (Decidable (_ ∧ _))

/-- **The transform of `ot.cpp` obeys the diamond laws**, with the author as the site. -/
theorem transform_laws : Diamond.Laws (D := List α) apply xform Operation.userId InRange Fine where
  site_xf := transform_userId
  closed ha hb hf := transform_inRange hf.1 hf.2.1 ha hb hf.2.2
  converge ha hb hf hf' hab := transform_diamond hf.1 hf'.2.1 hf.2.1 ha hb hab

theorem type_rebase (op : Operation α) (hs : List (Operation α)) :
    (Diamond.rebase xform op hs).type = op.type := by
  induction hs generalizing op with
  | nil => rfl
  | cons h hs ih => rw [Diamond.rebase_cons, ih, xform, transform_type]

/-- No transform of `op` through the history underflows. -/
def NeverUnderflows (op : Operation α) : List (Operation α) → Prop
  | []      => True
  | h :: hs => ¬ Underflows op h ∧ NeverUnderflows (xform op h) hs

instance NeverUnderflows.decidable :
    (hs : List (Operation α)) → (op : Operation α) → Decidable (NeverUnderflows op hs)
  | [], _       => isTrue trivial
  | h :: hs, op =>
      have := NeverUnderflows.decidable hs (xform op h)
      inferInstanceAs (Decidable (_ ∧ _))

theorem rebaseFine_of {hs : List (Operation α)} {d : List α} {op : Operation α}
    (hn : NeverUnderflows op hs)
    (hsize : ∀ k ≤ hs.length, (Diamond.acts apply d (hs.take k)).length < 2 ^ 31) :
    Diamond.RebaseFine apply xform Fine d op hs := by
  induction hs generalizing d op with
  | nil => trivial
  | cons h hs ih =>
      have h0 := hsize 0 (Nat.zero_le _)
      have h1 := hsize 1 (by simp)
      refine ⟨⟨h0, h1, hn.1⟩, ih hn.2 fun k hk => ?_⟩
      exact hsize (k + 1) (by simpa using hk)

/-- **Pairwise convergence (TP1).** With `(a', b') = transform a b`, applying `a` then `b'` gives the
    same document as applying `b` then `a'`. Zero-length deletions and empty insertions are included,
    and so are the transforms that underflow. -/
theorem transform_converges (hd : d.length < 2 ^ 31) (hda : (apply d a).length < 2 ^ 31)
    (hdb : (apply d b).length < 2 ^ 31) (ha : InRange d a) (hb : InRange d b)
    (hab : a.userId ≠ b.userId) :
    apply (apply d a) (transform a b).2 = apply (apply d b) (transform a b).1 := by
  rw [transform_swap]
  exact (transform_diamond hd hda hdb ha hb hab).symm

/-- An empty deletion strictly inside another deletion, on the document `HELLO`. -/
theorem transform_converges_hello :
    let a : Operation Char := makeDelete 2 0 [] 1 0
    let b : Operation Char := makeDelete 1 3 [] 2 0
    apply (apply "HELLO".toList a) (transform a b).2 = apply (apply "HELLO".toList b) (transform a b).1 :=
  transform_converges (by decide) (by decide) (by decide) (by decide) (by decide) (by decide)

end Laws

end CollabEditor
