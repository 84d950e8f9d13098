import CollabEditor.Core.Document
import CollabEditor.Lib.EditOrders
import Mathlib.Data.List.Permutation

/-!
# `Core.ServerOrder` — the order in which the server processes concurrent operations

Three operations of three users, all based on the document's revision, can reach `apply_with_ot` in six
orders. `orders_agree_iff` says exactly when all six end with the same content: when no arrangement of the
three `Clashes` (`transform` does not have the property TP2), and none `Clears` (an empty deletion inside
another one wraps, and the third operation, a deletion too, then takes the rest of the document).

## Contents
- **Processing.** `applyAll`, and `applyAll_content`: the content is that of three transforms.
- **Calm triples.** Where nothing underflows, the operations are edits in turn.
- **Empty deletions.** `Wrapped`, what an underflow leaves, and what becomes of the others next to it.
- **The six orders.**
-/

namespace CollabEditor

open Diamond

variable {α : Type}

/-! ## Processing -/

/-- The document after a list of operations, whether accepted or not. -/
def Document.applyAll (doc : Document α) (ops : List (Operation α)) : Document α :=
  ops.foldl (fun doc op => (doc.applyWithOt op).1) doc

/-- The content after `x`, `y` and `z`, each transformed against the ones before it. -/
def inTurn (d : List α) (x y z : Operation α) : List α :=
  apply (apply (apply d x) (xform y x)) (xform (xform z x) (xform y x))

/-- `doc` has stored `log` since `doc₀` and still retains all of it. -/
structure Retains (doc₀ : Document α) (log : List (Operation α)) (doc : Document α) : Prop where
  follows : doc₀.Follows log doc
  limit   : doc.historyLimit = doc₀.historyLimit
  kept    : log.length ≤ doc.history.length

/-- One more operation based on the revision of `doc₀`. -/
theorem Retains.applyWithOt {doc₀ doc : Document α} {log : List (Operation α)} (h : Retains doc₀ log doc)
    {op : Operation α} (hrev : op.revision = doc₀.revision)
    (hmax : doc₀.revision.toNat + log.length + 1 < 2 ^ 32) :
    (doc.applyWithOt op).1.content = apply doc.content (rebase xform op log) ∧
      (log.length < doc₀.historyLimit.toNat →
        Retains doc₀ (log ++ [rebase xform op log]) (doc.applyWithOt op).1) := by
  have hwindow := h.follows.window
  have hrevision := h.follows.revision
  have hkept := h.kept
  unfold Document.WindowExact at hwindow
  have hin : doc.InWindow op.revision := by
    rw [hrev]
    exact ⟨by omega, by omega⟩
  have hsince : doc.since op.revision = log := by
    rw [h.follows.since_eq (j := 0) (by rw [hrev]; rfl) hin.1, List.drop_zero]
  obtain ⟨doc', happ, hfollows, hlimit, _, hlength⟩ := h.follows.applyWithOt hin (by omega)
  rw [hsince] at happ hfollows
  rw [happ]
  refine ⟨?_, fun hroom => ⟨hfollows, hlimit.trans h.limit, ?_⟩⟩
  · rw [hfollows.content, acts_snoc, ← h.follows.content]
  · rw [List.length_append, List.length_singleton, hlength, h.limit]
    omega

/-- **Three operations based on one revision**, processed with at least two entries of history retained. -/
theorem applyAll_content {doc : Document α} (hw : doc.WindowExact) (hlimit : 2 ≤ doc.historyLimit.toNat)
    (hmax : doc.revision.toNat + 3 < 2 ^ 32) {x y z : Operation α} (hx : x.revision = doc.revision)
    (hy : y.revision = doc.revision) (hz : z.revision = doc.revision) :
    (doc.applyAll [x, y, z]).content = inTurn doc.content x y z := by
  have h₀ : Retains doc [] doc := ⟨Document.Follows.refl hw, rfl, Nat.zero_le _⟩
  have h₁ := h₀.applyWithOt hx (by rw [List.length_nil]; omega)
  have h₂ := (h₁.2 (by rw [List.length_nil]; omega)).applyWithOt hy (by simp; omega)
  have h₃ := (h₂.2 (by simp; omega)).applyWithOt hz (by simp; omega)
  show (((doc.applyWithOt x).1.applyWithOt y).1.applyWithOt z).1.content = _
  rw [h₃.1, h₂.1, h₁.1]
  rfl

/-! ## Sizes -/

/-- The number of bytes an operation can add. -/
def Operation.added (op : Operation α) : ℕ :=
  match op.type with
  | .insert => op.text.length
  | .delete => 0

theorem Operation.added_insert {op : Operation α} (h : op.type = .insert) : op.added = op.text.length := by
  unfold Operation.added; rw [h]

theorem length_apply_le {d : List α} {op : Operation α} (h : InRange d op) (hd : d.length < 2 ^ 31) :
    (apply d op).length ≤ d.length + op.added := by
  rw [apply_eq_act h (by omega)]
  cases ht : op.type with
  | insert => rw [op.toEdit_insert ht, op.added_insert ht, Edit.length_act_ins (h.insert ht).1]
  | delete =>
      rw [op.toEdit_delete ht, Edit.length_act_del (h.delete ht)]
      omega

theorem added_xform_le (a b : Operation α) : (xform a b).added ≤ a.added := by
  unfold xform Operation.added
  rw [transform_type]
  cases ht : a.type with
  | delete => exact Nat.le_refl _
  | insert =>
      simp only [transform, ht, transformInsertInsert, transformInsertDelete]
      cases b.type <;> dsimp only <;> split_ifs <;> simp

/-! ## Calm triples -/

section Calm

variable {d : List α} {a b : Operation α}

theorem isNoop_toEdit (h : a.isNoop = true) : a.toEdit.IsNoop := by
  unfold Operation.isNoop at h
  cases ht : a.type with
  | insert =>
      rw [ht] at h
      have htext : a.text = [] := by simpa using h
      rw [a.toEdit_insert ht, htext]
      rfl
  | delete =>
      rw [ht] at h
      have hlen : a.length = 0 := by simpa using h
      rw [a.toEdit_delete ht, hlen]
      rfl

/-- One transform and its application are those of edits, whether or not it underflows. -/
theorem apply_xform (hd : d.length < 2 ^ 31) (hdb : (apply d b).length < 2 ^ 31) (ha : InRange d a)
    (hb : InRange d b) :
    apply (apply d b) (xform a b) = (a.toEdit.rebase b.toEdit).act (b.toEdit.act d) := by
  rw [← apply_eq_act hb (by omega)]
  by_cases hu : Underflows a b
  · obtain ⟨hna, hna', _⟩ := transform_underflow hd ha hb hu
    rw [xform, apply_noop hna', ((isNoop_toEdit hna).rebase _).act]
  · rw [xform, apply_eq_act (transform_inRange hd hdb ha hb hu) (by omega), transform_refines hd (by omega) ha hb hu]

/-- Three operations by three users in range of one document, with sizes below `2^31` throughout. -/
structure Concurrent (d : List α) (x y z : Operation α) : Prop where
  inRange₁ : InRange d x
  inRange₂ : InRange d y
  inRange₃ : InRange d z
  apart₁₂  : x.userId ≠ y.userId
  apart₁₃  : x.userId ≠ z.userId
  apart₂₃  : y.userId ≠ z.userId
  small    : d.length + x.added + y.added + z.added < 2 ^ 31

variable {x y z : Operation α}

theorem Concurrent.swap_first (h : Concurrent d x y z) : Concurrent d y x z :=
  ⟨h.inRange₂, h.inRange₁, h.inRange₃, h.apart₁₂.symm, h.apart₂₃, h.apart₁₃, by have := h.small; omega⟩

theorem Concurrent.swap_last (h : Concurrent d x y z) : Concurrent d x z y :=
  ⟨h.inRange₁, h.inRange₃, h.inRange₂, h.apart₁₃, h.apart₁₂, h.apart₂₃.symm, by have := h.small; omega⟩

theorem Concurrent.size (h : Concurrent d x y z) : d.length < 2 ^ 31 := by have := h.small; omega

theorem Concurrent.size₁ (h : Concurrent d x y z) : (apply d x).length < 2 ^ 31 := by
  have := length_apply_le h.inRange₁ h.size
  have := h.small
  omega

/-- None of the three underflows against another. -/
def Calm (x y z : Operation α) : Prop :=
  ¬ Underflows x y ∧ ¬ Underflows y x ∧ ¬ Underflows x z ∧ ¬ Underflows z x ∧ ¬ Underflows y z ∧
    ¬ Underflows z y

theorem pair_toEdit (hd : d.length < 2 ^ 31) (ha : InRange d a) (hb : InRange d b)
    (hab : a.userId ≠ b.userId) (hn : ¬ Underflows a b) (hn' : ¬ Underflows b a) :
    Edit.Pair a.toEdit b.toEdit where
  apart := apart_toEdit hab
  apart' := apart_toEdit hab.symm
  calm := noUnderflow_toEdit hd ha hb hn
  calm' := noUnderflow_toEdit hd hb ha hn'

theorem Concurrent.toEdit (h : Concurrent d x y z) (hc : Calm x y z) :
    Edit.Concurrent d x.toEdit y.toEdit z.toEdit where
  inRange₁ := h.inRange₁.2
  inRange₂ := h.inRange₂.2
  inRange₃ := h.inRange₃.2
  pair₁₂ := pair_toEdit h.size h.inRange₁ h.inRange₂ h.apart₁₂ hc.1 hc.2.1
  pair₁₃ := pair_toEdit h.size h.inRange₁ h.inRange₃ h.apart₁₃ hc.2.2.1 hc.2.2.2.1
  pair₂₃ := pair_toEdit h.size h.inRange₂ h.inRange₃ h.apart₂₃ hc.2.2.2.2.1 hc.2.2.2.2.2

/-- **Operations in turn are edits in turn**, if the first transforms do not underflow. -/
theorem inTurn_eq (h : Concurrent d x y z) (hyx : ¬ Underflows y x) (hzx : ¬ Underflows z x) :
    inTurn d x y z = Edit.inTurn d x.toEdit y.toEdit z.toEdit := by
  have hy : InRange (apply d x) (xform y x) := transform_inRange h.size h.size₁ h.inRange₂ h.inRange₁ hyx
  have hz : InRange (apply d x) (xform z x) := transform_inRange h.size h.size₁ h.inRange₃ h.inRange₁ hzx
  have hy' : (xform y x).toEdit = y.toEdit.rebase x.toEdit :=
    transform_refines h.size (Nat.lt_trans h.size₁ (by decide)) h.inRange₂ h.inRange₁ hyx
  have hz' : (xform z x).toEdit = z.toEdit.rebase x.toEdit :=
    transform_refines h.size (Nat.lt_trans h.size₁ (by decide)) h.inRange₃ h.inRange₁ hzx
  have hsize : (apply (apply d x) (xform y x)).length < 2 ^ 31 := by
    have := length_apply_le hy h.size₁
    have := length_apply_le h.inRange₁ h.size
    have := added_xform_le y x
    have := h.small
    omega
  unfold inTurn Edit.inTurn Edit.rebase₂
  rw [apply_xform h.size₁ hsize hz hy, apply_eq_act h.inRange₁ (by have := h.size; omega), hy', hz']

end Calm

/-! ## Empty deletions -/

section Wrapped

variable {d : List α} {a p v w : Operation α}

/-- What an underflow leaves on a document of `n` bytes: an empty deletion, so far past the end that its
    distance to `2^32` counts as a positive overlap with any other deletion. -/
structure Wrapped (n : ℕ) (w : Operation α) : Prop where
  type     : w.type = .delete
  length   : w.length = 0
  position : n + 2 ^ 31 < w.position.toNat

theorem Wrapped.isNoop {n : ℕ} (h : Wrapped n w) : w.isNoop = true := by
  simp [Operation.isNoop, h.type, h.length]

/-- The deletion that underflows is empty. -/
theorem Underflows.length_eq (hd : d.length < 2 ^ 31) (hw : InRange d w) (hp : InRange d p)
    (hu : Underflows w p) : w.length = 0 := by
  obtain ⟨hnoop, _, _⟩ := transform_underflow hd hw hp hu
  simpa [Operation.isNoop, hu.1] using hnoop

theorem Underflows.wrapped (hd : d.length < 2 ^ 31) (hw : InRange d w) (hp : InRange d p)
    (hu : Underflows w p) : Wrapped (apply d p).length (xform w p) := by
  have hzero := hu.length_eq hd hw hp
  obtain ⟨htw, htp, hover, hlt, hlen⟩ := hu
  have hlt' : ¬ w.position < p.position := UInt32.lt_asymm hlt
  have hpend := hp.delete htp
  rw [UInt32.lt_iff_toNat_lt] at hlen
  have hform : xform w p = { w with position := w.position - p.length } := by
    simp [xform, transform, transformDeleteDelete, htw, htp, hover, hlt, hlt']
  rw [hform]
  refine ⟨htw, hzero, ?_⟩
  rw [apply_eq_act hp (by omega), p.toEdit_delete htp, Edit.length_act_del hpend]
  show _ < (w.position - p.length).toNat
  rw [Word.toNat_sub_wrap hlen]
  omega

/-- A deletion that starts in the document and is longer than any document clears the rest of it. -/
theorem apply_clear (hd : d.length < 2 ^ 31) (ht : a.type = .delete) (hpos : a.position.toNat ≤ d.length)
    (hlen : 2 ^ 31 < a.length.toNat) : apply d a = d.take a.position.toNat := by
  have hn : a.length ≠ 0 := by
    intro h
    rw [h, UInt32.toNat_zero] at hlen
    omega
  have hclamp : (min a.position (UInt32.ofNat d.length)).toNat = a.position.toNat := by
    rw [Word.toNat_min, Word.toNat_ofNat (by omega), Nat.min_eq_left hpos]
  have hrest : (min a.length (UInt32.ofNat (d.length - a.position.toNat))).toNat =
      d.length - a.position.toNat := by
    rw [Word.toNat_min, Word.toNat_ofNat (by omega)]
    omega
  simp [apply, Operation.isNoop, ht, hn, hclamp, hrest, Nat.add_sub_of_le hpos]

/-- The overlap that is computed for a wrapped deletion and one in range. -/
theorem Wrapped.overlap (h : Wrapped d.length w) (hv : InRange d v) (htv : v.type = .delete) :
    (deleteOverlap w v).toUInt32.toNat =
        v.position.toNat + v.length.toNat + 2 ^ 32 - w.position.toNat ∧ deleteOverlap w v ≠ 0 := by
  have hend := hv.delete htv
  have hw := w.position.toNat_lt
  have hpos := h.position
  have hvend : (v.position + v.length).toNat = v.position.toNat + v.length.toNat :=
    Word.toNat_add (by omega)
  have hmin : min (w.position + w.length) (v.position + v.length) = v.position + v.length := by
    apply UInt32.toNat_inj.mp
    rw [h.length, UInt32.add_zero, Word.toNat_min, hvend]
    omega
  have hmax : max w.position v.position = w.position := by
    apply UInt32.toNat_inj.mp
    rw [Word.toNat_max]
    omega
  have hint : ((v.position + v.length).toInt32 - w.position.toInt32).toInt =
      ((v.position.toNat + v.length.toNat + 2 ^ 32 - w.position.toNat : ℕ) : Int) := by
    rw [Word.toInt_sub_toInt32, hvend, ← Int.add_bmod_right, Int.bmod_eq_of_le (by omega) (by omega)]
    omega
  have hover : deleteOverlap w v = (v.position + v.length).toInt32 - w.position.toInt32 := by
    simp only [deleteOverlap, hmin, hmax]
    rw [if_neg]
    rw [Int32.lt_iff_toInt_lt, hint, Int32.toInt_zero]
    omega
  rw [hover]
  refine ⟨?_, ?_⟩
  · rw [Int32.toUInt32_sub, UInt32.toUInt32_toInt32, UInt32.toUInt32_toInt32,
      Word.toNat_sub_wrap (by omega), hvend]
  · intro hzero
    rw [hzero, Int32.toInt_zero] at hint
    omega

/-- A wrapped deletion and another one: both become deletions of more than `2^31` bytes. -/
theorem Wrapped.xform_delete (h : Wrapped d.length w) (hv : InRange d v) (htv : v.type = .delete) :
    ((xform w v).position = v.position ∧ 2 ^ 31 < (xform w v).length.toNat) ∧
      (xform v w).position = v.position ∧ 2 ^ 31 < (xform v w).length.toNat := by
  obtain ⟨hover, hne⟩ := h.overlap hv htv
  have hend := hv.delete htv
  have hw := w.position.toNat_lt
  have hpos := h.position
  have hmin : min w.position v.position = v.position := by
    apply UInt32.toNat_inj.mp
    rw [Word.toNat_min]
    omega
  have hmin' : min v.position w.position = v.position := by rw [Word.min_comm, hmin]
  simp only [xform, transform, transformDeleteDelete, h.type, htv, deleteOverlap_comm w v, if_neg hne, hmin,
    hmin', h.length, true_and]
  rw [Word.toNat_sub_wrap (by rw [hover, UInt32.toNat_zero]; omega), Word.toNat_sub_wrap (by omega), hover,
    UInt32.toNat_zero]
  omega

/-- A wrapped deletion and an insertion in range leave each other alone. -/
theorem Wrapped.xform_insert (h : Wrapped d.length w) (hv : InRange d v) (htv : v.type = .insert) :
    (xform w v).isNoop = true ∧ xform v w = v := by
  have hle : v.position ≤ w.position := by
    have hpos := h.position
    have hin := (hv.insert htv).1
    rw [UInt32.le_iff_toNat_le]
    omega
  simp [xform, transform, transformInsertDelete, Operation.isNoop, h.type, htv, hle, h.length]

/-- Two wrapped deletions do not overlap. -/
theorem Wrapped.xform_wrapped {n : ℕ} (h : Wrapped n w) (hv : Wrapped n v) : (xform w v).isNoop = true := by
  have hpos := h.position
  have hpos' := hv.position
  have hlt := w.position.toNat_lt
  have hlt' := v.position.toNat_lt
  have hint : ((min w.position v.position).toInt32 - (max w.position v.position).toInt32).toInt ≤ 0 := by
    rw [Word.toInt_sub_toInt32, Word.toNat_min, Word.toNat_max, Int.bmod_eq_of_le (by omega) (by omega)]
    omega
  have hover : deleteOverlap w v = 0 := by
    simp only [deleteOverlap, h.length, hv.length, UInt32.add_zero]
    split_ifs with hneg
    · rfl
    · rw [Int32.lt_iff_toInt_lt, Int32.toInt_zero] at hneg
      apply Int32.toInt_inj.mp
      rw [Int32.toInt_zero]
      omega
  simp only [xform, transform, transformDeleteDelete, h.type, hv.type, hover, if_true, Operation.isNoop]
  split_ifs <;> simp [h.length, h.type]

/-- An empty deletion in range leaves the others alone, and stays empty. -/
theorem xform_quiet (hd : d.length < 2 ^ 31) (hw : InRange d w) (ha : InRange d a) (htw : w.type = .delete)
    (hzero : w.length = 0) : xform a w = a ∧ (xform w a).length = 0 := by
  have hwend := hw.delete htw
  cases hta : a.type with
  | insert =>
      simp only [xform, transform, transformInsertDelete, hta, htw, hzero, UInt32.add_zero, UInt32.sub_zero]
      refine ⟨?_, ?_⟩
      · split_ifs with h1 h2
        · rfl
        · rw [← hta]
        · rw [UInt32.le_iff_toNat_le] at h1 h2
          omega
      · split_ifs with h1 h2
        · rfl
        · exact hzero
        · rw [UInt32.le_iff_toNat_le] at h1 h2
          omega
  | delete =>
      have haend := ha.delete hta
      have hover : deleteOverlap a w = 0 := by
        rw [deleteOverlap_eq_zero (by omega) (by omega), hzero, UInt32.toNat_zero, Edit.shared]
        omega
      simp only [xform, transform, transformDeleteDelete, hta, htw, deleteOverlap_comm a w, hover, if_true,
        hzero, UInt32.sub_zero]
      refine ⟨?_, ?_⟩
      · split_ifs
        · rfl
        · rw [← hta]
        · rfl
      · split_ifs <;> first | exact hzero | rfl

theorem isNoop_xform_quiet (hd : d.length < 2 ^ 31) (hw : InRange d w) (ha : InRange d a)
    (htw : w.type = .delete) (hzero : w.length = 0) : (xform w a).isNoop = true := by
  have htype : (xform w a).type = .delete := (transform_type w a).trans htw
  simp [Operation.isNoop, htype, (xform_quiet hd hw ha htw hzero).2]

/-- Some byte behind the deletion `y` is outside the deletion `x`; or `y` is empty and inside `x`, which
    brings it too far to the left. -/
def Leaves (d : List α) (x y : Operation α) : Prop :=
  y.position.toNat + y.length.toNat < x.position.toNat ∨
    max (x.position.toNat + x.length.toNat) (y.position.toNat + y.length.toNat) < d.length ∨
    y.length = 0 ∧ x.position < y.position ∧ y.position.toNat < x.position.toNat + x.length.toNat

instance (d : List α) (x y : Operation α) : Decidable (Leaves d x y) :=
  inferInstanceAs (Decidable (_ ∨ _))

/-- The empty deletion `w` underflows against `p`, and the deletion `v`, which does not, has bytes behind it
    that the wrapped deletion then clears. -/
def Clears (d : List α) (w p v : Operation α) : Prop :=
  Underflows w p ∧ v.type = .delete ∧ ¬ Underflows v p ∧ Leaves d p v

instance (d : List α) (w p v : Operation α) : Decidable (Clears d w p v) :=
  inferInstanceAs (Decidable (_ ∧ _))

/-- The bytes behind the second deletion, seen from the document that the first one leaves. -/
theorem leaves_iff (hd : d.length < 2 ^ 31) (hp : InRange d p) (hv : InRange d v) (htp : p.type = .delete)
    (htv : v.type = .delete) (hpos : 0 < p.length.toNat) (hn : ¬ Underflows v p) :
    Leaves d p v ↔
      (xform v p).position.toNat + (xform v p).length.toNat < (apply d p).length := by
  have hpend := hp.delete htp
  have hvend := hv.delete htv
  have hlen : (apply d p).length = d.length - p.length.toNat := by
    rw [apply_eq_act hp (by omega), p.toEdit_delete htp, Edit.length_act_del hpend]
  have hedit : (xform v p).toEdit = v.toEdit.rebase p.toEdit :=
    transform_refines hd (by rw [hlen]; omega) hv hp hn
  have htype : (xform v p).type = .delete := (transform_type v p).trans htv
  rw [Operation.toEdit_delete htype, v.toEdit_delete htv, p.toEdit_delete htp] at hedit
  unfold Leaves
  rw [hlen, UInt32.lt_iff_toNat_lt, ← UInt32.toNat_inj, UInt32.toNat_zero]
  rcases Nat.eq_zero_or_pos v.length.toNat with hzero | hvpos
  · -- an empty deletion keeps its length; it moves if it starts behind the other one
    have hshared : Edit.shared v.position.toNat 0 p.position.toNat p.length.toNat = 0 := by
      unfold Edit.shared
      omega
    have hcalm := noUnderflow_toEdit hd hv hp hn
    rw [v.toEdit_delete htv, p.toEdit_delete htp, hzero] at hcalm
    have hcalm' := hcalm hshared
    simp only [hzero, Edit.rebase, hshared, if_true] at hedit
    split_ifs at hedit with hlt
    all_goals
      injection hedit with h1 h2
      rw [h1, h2]
      omega
  · rw [Edit.rebase_del_del hvpos] at hedit
    injection hedit with h1 h2
    have hmono : Edit.shift p.position.toNat p.length.toNat v.position.toNat ≤
        Edit.shift p.position.toNat p.length.toNat (v.position.toNat + v.length.toNat) :=
      Edit.shift_mono (by omega)
    rw [h1, h2, Nat.add_sub_of_le hmono]
    unfold Edit.shift
    omega

end Wrapped

/-! ## Triples with an empty deletion -/

section Quiet

variable {d : List α} {w p v : Operation α}

/-- An empty deletion of the triple that comes first: the other two follow as if alone. -/
theorem inTurn_quiet_first (h : Concurrent d w p v) (htw : w.type = .delete) (hzero : w.length = 0) :
    inTurn d w p v = apply (apply d p) (xform v p) := by
  have hnoop : w.isNoop = true := by simp [Operation.isNoop, htw, hzero]
  unfold inTurn
  rw [(xform_quiet h.size h.inRange₁ h.inRange₂ htw hzero).1,
    (xform_quiet h.size h.inRange₁ h.inRange₃ htw hzero).1, apply_noop hnoop]

/-- An empty deletion that comes second or last: the same, if nothing underflows against the first. -/
theorem inTurn_quiet (h : Concurrent d p w v) (htw : w.type = .delete) (hzero : w.length = 0)
    (hw : ¬ Underflows w p) (hv : ¬ Underflows v p) :
    inTurn d p w v = apply (apply d p) (xform v p) ∧ inTurn d p v w = apply (apply d p) (xform v p) := by
  have hwr : InRange (apply d p) (xform w p) := transform_inRange h.size h.size₁ h.inRange₂ h.inRange₁ hw
  have hvr : InRange (apply d p) (xform v p) := transform_inRange h.size h.size₁ h.inRange₃ h.inRange₁ hv
  have htype : (xform w p).type = .delete := (transform_type w p).trans htw
  have hzero' := (xform_quiet h.size h.inRange₂ h.inRange₁ htw hzero).2
  have hnoop := isNoop_xform_quiet h.size h.inRange₂ h.inRange₁ htw hzero
  unfold inTurn
  rw [(xform_quiet h.size₁ hwr hvr htype hzero').1, apply_noop hnoop,
    apply_noop (isNoop_xform_quiet h.size₁ hwr hvr htype hzero')]
  exact ⟨rfl, rfl⟩

/-- A wrapped deletion next to an insertion does nothing. -/
theorem inTurn_wrapped_insert (h : Concurrent d p w v) (hw : Underflows w p) (htv : v.type = .insert) :
    inTurn d p w v = apply (apply d p) (xform v p) ∧ inTurn d p v w = apply (apply d p) (xform v p) := by
  have hwrapped := hw.wrapped h.size h.inRange₂ h.inRange₁
  have hvn : ¬ Underflows v p := fun hu => by
    rw [hu.1] at htv
    cases htv
  have hvr : InRange (apply d p) (xform v p) := transform_inRange h.size h.size₁ h.inRange₃ h.inRange₁ hvn
  obtain ⟨hnoop, hsame⟩ := hwrapped.xform_insert hvr ((transform_type v p).trans htv)
  unfold inTurn
  rw [apply_noop hwrapped.isNoop, hsame, apply_noop hnoop]
  exact ⟨rfl, rfl⟩

/-- Two wrapped deletions do nothing. -/
theorem inTurn_wrapped_wrapped (h : Concurrent d p w v) (hw : Underflows w p) (hv : Underflows v p) :
    inTurn d p w v = apply d p ∧ inTurn d p v w = apply d p := by
  have hwrapped := hw.wrapped h.size h.inRange₂ h.inRange₁
  have hvrapped := hv.wrapped h.size h.inRange₃ h.inRange₁
  unfold inTurn
  rw [apply_noop hwrapped.isNoop, apply_noop hvrapped.isNoop, apply_noop (hvrapped.xform_wrapped hwrapped),
    apply_noop (hwrapped.xform_wrapped hvrapped)]
  exact ⟨rfl, rfl⟩

/-- **A wrapped deletion next to another deletion clears the document** from the other one's place on. -/
theorem inTurn_wrapped_delete (h : Concurrent d p w v) (hw : Underflows w p) (hv : ¬ Underflows v p)
    (htv : v.type = .delete) :
    inTurn d p w v = (apply d p).take (xform v p).position.toNat ∧
      inTurn d p v w = (apply d p).take (xform v p).position.toNat := by
  have hwrapped := hw.wrapped h.size h.inRange₂ h.inRange₁
  have hvr : InRange (apply d p) (xform v p) := transform_inRange h.size h.size₁ h.inRange₃ h.inRange₁ hv
  have htype : (xform v p).type = .delete := (transform_type v p).trans htv
  have hend := hvr.delete htype
  have hsize := h.size₁
  obtain ⟨⟨hpos, hlen⟩, hpos', hlen'⟩ := hwrapped.xform_delete hvr htype
  have htype' : (xform (xform v p) (xform w p)).type = .delete := (transform_type _ _).trans htype
  have htype'' : (xform (xform w p) (xform v p)).type = .delete := (transform_type _ _).trans hwrapped.type
  have hact : apply (apply d p) (xform v p) = (apply d p).take (xform v p).position.toNat ++
      (apply d p).drop ((xform v p).position.toNat + (xform v p).length.toNat) := by
    rw [apply_eq_act hvr (by omega), Operation.toEdit_delete htype]
    rfl
  unfold inTurn
  refine ⟨?_, ?_⟩
  · rw [apply_noop hwrapped.isNoop, apply_clear hsize htype' (by rw [hpos']; omega) hlen', hpos']
  · have hle : (xform v p).position.toNat ≤ (apply (apply d p) (xform v p)).length := by
      rw [hact, List.length_append, List.length_take]
      omega
    have hshort : (apply (apply d p) (xform v p)).length < 2 ^ 31 := by
      rw [hact, List.length_append, List.length_take, List.length_drop]
      omega
    rw [apply_clear hshort htype'' (by rw [hpos]; exact hle) hlen, hpos, hact,
      List.take_append_of_le_length (by rw [List.length_take]; omega), List.take_take, Nat.min_self]

/-- What is cleared is what the other deletion leaves behind itself. -/
theorem take_eq_apply_iff (h : Concurrent d p w v) (hw : Underflows w p) (hv : ¬ Underflows v p)
    (htv : v.type = .delete) :
    (apply d p).take (xform v p).position.toNat = apply (apply d p) (xform v p) ↔ ¬ Leaves d p v := by
  have hvr : InRange (apply d p) (xform v p) := transform_inRange h.size h.size₁ h.inRange₃ h.inRange₁ hv
  have htype : (xform v p).type = .delete := (transform_type v p).trans htv
  have hsize := h.size₁
  have hpos : 0 < p.length.toNat := by
    have hlt := UInt32.lt_iff_toNat_lt.mp hw.2.2.2.2
    omega
  rw [leaves_iff h.size h.inRange₁ h.inRange₃ hw.2.1 htv hpos hv, apply_eq_act hvr (by omega),
    Operation.toEdit_delete htype, Edit.act, List.self_eq_append_right, List.drop_eq_nil_iff, Nat.not_lt]

/-- **Behind `p`, with an empty deletion among the other two**: both orders do what the other operation
    does alone, unless one of the two clears. -/
theorem inTurn_behind (h : Concurrent d p w v) (htw : w.type = .delete) (hzero : w.length = 0) :
    inTurn d p v w = inTurn d p w v ∧
      (inTurn d p w v = apply (apply d p) (xform v p) ↔ ¬ Clears d w p v ∧ ¬ Clears d v p w) := by
  unfold Clears
  by_cases hw : Underflows w p
  · by_cases hv : Underflows v p
    · obtain ⟨h1, h2⟩ := inTurn_wrapped_wrapped h hw hv
      have hnoop := (hv.wrapped h.size h.inRange₃ h.inRange₁).isNoop
      refine ⟨h2.trans h1.symm, ?_⟩
      rw [h1, apply_noop hnoop]
      simp [hw, hv]
    · cases htv : v.type with
      | insert =>
          obtain ⟨h1, h2⟩ := inTurn_wrapped_insert h hw htv
          refine ⟨h2.trans h1.symm, ?_⟩
          rw [h1]
          simp [hv]
      | delete =>
          obtain ⟨h1, h2⟩ := inTurn_wrapped_delete h hw hv htv
          refine ⟨h2.trans h1.symm, ?_⟩
          rw [h1, take_eq_apply_iff h hw hv htv]
          simp [hw, hv]
  · by_cases hv : Underflows v p
    · -- the other one is empty as well, so `w` is the one that is carried on
      obtain ⟨h1, h2⟩ := inTurn_wrapped_delete h.swap_last hv hw htw
      have hnoop := (hv.wrapped h.size h.inRange₃ h.inRange₁).isNoop
      have hnoop' := isNoop_xform_quiet h.size h.inRange₂ h.inRange₁ htw hzero
      have hiff := take_eq_apply_iff h.swap_last hv hw htw
      rw [apply_noop hnoop'] at hiff
      refine ⟨h1.trans h2.symm, ?_⟩
      rw [h2, apply_noop hnoop, hiff]
      simp [hw, hv, htw]
    · obtain ⟨h1, h2⟩ := inTurn_quiet h htw hzero hw hv
      refine ⟨h2.trans h1.symm, ?_⟩
      rw [h1]
      simp [hw, hv]

end Quiet

/-! ## The six orders -/

/-- What holds of three things, and survives an exchange of the first two and of the last two, holds of
    them in every order. -/
theorem perm_three {γ : Type} {P : γ → γ → γ → Prop} (first : ∀ x y z, P x y z → P y x z)
    (last : ∀ x y z, P x y z → P x z y) {a b c : γ} (h : P a b c) {x y z : γ}
    (hperm : [x, y, z].Perm [a, b, c]) : P x y z := by
  have hmem := List.mem_permutations'.mpr hperm
  simp only [List.permutations', List.flatMap_cons, List.flatMap_nil, List.permutations'Aux, List.map_cons,
    List.map_nil, List.append_nil, List.cons_append, List.nil_append, List.mem_cons, List.cons.injEq,
    List.not_mem_nil, or_false, and_true] at hmem
  rcases hmem with ⟨rfl, rfl, rfl⟩ | ⟨rfl, rfl, rfl⟩ | ⟨rfl, rfl, rfl⟩ | ⟨rfl, rfl, rfl⟩ | ⟨rfl, rfl, rfl⟩ |
    ⟨rfl, rfl, rfl⟩
  · exact h
  · exact first _ _ _ h
  · exact last _ _ _ (first _ _ _ h)
  · exact last _ _ _ h
  · exact first _ _ _ (last _ _ _ h)
  · exact last _ _ _ (first _ _ _ (last _ _ _ h))

theorem perm_swap_first {γ : Type} {x y z : γ} {l : List γ} (h : [x, y, z].Perm l) : [y, x, z].Perm l :=
  (List.Perm.swap x y [z]).trans h

theorem perm_swap_last {γ : Type} {x y z : γ} {l : List γ} (h : [x, y, z].Perm l) : [x, z, y].Perm l :=
  ((List.Perm.swap y z []).cons x).trans h

/-- `z` acts differently after `x` and `y` than after `y` and `x`: the operations read as edits clash. -/
def Clashes (z x y : Operation α) : Prop := Edit.Clash z.toEdit x.toEdit y.toEdit

instance [DecidableEq α] (z x y : Operation α) : Decidable (Clashes z x y) :=
  inferInstanceAs (Decidable (Edit.Clash _ _ _))

section Orders

variable {d : List α} {a b c x y z : Operation α}

/-- The three end with one content in whichever order they come. -/
def Agree (d : List α) (a b c : Operation α) : Prop :=
  ∀ x y z, [x, y, z].Perm [a, b, c] → inTurn d x y z = inTurn d a b c

theorem Concurrent.perm (h : Concurrent d a b c) (hp : [x, y, z].Perm [a, b, c]) : Concurrent d x y z :=
  perm_three (P := Concurrent d) (fun _ _ _ h => h.swap_first) (fun _ _ _ h => h.swap_last) h hp

theorem Calm.perm (h : Calm a b c) (hp : [x, y, z].Perm [a, b, c]) : Calm x y z := by
  refine perm_three (P := Calm) ?_ ?_ h hp
  · exact fun _ _ _ ⟨h1, h2, h3, h4, h5, h6⟩ => ⟨h2, h1, h5, h6, h3, h4⟩
  · exact fun _ _ _ ⟨h1, h2, h3, h4, h5, h6⟩ => ⟨h3, h4, h1, h2, h6, h5⟩

/-- **Where nothing underflows**, the orders agree exactly when no arrangement clashes. -/
theorem agree_calm (h : Concurrent d a b c) (hc : Calm a b c) :
    Agree d a b c ↔ ∀ x y z, [x, y, z].Perm [a, b, c] → ¬ Clashes z x y := by
  have heq : ∀ {x y z}, [x, y, z].Perm [a, b, c] →
      inTurn d x y z = Edit.inTurn d x.toEdit y.toEdit z.toEdit := by
    intro x y z hp
    obtain ⟨_, hyx, _, hzx, _⟩ := hc.perm hp
    exact inTurn_eq (h.perm hp) hyx hzx
  have hedit : ∀ {x y z}, [x, y, z].Perm [a, b, c] →
      Edit.Concurrent d x.toEdit y.toEdit z.toEdit := fun hp => (h.perm hp).toEdit (hc.perm hp)
  constructor
  · intro hagree x y z hp hclash
    refine Edit.Clash.inTurn_ne hclash (hedit hp) ?_
    rw [← heq hp, ← heq (perm_swap_first hp), hagree x y z hp, hagree y x z (perm_swap_first hp)]
  · intro hclash x y z hp
    -- along the exchanges that lead from one order to the other
    have hP := perm_three
      (P := fun x y z => [x, y, z].Perm [a, b, c] ∧ inTurn d x y z = inTurn d a b c)
      ?_ ?_ ⟨List.Perm.refl _, rfl⟩ hp
    · exact hP.2
    · rintro x y z ⟨hp, hxyz⟩
      have hp₁ := perm_swap_first hp
      refine ⟨hp₁, ?_⟩
      rw [← hxyz, heq hp, heq hp₁]
      have hp₂ := perm_swap_last hp
      have hp₃ := perm_swap_last hp₁
      exact (Edit.inTurn_swap_first (hedit hp) (hclash _ _ _ hp) (hclash _ _ _ hp₁) (hclash _ _ _ hp₂)
        (hclash _ _ _ (perm_swap_first hp₂)) (hclash _ _ _ hp₃)
        (hclash _ _ _ (perm_swap_first hp₃))).symm
    · rintro x y z ⟨hp, hxyz⟩
      refine ⟨perm_swap_last hp, ?_⟩
      rw [← hxyz, heq hp, heq (perm_swap_last hp)]
      exact (Edit.inTurn_swap_last (hedit hp)).symm

/-- An operation that clashes does something. -/
theorem not_clashes_of_quiet (hp : [x, y, z].Perm [a, b, c]) (ha : a.type = .delete) (hzero : a.length = 0) :
    ¬ Clashes z x y := by
  intro hc
  have hnoop : a.toEdit.IsNoop := by
    rw [a.toEdit_delete ha, hzero]
    rfl
  obtain ⟨hz, hx, hy⟩ := Edit.Clash.not_noop hc
  have hmem : a ∈ [x, y, z] := hp.mem_iff.mpr List.mem_cons_self
  simp only [List.mem_cons, List.not_mem_nil, or_false] at hmem
  rcases hmem with rfl | rfl | rfl
  · exact hx hnoop
  · exact hy hnoop
  · exact hz hnoop

/-- **With an empty deletion among them**, the orders agree exactly when no arrangement clears. -/
theorem agree_quiet (h : Concurrent d a b c) (ha : a.type = .delete) (hzero : a.length = 0) :
    Agree d a b c ↔ ∀ x y z, [x, y, z].Perm [a, b, c] → ¬ Clears d z x y := by
  -- the content that the orders beginning with `a` end with
  have hfirst := inTurn_quiet_first h ha hzero
  have hfirst' := inTurn_quiet_first h.swap_last ha hzero
  have hdiamond : apply (apply d b) (xform c b) = apply (apply d c) (xform b c) :=
    transform_diamond h.size h.swap_last.swap_first.size₁ h.swap_first.size₁ h.inRange₃ h.inRange₂
      h.apart₂₃.symm
  have hb := inTurn_behind h.swap_first ha hzero
  have hc := inTurn_behind h.swap_last.swap_first ha hzero
  rw [← hfirst] at hb
  rw [← hdiamond, ← hfirst] at hc
  have hrefl : [a, b, c].Perm [a, b, c] := List.Perm.refl _
  have hbac := perm_swap_first hrefl
  have hbca := perm_swap_last hbac
  have hacb := perm_swap_last hrefl
  have hcab := perm_swap_first hacb
  have hcba := perm_swap_last hcab
  constructor
  · intro hagree x y z hp
    obtain ⟨hb1, hb2⟩ := hb.2.mp (hagree b a c hbac)
    obtain ⟨hc1, hc2⟩ := hc.2.mp (hagree c a b hcab)
    have hnone : ∀ {v w}, ¬ Clears d v a w := by
      rintro v w ⟨hu, _⟩
      have hlt := UInt32.lt_iff_toNat_lt.mp hu.2.2.2.2
      rw [hzero, UInt32.toNat_zero] at hlt
      omega
    have hP := perm_three
      (P := fun x y z => ¬ Clears d x y z ∧ ¬ Clears d x z y ∧ ¬ Clears d y x z ∧ ¬ Clears d y z x ∧
        ¬ Clears d z x y ∧ ¬ Clears d z y x)
      ?_ ?_ ⟨hb1, hc1, hnone, hc2, hnone, hb2⟩ hp
    · exact hP.2.2.2.2.1
    · exact fun _ _ _ ⟨h1, h2, h3, h4, h5, h6⟩ => ⟨h3, h4, h1, h2, h6, h5⟩
    · exact fun _ _ _ ⟨h1, h2, h3, h4, h5, h6⟩ => ⟨h2, h1, h5, h6, h3, h4⟩
  · intro hclears x y z hp
    have hbEq := hb.2.mpr ⟨hclears _ _ _ hbca, hclears _ _ _ hbac⟩
    have hcEq := hc.2.mpr ⟨hclears _ _ _ hcba, hclears _ _ _ hcab⟩
    have hP := perm_three
      (P := fun x y z => inTurn d x y z = inTurn d a b c ∧ inTurn d x z y = inTurn d a b c ∧
        inTurn d y x z = inTurn d a b c ∧ inTurn d y z x = inTurn d a b c ∧
        inTurn d z x y = inTurn d a b c ∧ inTurn d z y x = inTurn d a b c)
      ?_ ?_ ⟨rfl, by rw [hfirst, hfirst', hdiamond], hbEq, hb.1.trans hbEq, hcEq, hc.1.trans hcEq⟩ hp
    · exact hP.1
    · exact fun _ _ _ ⟨h1, h2, h3, h4, h5, h6⟩ => ⟨h3, h4, h1, h2, h6, h5⟩
    · exact fun _ _ _ ⟨h1, h2, h3, h4, h5, h6⟩ => ⟨h2, h1, h5, h6, h3, h4⟩

theorem Agree.perm (h : Agree d a b c) (hp : [x, y, z].Perm [a, b, c]) : Agree d x y z := by
  intro x' y' z' hp'
  rw [h x' y' z' (hp'.trans hp), h x y z hp]

/-- A triple that is not calm has an empty deletion in some order first. -/
theorem exists_quiet (h : Concurrent d a b c) (hc : ¬ Calm a b c) :
    ∃ x y z, [x, y, z].Perm [a, b, c] ∧ x.type = .delete ∧ x.length = 0 := by
  have hrefl : [a, b, c].Perm [a, b, c] := List.Perm.refl _
  have hquiet : ∀ {x y z}, [x, y, z].Perm [a, b, c] → Underflows x y →
      ∃ x y z, [x, y, z].Perm [a, b, c] ∧ x.type = .delete ∧ x.length = 0 := fun hp hu =>
    ⟨_, _, _, hp, hu.1, hu.length_eq h.size (h.perm hp).inRange₁ (h.perm hp).inRange₂⟩
  have hac := perm_swap_last hrefl
  have hbc := perm_swap_last (perm_swap_first hrefl)
  unfold Calm at hc
  by_contra hnone
  refine hc ⟨?_, ?_, ?_, ?_, ?_, ?_⟩
  · exact fun hu => hnone (hquiet hrefl hu)
  · exact fun hu => hnone (hquiet (perm_swap_first hrefl) hu)
  · exact fun hu => hnone (hquiet hac hu)
  · exact fun hu => hnone (hquiet (perm_swap_first hac) hu)
  · exact fun hu => hnone (hquiet hbc hu)
  · exact fun hu => hnone (hquiet (perm_swap_first hbc) hu)

/-- **When the order of processing does not matter.** Three operations by three users, in range of the
    document and based on its revision, sizes below `2^31`, at least two history entries retained: all six
    orders in which `apply_with_ot` may process them end with one content exactly when no arrangement of
    them clashes or clears. -/
theorem orders_agree_iff {doc : Document α} (hw : doc.WindowExact) (hlimit : 2 ≤ doc.historyLimit.toNat)
    (hmax : doc.revision.toNat + 3 < 2 ^ 32) (h : Concurrent doc.content a b c)
    (hrev : ∀ op ∈ [a, b, c], op.revision = doc.revision) :
    (∀ ops, ops.Perm [a, b, c] → (doc.applyAll ops).content = (doc.applyAll [a, b, c]).content) ↔
      ∀ x y z, [x, y, z].Perm [a, b, c] → ¬ Clashes z x y ∧ ¬ Clears doc.content z x y := by
  have hcontent : ∀ {x y z}, [x, y, z].Perm [a, b, c] →
      (doc.applyAll [x, y, z]).content = inTurn doc.content x y z := by
    intro x y z hp
    have hmem : ∀ op ∈ [x, y, z], op.revision = doc.revision := fun op ho => hrev op (hp.mem_iff.mp ho)
    exact applyAll_content hw hlimit hmax (hmem x (by simp)) (hmem y (by simp)) (hmem z (by simp))
  have hagree : (∀ ops, ops.Perm [a, b, c] → (doc.applyAll ops).content =
      (doc.applyAll [a, b, c]).content) ↔ Agree doc.content a b c := by
    rw [hcontent (List.Perm.refl _)]
    constructor
    · intro hall x y z hp
      rw [← hcontent hp, hall _ hp]
    · intro hagree ops hp
      obtain ⟨x, y, z, rfl⟩ := List.length_eq_three.mp hp.length_eq
      rw [hcontent hp, hagree x y z hp]
  rw [hagree]
  by_cases hc : Calm a b c
  · rw [agree_calm h hc]
    have hclears : ∀ {x y z}, [x, y, z].Perm [a, b, c] → ¬ Clears doc.content z x y := fun hp hcl =>
      (hc.perm hp).2.2.2.1 hcl.1
    exact ⟨fun hall x y z hp => ⟨hall x y z hp, hclears hp⟩, fun hall x y z hp => (hall x y z hp).1⟩
  · obtain ⟨a', b', c', hp', htype, hzero⟩ := exists_quiet h hc
    have hiff := agree_quiet (h.perm hp') htype hzero
    constructor
    · intro hag x y z hp
      have hp'' := hp.trans hp'.symm
      exact ⟨not_clashes_of_quiet hp'' htype hzero, hiff.mp (hag.perm hp') x y z hp''⟩
    · intro hall
      exact (hiff.mpr fun x y z hp => (hall x y z (hp.trans hp')).2).perm hp'.symm

end Orders

/-- A document with the content `AB`. -/
def documentAB : Document Char := (Document.create 1 "t").setContent "AB".toList

/-- Insertions at the two ends of a deletion, in the order of the user ids. -/
theorem orders_agree_iff_ab :
    let x : Operation Char := makeInsert 1 ['x'] 1 0
    let y : Operation Char := makeDelete 1 1 [] 2 0
    let z : Operation Char := makeInsert 2 ['y'] 3 0
    (documentAB.applyAll [z, y, x]).content = (documentAB.applyAll [x, y, z]).content := by
  intro x y z
  have h : Concurrent documentAB.content x y z :=
    ⟨by decide, by decide, by decide, by decide, by decide, by decide, by decide⟩
  have hw : documentAB.WindowExact := rfl
  refine (orders_agree_iff hw (by decide) (by decide) h (by decide)).mpr ?_ _ (by decide)
  intro x' y' z' hp
  have hP := perm_three
    (P := fun a b c => ∀ t ∈ [(a, b, c), (a, c, b), (b, a, c), (b, c, a), (c, a, b), (c, b, a)],
      ¬ Clashes t.2.2 t.1 t.2.1 ∧ ¬ Clears documentAB.content t.2.2 t.1 t.2.1)
    ?_ ?_ (by decide : ∀ t ∈ [(x, y, z), (x, z, y), (y, x, z), (y, z, x), (z, x, y), (z, y, x)],
      ¬ Clashes t.2.2 t.1 t.2.1 ∧ ¬ Clears documentAB.content t.2.2 t.1 t.2.1) hp
  · exact hP (x', y', z') List.mem_cons_self
  · intro a b c hall t ht
    refine hall t ?_
    simp only [List.mem_cons] at ht ⊢
    tauto
  · intro a b c hall t ht
    refine hall t ?_
    simp only [List.mem_cons] at ht ⊢
    tauto

/-- **The order of processing can matter.** User 1 inserts `y` behind the `B` that user 2 deletes and user 3
    inserts `x` in front of: `Axy` if the deletion comes second, `Ayx` if it comes first. -/
theorem orders_disagree :
    let x : Operation Char := makeInsert 1 ['x'] 3 0
    let y : Operation Char := makeDelete 1 1 [] 2 0
    let z : Operation Char := makeInsert 2 ['y'] 1 0
    Concurrent documentAB.content x y z ∧
      (documentAB.applyAll [x, y, z]).content ≠ (documentAB.applyAll [y, x, z]).content :=
  ⟨⟨by decide, by decide, by decide, by decide, by decide, by decide, by decide⟩, by decide⟩

end CollabEditor
