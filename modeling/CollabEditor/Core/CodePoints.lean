import CollabEditor.Core.TransformSpec
import CollabEditor.Lib.EditCuts
import CollabEditor.Lib.Utf8

/-!
# `Core.CodePoints` — operations that keep code points whole

The server edits bytes at positions that clients choose. `Whole` says of an operation that it is in range of a
text and tears none of its code points. The transform keeps that, so that an operation which was whole on the
content at its base is whole on the content that it is applied to.

## Contents
- **Operations.** `Whole`, `valid_apply`.
- **Laws.** `whole_laws`: with `Whole` for the range, the transform is an instance of `Lib.Diamond`.
-/

namespace CollabEditor

open Diamond

/-- In range of the text, and at the boundaries of code points. -/
def Whole (d : List UInt8) (op : Operation UInt8) : Prop := InRange d op ∧ op.toEdit.Aligned Utf8.Valid d

instance (d : List UInt8) (op : Operation UInt8) : Decidable (Whole d op) :=
  inferInstanceAs (Decidable (_ ∧ _))

theorem pieces_valid : Edit.Pieces Utf8.Valid where
  nil := Utf8.valid_nil
  append := Utf8.Valid.append
  cancel := Utf8.Valid.of_append

section Whole

variable {d : List UInt8} {a b op : Operation UInt8}

/-- **A whole operation** leaves valid UTF-8. -/
theorem valid_apply (hd : Utf8.Valid d) (h : Whole d op) (hsize : d.length < 2 ^ 32) : Utf8.Valid (apply d op) := by
  rw [apply_eq_act h.1 hsize]
  exact Edit.act_whole pieces_valid hd h.2

theorem xform_whole (ha : Whole d a) (hb : Whole d b) (hf : Fine d a b) : Whole (apply d b) (xform a b) := by
  refine ⟨transform_laws.closed ha.1 hb.1 hf, ?_⟩
  obtain ⟨hd, hdb, hn⟩ := hf
  rw [xform, transform_refines hd (by omega) ha.1 hb.1 hn, apply_eq_act hb.1 (by omega)]
  exact Edit.rebase_aligned pieces_valid ha.2 hb.2 (noUnderflow_toEdit hd ha.1 hb.1 hn)

/-- **The transform keeps code points whole.** -/
theorem whole_laws : Laws apply xform Operation.userId Whole Fine where
  site_xf := transform_laws.site_xf
  closed := xform_whole
  converge ha hb := transform_laws.converge ha.1 hb.1

end Whole

end CollabEditor
