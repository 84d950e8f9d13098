import CollabEditor.Core.Operation
import CollabEditor.Lib.Word
import Mathlib.Tactic.SplitIfs

/-!
# `Core.Transform` — `transform` and `apply` of `ot.cpp`

The three pair transforms, their dispatcher, and the application of an operation to a document, as
`ot.cpp` computes them: positions and lengths wrap at 32 bits, the overlap of two deletions is a signed
32-bit difference, and `apply` clamps what reaches past the end.
-/

namespace CollabEditor

variable {α : Type}

/-- `transform_insert_insert`: the insertion further left (on a tie, of the smaller user id) stays. -/
def transformInsertInsert (a b : Operation α) : Operation α × Operation α :=
  if a.position < b.position then
    (a, { b with position := b.position + a.length })
  else if b.position < a.position then
    ({ a with position := a.position + b.length }, b)
  else if a.userId < b.userId then
    (a, { b with position := b.position + a.length })
  else if b.userId < a.userId then
    ({ a with position := a.position + b.length }, b)
  else
    (a, b)

/-- `transform_insert_delete`: an insertion strictly inside the deleted range is swallowed. -/
def transformInsertDelete (ins del : Operation α) : Operation α × Operation α :=
  if ins.position ≤ del.position then
    (ins, { del with position := del.position + ins.length })
  else if del.position + del.length ≤ ins.position then
    ({ ins with position := ins.position - del.length }, del)
  else
    ({ ins with position := del.position, text := [], length := 0 },
     { del with position := del.position, length := del.length + ins.length })

/-- The signed overlap of two deletions, as `transform_delete_delete` computes it. -/
def deleteOverlap (a b : Operation α) : Int32 :=
  let endA := a.position + a.length
  let endB := b.position + b.length
  let overlap := (min endA endB).toInt32 - (max a.position b.position).toInt32
  if overlap < 0 then 0 else overlap

/-- `transform_delete_delete`. -/
def transformDeleteDelete (a b : Operation α) : Operation α × Operation α :=
  let overlap := deleteOverlap a b
  if overlap = 0 then
    if a.position < b.position then
      (a, { b with position := b.position - a.length })
    else if b.position < a.position then
      ({ a with position := a.position - b.length }, b)
    else
      (a, b)
  else
    let minPos := min a.position b.position
    ({ a with position := minPos, length := a.length - overlap.toUInt32 },
     { b with position := minPos, length := b.length - overlap.toUInt32 })

/-- `transform`: the pair `(a', b')` such that `a'` applies after `b` and `b'` after `a`. -/
def transform (a b : Operation α) : Operation α × Operation α :=
  match a.type, b.type with
  | .insert, .insert => transformInsertInsert a b
  | .insert, .delete => transformInsertDelete a b
  | .delete, .insert =>
      let (insPrime, delPrime) := transformInsertDelete b a
      (delPrime, insPrime)
  | .delete, .delete => transformDeleteDelete a b

/-- `apply`: positions and lengths past the end of the document are clamped to it. -/
def apply (document : List α) (op : Operation α) : List α :=
  if op.isNoop then document
  else match op.type with
    | .insert =>
        let pos := (min op.position (UInt32.ofNat document.length)).toNat
        document.take pos ++ op.text ++ document.drop pos
    | .delete =>
        let pos := (min op.position (UInt32.ofNat document.length)).toNat
        let actualLen := (min op.length (UInt32.ofNat (document.length - pos))).toNat
        document.take pos ++ document.drop (pos + actualLen)

/-! ## The transform leaves alone what it does not shift -/

@[simp] theorem transform_type (a b : Operation α) : (transform a b).1.type = a.type := by
  simp only [transform, transformInsertInsert, transformInsertDelete, transformDeleteDelete]
  cases ha : a.type <;> cases hb : b.type <;> dsimp only <;> split_ifs <;> first | rfl | assumption

@[simp] theorem transform_userId (a b : Operation α) : (transform a b).1.userId = a.userId := by
  simp only [transform, transformInsertInsert, transformInsertDelete, transformDeleteDelete]
  cases a.type <;> cases b.type <;> dsimp only <;> split_ifs <;> rfl

theorem deleteOverlap_comm (a b : Operation α) : deleteOverlap b a = deleteOverlap a b := by
  simp only [deleteOverlap, Word.min_comm (b.position + b.length), Word.max_comm b.position]

/-- `transform` treats its two arguments alike. -/
theorem transform_swap (a b : Operation α) : (transform a b).2 = (transform b a).1 := by
  simp only [transform]
  cases a.type <;> cases b.type <;> dsimp only
  · -- equal positions and user ids leave both insertions unchanged, on either side
    have hpos : a.position < b.position → ¬ b.position < a.position := UInt32.lt_asymm
    have huser : a.userId < b.userId → ¬ b.userId < a.userId := UInt32.lt_asymm
    simp only [transformInsertInsert]
    split_ifs <;> first | rfl | (exfalso; tauto)
  · have hpos : a.position < b.position → ¬ b.position < a.position := UInt32.lt_asymm
    simp only [transformDeleteDelete, deleteOverlap_comm a b, Word.min_comm b.position]
    split_ifs <;> first | rfl | (exfalso; tauto)

end CollabEditor
