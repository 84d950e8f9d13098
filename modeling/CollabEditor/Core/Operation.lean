import Mathlib.Data.List.Basic

/-!
# `Core.Operation` — the edit operation exchanged by clients and server

`Operation` is the record of `collab/operation.h`. The byte type is a parameter `α`: the program uses it
at `UInt8` only, but nothing in the editor's core looks at a byte, so a run over tagged bytes
(`UInt8 × ℕ`) is a run of the same code, and a statement about the identity of bytes can be made on it.

The integer fields are `uint32_t` in the source and `UInt32` here, with the same wrap-around.
-/

namespace CollabEditor

/-- `Operation::Type`. -/
inductive OpType where
  | insert
  | delete
  deriving DecidableEq, Repr

/-- `collab::Operation`. -/
structure Operation (α : Type) where
  type     : OpType
  position : UInt32
  text     : List α
  length   : UInt32
  userId   : UInt32
  revision : UInt32
  deriving DecidableEq, Repr

variable {α : Type}

/-- `Operation::is_noop`: an insertion of nothing or a deletion of nothing. -/
def Operation.isNoop (op : Operation α) : Bool :=
  match op.type with
  | .insert => op.text.isEmpty
  | .delete => op.length == 0

/-- `make_insert`: the length field is the size of the text, cast to 32 bits. -/
def makeInsert (pos : UInt32) (text : List α) (userId rev : UInt32) : Operation α :=
  { type := .insert, position := pos, text := text, length := UInt32.ofNat text.length,
    userId := userId, revision := rev }

/-- `make_delete`. -/
def makeDelete (pos length : UInt32) (text : List α) (userId rev : UInt32) : Operation α :=
  { type := .delete, position := pos, text := text, length := length,
    userId := userId, revision := rev }

namespace Operation

/-- The length field of an insertion is the size of its text. `makeInsert` and `makeDelete` build only
    such operations, and they are the only constructors the program uses. -/
def WellFormed (op : Operation α) : Prop :=
  op.type = .insert → op.length = UInt32.ofNat op.text.length

instance (op : Operation α) : Decidable op.WellFormed :=
  inferInstanceAs (Decidable (_ → _))

theorem wellFormed_makeInsert (pos : UInt32) (text : List α) (u r : UInt32) :
    (makeInsert pos text u r).WellFormed := fun _ => rfl

theorem wellFormed_makeDelete (pos len : UInt32) (text : List α) (u r : UInt32) :
    (makeDelete pos len text u r).WellFormed := by
  intro h; cases h

end Operation

end CollabEditor
