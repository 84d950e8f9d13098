import CollabEditor.Core.TransformSpec
import CollabEditor.Protocol.Messages

/-!
# `Protocol.Wire` — operations up to what travels

A client and the server hold different records of one operation: the client's keeps the text of a deletion
and the revision at which it was typed, the server's has neither. `Operation.wire` is what both agree on.
The transform commutes with it (`wire_xform`), so each end may transform its own record, and the range and
side conditions of `Core.TransformSpec` do not see the difference.
-/

namespace CollabEditor

open Diamond

variable {α : Type}

/-- What a receiver rebuilds from an operation's entry, up to the revision stamped on it. -/
def Operation.wire (op : Operation α) : Operation α := fromEntry (toEntry op) op.userId 0

theorem fromEntry_toEntry (op : Operation α) (u r : UInt32) :
    fromEntry (toEntry op) u r = { op.wire with userId := u, revision := r } := by
  unfold Operation.wire fromEntry toEntry
  cases op.type <;> rfl

theorem Operation.wire_insert {op : Operation α} (h : op.type = .insert) :
    op.wire = makeInsert op.position op.text op.userId 0 := by
  simp only [Operation.wire, toEntry, fromEntry, h, if_true]

theorem Operation.wire_delete {op : Operation α} (h : op.type = .delete) :
    op.wire = makeDelete op.position op.length [] op.userId 0 := by
  simp [Operation.wire, toEntry, fromEntry, h]

@[simp] theorem Operation.wire_type (op : Operation α) : op.wire.type = op.type := by
  cases h : op.type with
  | insert => rw [wire_insert h]; rfl
  | delete => rw [wire_delete h]; rfl

@[simp] theorem Operation.wire_userId (op : Operation α) : op.wire.userId = op.userId := by
  cases h : op.type with
  | insert => rw [wire_insert h]; rfl
  | delete => rw [wire_delete h]; rfl

@[simp] theorem Operation.wire_position (op : Operation α) : op.wire.position = op.position := by
  cases h : op.type with
  | insert => rw [wire_insert h]; rfl
  | delete => rw [wire_delete h]; rfl

theorem Operation.wire_length {op : Operation α} (hwf : op.WellFormed) : op.wire.length = op.length := by
  cases h : op.type with
  | insert => rw [wire_insert h, hwf h]; rfl
  | delete => rw [wire_delete h]; rfl

/-- The wire form forgets the text of a deletion and the revision, and nothing else. -/
theorem Operation.wire_eq {op : Operation α} (hwf : op.WellFormed) :
    op.wire = { op with text := if op.type = .insert then op.text else [], revision := 0 } := by
  cases h : op.type with
  | insert =>
      rw [wire_insert h, makeInsert, ← hwf h, ← h]
      simp
  | delete =>
      rw [wire_delete h, makeDelete, ← h]
      simp [h]

/-! ## The transform commutes with it -/

section Commute

variable {a b op : Operation α} {d : List α}

theorem deleteOverlap_wire (ha : a.WellFormed) (hb : b.WellFormed) :
    deleteOverlap a.wire b.wire = deleteOverlap a b := by
  simp only [deleteOverlap, Operation.wire_position, Operation.wire_length ha, Operation.wire_length hb]

theorem wellFormed_xform (ha : a.WellFormed) : (xform a b).WellFormed := transform_wellFormed b ha

theorem wire_xform (ha : a.WellFormed) (hb : b.WellFormed) :
    (xform a b).wire = xform a.wire b.wire := by
  rw [Operation.wire_eq (wellFormed_xform ha), Operation.wire_eq ha, Operation.wire_eq hb]
  cases hta : a.type <;> cases htb : b.type <;>
    simp only [xform, transform, hta, htb, transformInsertInsert, transformInsertDelete,
      transformDeleteDelete, deleteOverlap] <;>
    split_ifs <;> simp_all

@[simp] theorem xform_userId (a b : Operation α) : (xform a b).userId = a.userId := transform_userId a b

@[simp] theorem xform_type (a b : Operation α) : (xform a b).type = a.type := transform_type a b

theorem apply_wire (d : List α) (op : Operation α) : apply d op.wire = apply d op := by
  cases h : op.type with
  | insert => rw [Operation.wire_insert h]; simp [apply, Operation.isNoop, makeInsert, h]
  | delete => rw [Operation.wire_delete h]; simp [apply, Operation.isNoop, makeDelete, h]

theorem underflows_wire (ha : a.WellFormed) (hb : b.WellFormed) :
    Underflows a.wire b.wire ↔ Underflows a b := by
  simp only [Underflows, Operation.wire_type, Operation.wire_position, deleteOverlap_wire ha hb,
    Operation.wire_length hb]

theorem fine_wire (ha : a.WellFormed) (hb : b.WellFormed) : Fine d a.wire b.wire ↔ Fine d a b := by
  simp only [Fine, apply_wire, underflows_wire ha hb]

theorem inRange_wire (hwf : op.WellFormed) : InRange d op.wire ↔ InRange d op := by
  cases h : op.type with
  | insert =>
      rw [inRange_insert h, inRange_insert (by rw [op.wire_type, h]), Operation.wire_length hwf,
        Operation.wire_position, Operation.wire_insert h]
      rfl
  | delete =>
      rw [inRange_delete h, inRange_delete (by rw [op.wire_type, h]), Operation.wire_length hwf,
        Operation.wire_position]

end Commute

/-! ## Lists of operations -/

section Lists

variable {ops : List (Operation α)} {op : Operation α} {d : List α}

/-- Every operation of the list is as its constructor built it. -/
def AllWellFormed (ops : List (Operation α)) : Prop := ∀ op ∈ ops, op.WellFormed

theorem acts_wire (d : List α) (ops : List (Operation α)) :
    acts apply d (ops.map Operation.wire) = acts apply d ops := by
  induction ops generalizing d with
  | nil => rfl
  | cons op ops ih => rw [List.map_cons, acts_cons, acts_cons, apply_wire, ih]

theorem wellFormed_rebase (hop : op.WellFormed) (ops : List (Operation α)) :
    (rebase xform op ops).WellFormed := by
  induction ops generalizing op with
  | nil => exact hop
  | cons o ops ih => exact ih (wellFormed_xform hop)

theorem wire_rebase (hop : op.WellFormed) (hops : AllWellFormed ops) :
    (rebase xform op ops).wire = rebase xform op.wire (ops.map Operation.wire) := by
  induction ops generalizing op with
  | nil => rfl
  | cons o ops ih =>
      rw [List.map_cons, rebase_cons, rebase_cons, ← wire_xform hop (hops o List.mem_cons_self)]
      exact ih (wellFormed_xform hop) (fun o' ho' => hops o' (List.mem_cons_of_mem o ho'))

theorem wellFormed_evolve (hop : op.WellFormed) (hops : AllWellFormed ops) :
    AllWellFormed (evolve xform ops op).1 ∧ (evolve xform ops op).2.WellFormed := by
  induction ops generalizing op with
  | nil => exact ⟨fun _ h => absurd h List.not_mem_nil, hop⟩
  | cons o ops ih =>
      obtain ⟨h1, h2⟩ := @ih (xform op o) (wellFormed_xform hop)
        (fun o' ho' => hops o' (List.mem_cons_of_mem o ho'))
      refine ⟨?_, h2⟩
      intro o' ho'
      rcases List.mem_cons.mp ho' with rfl | hmem
      · exact wellFormed_xform (hops o List.mem_cons_self)
      · exact h1 o' hmem

theorem wire_evolve (hop : op.WellFormed) (hops : AllWellFormed ops) :
    (evolve xform ops op).1.map Operation.wire = (evolve xform (ops.map Operation.wire) op.wire).1 ∧
      (evolve xform ops op).2.wire = (evolve xform (ops.map Operation.wire) op.wire).2 := by
  induction ops generalizing op with
  | nil => exact ⟨rfl, rfl⟩
  | cons o ops ih =>
      have ho := hops o List.mem_cons_self
      obtain ⟨h1, h2⟩ := @ih (xform op o) (wellFormed_xform hop)
        (fun o' ho' => hops o' (List.mem_cons_of_mem o ho'))
      rw [wire_xform hop ho] at h1 h2
      refine ⟨?_, h2⟩
      simp only [evolve, List.map_cons]
      rw [wire_xform ho hop, h1]

theorem rebaseFine_wire (hop : op.WellFormed) (hops : AllWellFormed ops) :
    RebaseFine apply xform Fine d op.wire (ops.map Operation.wire) ↔
      RebaseFine apply xform Fine d op ops := by
  induction ops generalizing d op with
  | nil => rfl
  | cons o ops ih =>
      have ho := hops o List.mem_cons_self
      simp only [List.map_cons, RebaseFine, apply_wire, fine_wire hop ho, ← wire_xform hop ho,
        ih (wellFormed_xform hop) (fun o' ho' => hops o' (List.mem_cons_of_mem o ho'))]

theorem evolveFine_wire (hop : op.WellFormed) (hops : AllWellFormed ops) :
    EvolveFine apply xform Fine d (ops.map Operation.wire) op.wire ↔
      EvolveFine apply xform Fine d ops op := by
  induction ops generalizing d op with
  | nil => rfl
  | cons o ops ih =>
      have ho := hops o List.mem_cons_self
      simp only [List.map_cons, EvolveFine, apply_wire, fine_wire hop ho, fine_wire ho hop,
        ← wire_xform hop ho,
        ih (wellFormed_xform hop) (fun o' ho' => hops o' (List.mem_cons_of_mem o ho'))]

end Lists

end CollabEditor
