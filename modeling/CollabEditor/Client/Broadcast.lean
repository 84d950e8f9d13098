import CollabEditor.Client.OTController

/-!
# `Client.Broadcast` — the broadcast loop over a buffer of any length

`handleBroadcast` carries the remote operation across the pending operation and the buffer, and rewrites each
of them. Both orders should give the same document: the outstanding operations and then the evolved remote
one, or the remote one and then the rewritten outstanding ones.

One diamond is closed by `transform_diamond`, underflow included. What an underflow leaves is an empty deletion
at a position that has wrapped below zero, and such an operation is not in range for the next diamond:
insertions pass it by, but a deletion sees an overlap with it.

## Contents
- **The condition.** `Harmless`: no deletion is outstanding after one that the remote operation underflows
  against.
- **The loop.** `evolve_agrees`, by induction over the outstanding operations.
- **The slot.** `broadcast_agrees`; `broadcast_disagrees`, where the wrapped deletion meets further ones.
-/

namespace CollabEditor

open Diamond

variable {α : Type}

/-- Where the remote operation underflows against an outstanding one, only insertions are outstanding after
    that. -/
def Harmless : List (Operation α) → Operation α → Prop
  | [], _      => True
  | a :: as, b => if Underflows b a then ∀ a' ∈ as, a'.type = .insert else Harmless as (xform b a)

instance Harmless.decidable : (as : List (Operation α)) → (b : Operation α) → Decidable (Harmless as b)
  | [], _      => isTrue trivial
  | a :: as, b =>
      have := Harmless.decidable as (xform b a)
      inferInstanceAs (Decidable (if Underflows b a then _ else _))

/-- An empty deletion, at any position, and an insertion leave each other as they are. -/
theorem xform_empty_insert {a b : Operation α} (ha : a.type = .insert) (hb : b.type = .delete)
    (hlen : b.length = 0) : xform a b = a ∧ (xform b a).type = .delete ∧ (xform b a).length = 0 := by
  -- the range of an empty deletion has no inside
  have hright : ¬ a.position ≤ b.position → b.position + 0 ≤ a.position := by
    intro h
    rw [UInt32.add_zero]
    exact (UInt32.le_total a.position b.position).resolve_left h
  refine ⟨?_, by rw [xform, transform_type, hb], ?_⟩
  · simp only [xform, transform, ha, hb, transformInsertDelete, hlen]
    split_ifs with h h'
    · rfl
    · rw [UInt32.sub_zero, ← ha]
    · exact absurd (hright h) h'
  · simp only [xform, transform, ha, hb, transformInsertDelete, hlen]
    split_ifs with h h'
    · rfl
    · exact hlen
    · exact absurd (hright h) h'

/-- An empty deletion passes insertions by. -/
theorem evolve_empty {as : List (Operation α)} {b : Operation α} (has : ∀ a ∈ as, a.type = .insert)
    (hb : b.type = .delete) (hlen : b.length = 0) :
    (evolve xform as b).1 = as ∧ (evolve xform as b).2.isNoop = true := by
  induction as generalizing b with
  | nil => exact ⟨rfl, by simp [Operation.isNoop, hb, hlen]⟩
  | cons a as ih =>
      obtain ⟨ha, hb', hlen'⟩ := xform_empty_insert (has a List.mem_cons_self) hb hlen
      obtain ⟨hlist, hnoop⟩ := ih (fun a' ha' => has a' (List.mem_cons_of_mem a ha')) hb' hlen'
      refine ⟨?_, hnoop⟩
      show xform a b :: (evolve xform as (xform b a)).1 = a :: as
      rw [ha, hlist]

/-- The document, and what the remote operation makes of it, stay below `2^31` bytes. -/
def Small (d : List α) (_ b : Operation α) : Prop := d.length < 2 ^ 31 ∧ (apply d b).length < 2 ^ 31

instance (d : List α) (a b : Operation α) : Decidable (Small d a b) :=
  inferInstanceAs (Decidable (_ ∧ _))

/-- **The broadcast loop closes the big diamond**, where the underflow is harmless. -/
theorem evolve_agrees {as : List (Operation α)} {d : List α} {b : Operation α}
    (has : ChainOk apply InRange d as) (hb : InRange d b) (hsize : EvolveFine apply xform Small d as b)
    (hsite : ∀ a ∈ as, a.userId ≠ b.userId) (hh : Harmless as b) :
    acts apply (apply d b) (evolve xform as b).1 = apply (acts apply d as) (evolve xform as b).2 := by
  induction as generalizing d b with
  | nil => rfl
  | cons a as ih =>
      obtain ⟨ha, has⟩ := has
      obtain ⟨⟨hd, hdb⟩, ⟨-, hda⟩, hsize⟩ := hsize
      have hne := hsite a List.mem_cons_self
      have hcomm := transform_diamond hd hda hdb ha hb hne
      rw [Harmless] at hh
      by_cases hu : Underflows b a
      · -- `b` was empty already: nothing is rewritten any more, and `b` stays empty
        rw [if_pos hu] at hh
        obtain ⟨hnoop, hnoop', hkeep⟩ := transform_underflow hd hb ha hu
        have hdel : (xform b a).type = .delete := by rw [xform, transform_type, hu.1]
        have hlen : (xform b a).length = 0 := by
          change (xform b a).isNoop = true at hnoop'
          rw [Operation.isNoop, hdel] at hnoop'
          exact eq_of_beq hnoop'
        obtain ⟨hlist, hlast⟩ := evolve_empty hh hdel hlen
        show acts apply (apply d b) (xform a b :: (evolve xform as (xform b a)).1) = _
        rw [hlist, xform, hkeep, apply_noop hnoop]
        exact (apply_noop hlast).symm
      · rw [if_neg hu] at hh
        have hb' := transform_inRange hd hda hb ha hu
        have hsite' : ∀ a' ∈ as, a'.userId ≠ (xform b a).userId := by
          intro a' ha'
          rw [xform, transform_userId]
          exact hsite a' (List.mem_cons_of_mem a ha')
        calc acts apply (apply d b) (evolve xform (a :: as) b).1
            = acts apply (apply (apply d b) (xform a b)) (evolve xform as (xform b a)).1 := rfl
          _ = acts apply (apply (apply d a) (xform b a)) (evolve xform as (xform b a)).1 := by
              rw [xform, hcomm]; rfl
          _ = apply (acts apply (apply d a) as) (evolve xform as (xform b a)).2 :=
              ih has hb' hsize hsite' hh

/-! ## The slot -/

/-- The controller is at the end of its outstanding operations: they are in range one after another from
    `s` on, and the local document is what they leave. -/
structure Outstanding (s : List α) (c : OTController α) : Prop where
  consistent : c.Consistent
  inRange    : ChainOk apply InRange s c.outstanding
  own        : ∀ a ∈ c.outstanding, a.userId = c.userId
  content    : c.doc.content = acts apply s c.outstanding

/-- **The broadcast loop of the client.** From any base and over any outstanding operations, the document
    after a broadcast is the base with the remote operation and then the rewritten outstanding ones. -/
theorem broadcast_agrees {s : List α} {c : OTController α} (hc : Outstanding s c)
    {msg : OperationBroadcastMsg α} {entry : OpEntry α} (hu : msg.userId ≠ c.userId)
    (hops : msg.ops = [entry]) (hb : InRange s (fromEntry entry msg.userId msg.revision))
    (hsize : EvolveFine apply xform Small s c.outstanding (fromEntry entry msg.userId msg.revision))
    (hh : Harmless c.outstanding (fromEntry entry msg.userId msg.revision)) :
    ∃ c' effects, c.handleBroadcast msg = some (c', effects) ∧
      c'.doc.content =
        acts apply (apply s (fromEntry entry msg.userId msg.revision)) c'.outstanding := by
  obtain ⟨c', effects, heq, -, -, -, -, hdoc, hout, -⟩ := c.handleBroadcast_spec hc.consistent hu hops
  refine ⟨c', effects, heq, ?_⟩
  have hsite : ∀ a ∈ c.outstanding, a.userId ≠ (fromEntry entry msg.userId msg.revision).userId := by
    intro a ha
    rw [hc.own a ha, userId_fromEntry]
    exact hu.symm
  rw [hdoc, hout, hc.content]
  exact (evolve_agrees hc.inRange hb hsize hsite hh).symm

/-- User 1 has deleted `CDE` of `ABCDE`, and then typed a letter in front and deleted it. -/
def typist : OTController Char where
  userId := 1
  docId := 7
  doc := { content := "AB".toList, revision := 4 }
  revision := 4
  state := .awaitingAckWithBuffer
  pendingOp := some (makeDelete 2 3 [] 1 4)
  buffer := [makeInsert 0 ['x'] 1 4, makeDelete 0 1 [] 1 4]

/-- An insertion by user 2 at the end of `ABCDE`. -/
def appended : OperationBroadcastMsg Char :=
  { docId := 7, revision := 5, userId := 2, username := "bob"
    ops := [{ op := "insert", pos := 5, text := ['!'] }] }

theorem outstanding_typist : Outstanding "ABCDE".toList typist where
  consistent := .awaitingAckWithBuffer _ _ _ rfl rfl rfl
  inRange := by decide
  own := by decide
  content := by decide

theorem broadcast_agrees_typist :
    ∃ c' effects, typist.handleBroadcast appended = some (c', effects) ∧
      c'.doc.content = acts apply "ABCDE!".toList c'.outstanding := by
  have hother : appended.userId ≠ typist.userId := by decide
  exact broadcast_agrees outstanding_typist hother rfl (by decide) (by decide) (by decide)

/-- User 1 has deleted `ABC` and then `D` of `ABCDE`, and typed `xy` after the `E`. -/
def deleter : OTController Char where
  userId := 1
  docId := 7
  doc := { content := "Exy".toList, revision := 4 }
  revision := 4
  state := .awaitingAckWithBuffer
  pendingOp := some (makeDelete 0 3 [] 1 4)
  buffer := [makeDelete 0 1 [] 1 4, makeInsert 1 ['x', 'y'] 1 4]

/-- An empty deletion by user 2, inside `ABC`. -/
def emptied : OperationBroadcastMsg Char :=
  { docId := 7, revision := 5, userId := 2, username := "bob"
    ops := [{ op := "delete", pos := 2, len := 0 }] }

/-- The empty deletion underflows against the first deletion, the second one is taken to overlap it, and its
    rewritten length wraps: the client keeps `Exy` while the rewritten operations delete everything. -/
theorem broadcast_disagrees :
    Outstanding "ABCDE".toList deleter ∧
      InRange "ABCDE".toList (makeDelete (α := Char) 2 0 [] 2 5) ∧
      EvolveFine apply xform Small "ABCDE".toList deleter.outstanding (makeDelete 2 0 [] 2 5) ∧
      ∃ c' effects, deleter.handleBroadcast emptied = some (c', effects) ∧
        c'.doc.content = "Exy".toList ∧
        acts apply (apply "ABCDE".toList (makeDelete 2 0 [] 2 5)) c'.outstanding = [] :=
  ⟨⟨.awaitingAckWithBuffer _ _ _ rfl rfl rfl, by decide, by decide, by decide⟩, by decide, by decide,
    _, _, rfl, by decide, by decide⟩

end CollabEditor
