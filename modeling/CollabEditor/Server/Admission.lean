import CollabEditor.Core.DeletedRange
import CollabEditor.Core.ServerOrder
import CollabEditor.Protocol.Json

/-!
# `Server.Admission` — which operations enter the history

`handle_operation` looks at who sends an operation and at how many come in one message. What an entry says is
taken as it is: any kind but `"insert"` is a deletion (of nothing, for a kind that the decoder does not know), any
position and length are kept, and so is a revision that the document has not reached. `apply_with_ot` refuses a
revision that is too old, and stores and broadcasts the rest; only `apply` clamps, and only what it does to the
content.

## Contents
- **Submissions.** `Submission`, `Recorded.submit`.
- **The property.** `Meaningful`.
- **The condition.** `Sensible`, on the submission and the document before it; `faithful_submit`.
- **Runs.** `stored_meaningful`; `stored_meaningless`, for an unknown kind and for a revision to come.
-/

namespace CollabEditor

open Diamond

variable {α : Type}

/-- One entry of an operation message that `handle_operation` lets through. -/
structure Submission (α : Type) where
  userId   : UInt32
  revision : UInt32
  entry    : OpEntry α
  deriving DecidableEq, Repr

/-- The operation that is enqueued for it. -/
def Submission.operation (s : Submission α) : Operation α := fromEntry s.entry s.userId s.revision

namespace Recorded

/-- The document thread gets to the submission. -/
def submit (t : Recorded α) (s : Submission α) : Option (Recorded α) := t.step s.operation

/-- If the submission is stored, it was an insertion or a deletion, based on a revision that the document has
    reached, and what is stored (and broadcast) is in range of the content it is applied to. -/
def Meaningful (t : Recorded α) (s : Submission α) : Prop :=
  ∀ doc' op', t.doc.applyWithOt s.operation = (doc', .ok op') →
    (s.entry.op = "insert" ∨ s.entry.op = "delete") ∧ s.revision ≤ t.doc.revision ∧
      op'.toEdit.InRange t.doc.content

/-- The submission is too old; or it is an insertion or a deletion, based in the window and in range of the
    content at its base, no transform of it underflows, the content stays below `2^31` bytes and the counter
    does not wrap. -/
def Sensible (t : Recorded α) (s : Submission α) : Prop :=
  (0 < t.doc.revision ∧ s.revision < t.doc.oldestRevision) ∨
    (s.entry.op = "insert" ∨ s.entry.op = "delete") ∧ t.doc.InWindow s.revision ∧
      InRange (t.contentAt s.revision) s.operation ∧ t.NoWrap s.operation ∧
      t.doc.content.length + s.entry.text.length < 2 ^ 31

instance (t : Recorded α) (s : Submission α) : Decidable (t.Sensible s) :=
  inferInstanceAs (Decidable (_ ∨ _))

section Submit

variable {doc₀ : Document α} {t t' : Recorded α} {s : Submission α}

theorem revision_operation (s : Submission α) : s.operation.revision = s.revision := revision_fromEntry _ _ _

/-- A submission that is too old changes nothing. -/
theorem applyWithOt_tooOld (h : 0 < t.doc.revision ∧ s.revision < t.doc.oldestRevision) :
    t.doc.applyWithOt s.operation = (t.doc, .error "revision_too_old") := by
  unfold Document.applyWithOt
  rw [revision_operation, if_pos h]

theorem submit_tooOld (h : 0 < t.doc.revision ∧ s.revision < t.doc.oldestRevision) : t.submit s = some t := by
  simp only [submit, step, applyWithOt_tooOld h]

theorem added_operation_le (s : Submission α) : s.operation.added ≤ s.entry.text.length := by
  unfold Submission.operation fromEntry
  split_ifs
  · exact Nat.le_refl _
  · exact Nat.zero_le _

theorem added_rebase_le (op : Operation α) (hs : List (Operation α)) : (rebase xform op hs).added ≤ op.added := by
  induction hs generalizing op with
  | nil => exact Nat.le_refl _
  | cons h hs ih => exact Nat.le_trans (ih _) (added_xform_le op h)

/-- A sensible submission that is not too old is admissible: the content that it leaves is not too large. -/
theorem Faithful.admissible (h : Faithful doc₀ t) (hw : t.doc.InWindow s.revision)
    (hin : InRange (t.contentAt s.revision) s.operation) (hn : t.NoWrap s.operation)
    (hsize : t.doc.content.length + s.operation.added < 2 ^ 31) : t.Admissible s.operation := by
  rw [← revision_operation s] at hw hin
  obtain ⟨doc', op', heq, hop', hok, hc, -⟩ := h.accepts hw hin hn
  refine ⟨hw, hin, by omega, ?_⟩
  rw [heq, hc]
  have hlength := length_apply_le hok (by omega)
  have hadded := added_rebase_le s.operation (t.stored.drop s.operation.revision.toNat)
  rw [← hop'] at hadded
  omega

/-- **One submission** that is sensible keeps the record faithful. -/
theorem faithful_submit (h : Faithful doc₀ t) (hs : t.Sensible s) (hstep : t.submit s = some t') :
    Faithful doc₀ t' := by
  rcases hs with hold | ⟨-, hw, hin, hn, hsize⟩
  · rw [submit_tooOld hold] at hstep
    cases hstep
    exact h
  · have htext := added_operation_le s
    exact step_faithful h (h.admissible hw hin hn (by omega)) hn hstep

/-- What a sensible submission stores is meaningful. -/
theorem Faithful.meaningful (h : Faithful doc₀ t) (hs : t.Sensible s) : t.Meaningful s := by
  intro doc' op' happ
  rcases hs with hold | ⟨hkind, hw, hin, hn, hsize⟩
  · rw [applyWithOt_tooOld hold] at happ
    cases happ
  · refine ⟨hkind, UInt32.le_iff_toNat_le.mpr hw.2, ?_⟩
    rw [← revision_operation s] at hw hin
    obtain ⟨doc'', op'', heq, -, hok, -⟩ := h.accepts hw hin hn
    rw [heq] at happ
    cases happ
    exact hok.2

end Submit

/-- **Only meaningful operations enter the history** in every run whose submissions are sensible, and the stored
    operations are in range one after another, from the initial content on. -/
theorem stored_meaningful {id : UInt32} {title : String} {content : List α} {limit : UInt32}
    {subs : List (Submission α)} {t : Recorded α} (hsize : content.length < 2 ^ 31)
    (hr : Machine.run submit (start id title content limit) subs = some t)
    (hok : Machine.Along submit Sensible (start id title content limit) subs) :
    Machine.Along submit Meaningful (start id title content limit) subs ∧
      ChainOk apply (fun d op => op.toEdit.InRange d) content t.stored := by
  have hstart := start_faithful id title content limit hsize
  have hstep : ∀ (t : Recorded α) s t', Faithful (start id title content limit).doc t → t.Sensible s →
      t.submit s = some t' → Faithful (start id title content limit).doc t' := fun _ _ _ => faithful_submit
  constructor
  · exact Machine.along_of_invariant hstep (fun _ _ h hs => h.meaningful hs) hstart hok
  · have hfaith := Machine.run_invariant hstep hstart hok hr
    exact hfaith.chain.mono fun _ _ h => h.2

/-- `HELLO`, into which user 2 has typed before user 1's deletion of `ELL` arrives; then a stale insertion is
    refused. -/
def sensibleRun : List (Submission Char) :=
  [{ userId := 2, revision := 0, entry := { op := "insert", pos := 2, text := "XY".toList } },
    { userId := 1, revision := 0, entry := { op := "delete", pos := 1, len := 3 } },
    { userId := 2, revision := 0, entry := { op := "insert", pos := 9, text := "Z".toList } }]

theorem stored_meaningful_hello :
    ∃ t, Machine.run submit (start 1 "t" "HELLO".toList 1) sensibleRun = some t ∧
      Machine.Along submit Meaningful (start 1 "t" "HELLO".toList 1) sensibleRun ∧
      ChainOk apply (fun d op => op.toEdit.InRange d) "HELLO".toList t.stored :=
  ⟨_, rfl, stored_meaningful (by decide) rfl (by decide)⟩

/-- An entry of a kind that `from_json` lets pass, far outside an empty document; and an insertion behind the end
    of `AB` that is based on a revision to come. -/
def unknownKind : Json := .object [("op", .string "move"), ("pos", .number 7)]

def futureInsertion : Submission UInt8 :=
  { userId := 1, revision := 5, entry := { op := "insert", pos := 9, text := [120] } }

/-- **Meaningless operations are stored.** The first is recorded (and broadcast) as a deletion at position 7 of
    the empty document; the second as an insertion at position 9, where `apply` has put it at position 2. -/
theorem stored_meaningless :
    (∃ entry, OpEntry.fromJson unknownKind = .ok entry ∧ entry.op = "move" ∧
      ∃ t, (start 1 "t" ([] : List UInt8) 10000).submit ⟨1, 0, entry⟩ = some t ∧
        t.doc.history = [makeDelete 7 0 [] 1 0] ∧
        ¬ (start 1 "t" ([] : List UInt8) 10000).Meaningful ⟨1, 0, entry⟩) ∧
    ∃ t, (start 1 "t" [65, 66] 10000).submit futureInsertion = some t ∧
      t.doc.history = [makeInsert 9 [120] 1 5] ∧ t.doc.content = [65, 66, 120] ∧
      ¬ (start 1 "t" [65, 66] 10000).Meaningful futureInsertion := by
  refine ⟨⟨{ op := "move", pos := 7 }, rfl, rfl, _, rfl, rfl, fun h => ?_⟩, _, rfl, rfl, rfl, fun h => ?_⟩
  · exact absurd (h _ _ rfl).1 (by decide)
  · exact absurd (h _ _ rfl).2.1 (by decide)

end Recorded

end CollabEditor
