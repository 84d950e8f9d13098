import CollabEditor.Core.Document
import CollabEditor.Lib.Machine

/-!
# `Core.Window` — the retained history window

`Recorded` is a `Document` together with what it forgets: its content at every revision and every operation
it stored. Against that record the index arithmetic of `apply_with_ot` can be stated: the deque `history_`
is the tail of the record that starts at `oldest_revision_`, under limits changed at run time.

## Contents
- **The record.** `Recorded`, `Recorded.step`.
- **The invariant.** `Kept`: the record and the document agree. It is preserved by every accepted operation
  (`Kept.snoc`), whatever the base revision the operation claims.
- **Calls.** `DocumentCall`, `Recorded.perform`, and over their runs `retained_window`.
-/

namespace CollabEditor

open Diamond

variable {α : Type}

/-- A document with the record of its past: the content at every revision and the stored operations. -/
structure Recorded (α : Type) where
  doc      : Document α
  contents : List (List α)
  stored   : List (Operation α)

namespace Recorded

/-- A new document with some initial content and history limit. -/
def start (id : UInt32) (title : String) (content : List α) (limit : UInt32) : Recorded α where
  doc := ((Document.create id title).setContent content).setHistoryLimit limit
  contents := [content]
  stored := []

/-- One call of `apply_with_ot`. -/
def step (t : Recorded α) (op : Operation α) : Option (Recorded α) :=
  match t.doc.applyWithOt op with
  | (doc, .ok op')   => some ⟨doc, t.contents ++ [doc.content], t.stored ++ [op']⟩
  | (doc, .error _)  => some { t with doc := doc }

/-- The content at a revision. -/
def contentAt (t : Recorded α) (r : UInt32) : List α := (t.contents[r.toNat]?).getD []

/-- The document follows the stored operations from `doc₀`, a document without a past, and the contents are
    the ones it went through. -/
structure Kept (doc₀ : Document α) (t : Recorded α) : Prop where
  zero     : doc₀.revision = 0
  follows  : doc₀.Follows t.stored t.doc
  contents : ∀ k, k ≤ t.stored.length → t.contents[k]? = some (acts apply doc₀.content (t.stored.take k))
  length   : t.contents.length = t.stored.length + 1

section Kept

variable {doc₀ : Document α} {t : Recorded α} {op op' : Operation α} {doc' : Document α}

theorem Kept.of_document {doc : Document α} (hz : doc.revision = 0) (hw : doc.WindowExact) :
    Kept doc ⟨doc, [doc.content], []⟩ where
  zero := hz
  follows := Document.Follows.refl hw
  contents := by
    intro k hk
    obtain rfl : k = 0 := by simpa using hk
    rfl
  length := rfl

theorem Kept.revision_eq (h : Kept doc₀ t) : t.doc.revision.toNat = t.stored.length := by
  rw [h.follows.revision, h.zero, UInt32.toNat_zero, Nat.zero_add]

theorem Kept.contentAt_eq (h : Kept doc₀ t) {r : UInt32} (hr : r.toNat ≤ t.stored.length) :
    t.contentAt r = acts apply doc₀.content (t.stored.take r.toNat) := by
  rw [contentAt, h.contents _ hr, Option.getD_some]

theorem Kept.since_eq (h : Kept doc₀ t) {r : UInt32} (hw : t.doc.InWindow r) :
    t.doc.since r = t.stored.drop r.toNat :=
  h.follows.since_eq (by rw [h.zero, UInt32.toNat_zero, Nat.zero_add]) hw.1

/-- **An accepted operation** extends the record, whatever it has been transformed into. -/
theorem Kept.snoc (h : Kept doc₀ t) (happ : t.doc.applyWithOt op = (doc', .ok op'))
    (hmax : t.doc.revision.toNat + 1 < 2 ^ 32) :
    Kept doc₀ ⟨doc', t.contents ++ [doc'.content], t.stored ++ [op']⟩ := by
  obtain ⟨hfol, _⟩ := h.follows.stored happ hmax
  refine ⟨h.zero, hfol, ?_, by simp [h.length]⟩
  intro k hk
  show (t.contents ++ [doc'.content])[k]? = some (acts apply doc₀.content ((t.stored ++ [op']).take k))
  rw [List.length_append, List.length_singleton] at hk
  rcases Nat.lt_or_ge k (t.stored.length + 1) with hlt | hge
  · rw [List.getElem?_append_left (by rw [h.length]; exact hlt), h.contents k (by omega),
      List.take_append_of_le_length (by omega)]
  · obtain rfl : k = t.stored.length + 1 := by omega
    rw [← h.length, List.getElem?_concat_length, h.length, List.take_of_length_le (by simp), hfol.content]

end Kept

end Recorded

/-! ## Calls on a document -/

/-- A call on a document. -/
inductive DocumentCall (α : Type) where
  | applyWithOt (op : Operation α)
  | setHistoryLimit (limit : UInt32)
  | loadContent (content : List α)

namespace Recorded

/-- A document as its constructor leaves it. -/
def fresh (id : UInt32) (title : String) : Recorded α := ⟨Document.create id title, [[]], []⟩

/-- A call; content is loaded only before the first operation. -/
def perform (t : Recorded α) : DocumentCall α → Option (Recorded α)
  | .applyWithOt op        => t.step op
  | .setHistoryLimit limit => some { t with doc := t.doc.setHistoryLimit limit }
  | .loadContent content   =>
      if t.stored.isEmpty then some ⟨t.doc.loadContent content, [content], []⟩ else none

/-- Before the counter has run through all its values the document agrees with its record. -/
def Windowed (t : Recorded α) : Prop := t.stored.length < 2 ^ 32 → ∃ doc₀ : Document α, Kept doc₀ t

/-- **What one call preserves.** -/
theorem windowed_perform (t : Recorded α) (call : DocumentCall α) (t' : Recorded α) (h : t.Windowed)
    (hs : t.perform call = some t') : t'.Windowed := by
  intro hfew
  cases call with
  | applyWithOt op =>
      simp only [perform, step] at hs
      split at hs
      next doc' op' happ =>
        cases hs
        rw [List.length_append, List.length_singleton] at hfew
        obtain ⟨doc₀, hk⟩ := h (by omega)
        exact ⟨doc₀, hk.snoc happ (by rw [hk.revision_eq]; exact hfew)⟩
      next doc' _ happ =>
        cases hs
        obtain ⟨doc₀, hk⟩ := h hfew
        rcases t.doc.applyWithOt_cases op with ⟨_, _, heq⟩ | ⟨_, _, heq, _⟩
        · rw [heq] at happ
          cases happ
          exact ⟨doc₀, hk⟩
        · rw [heq] at happ
          cases happ
  | setHistoryLimit limit =>
      cases hs
      obtain ⟨doc₀, hk⟩ := h hfew
      -- the limit takes effect at the next operation only
      refine ⟨doc₀, hk.zero, ?_, hk.contents, hk.length⟩
      exact ⟨hk.follows.base, hk.follows.content, hk.follows.revision, hk.follows.window, hk.follows.oldest,
        hk.follows.history⟩
  | loadContent content =>
      simp only [perform] at hs
      split at hs
      next hempty =>
        cases hs
        have hnil : t.stored = [] := List.isEmpty_iff.mp hempty
        obtain ⟨doc₀, hk⟩ := h (by rw [hnil]; exact Nat.two_pow_pos 32)
        have hzero : t.doc.revision = 0 := by
          apply UInt32.toNat_inj.mp
          rw [hk.revision_eq, hnil]
          rfl
        have hwindow : (t.doc.loadContent content).WindowExact := hk.follows.window
        exact ⟨_, Kept.of_document hzero hwindow⟩
      next => cases hs

theorem run_windowed {id : UInt32} {title : String} {calls : List (DocumentCall α)} {t : Recorded α}
    (hr : Machine.run perform (fresh id title) calls = some t) : t.Windowed := by
  refine Machine.run_preserves windowed_perform ?_ hr
  intro _
  exact ⟨Document.create id title, Kept.of_document rfl rfl⟩

/-- **The retained history window is exact.** In every document reached from construction by operations,
    changes of the limit and loads before the first operation, with fewer than `2^32` operations stored: the
    counters and the length of the history agree; the history leads from the content at the oldest retained
    revision to the current one; a further operation is either rejected, which leaves the document as it is,
    or leaves a history within the limit; and one based in the window is accepted and has been transformed
    against the operations stored at its base revision and since, each once and in order. -/
theorem retained_window {id : UInt32} {title : String} {calls : List (DocumentCall α)} {t : Recorded α}
    (hr : Machine.run perform (fresh id title) calls = some t) (hfew : t.stored.length < 2 ^ 32) :
    (t.doc.revision.toNat = t.doc.oldestRevision.toNat + t.doc.history.length ∧
      t.doc.revision.toNat = t.stored.length) ∧
    acts apply (t.contentAt t.doc.oldestRevision) t.doc.history = t.doc.content ∧
    (∀ op doc' error, t.doc.applyWithOt op = (doc', .error error) → doc' = t.doc) ∧
    (∀ op doc' op', t.doc.applyWithOt op = (doc', .ok op') →
      doc'.history.length ≤ doc'.historyLimit.toNat) ∧
    ∀ op, t.doc.oldestRevision ≤ op.revision → op.revision ≤ t.doc.revision →
      (t.doc.applyWithOt op).2 = .ok (rebase xform op (t.stored.drop op.revision.toNat)) := by
  obtain ⟨doc₀, hk⟩ := run_windowed hr hfew
  have hwin := hk.follows.window
  have hrev := hk.revision_eq
  refine ⟨⟨hwin, hrev⟩, ?_, ?_, ?_, ?_⟩
  · -- the history is what the record holds from the oldest retained revision on
    have hold : t.doc.oldestRevision.toNat ≤ t.stored.length := by
      unfold Document.WindowExact at hwin
      omega
    have hhist : t.doc.history = t.stored.drop t.doc.oldestRevision.toNat := by
      have hsince := hk.since_eq (r := t.doc.oldestRevision) ⟨le_rfl, by omega⟩
      rwa [Document.since, Nat.sub_self, List.drop_zero] at hsince
    rw [hk.contentAt_eq hold, hhist, ← acts_append, List.take_append_drop, hk.follows.content]
  · intro op doc' error happ
    rcases t.doc.applyWithOt_cases op with ⟨_, _, heq⟩ | ⟨_, _, heq, _⟩
    · rw [heq] at happ
      cases happ
      rfl
    · rw [heq] at happ
      cases happ
  · intro op doc' op' happ
    rcases t.doc.applyWithOt_cases op with ⟨_, _, heq⟩ | ⟨_, _, heq, _, _, _, _, hl, _, _, _, ht⟩
    · rw [heq] at happ
      cases happ
    · rw [heq] at happ
      cases happ
      obtain ⟨k, _, hhist, _, hkept⟩ := Document.trimHistory_spec t.doc.historyLimit
        (t.doc.history ++ [op']) t.doc.oldestRevision
      rw [← ht] at hhist
      rw [show doc'.history = (t.doc.history ++ [op']).drop k from hhist, List.length_drop, hkept, hl]
      exact Nat.min_le_right _ _
  · intro op hlow hhigh
    have hw : t.doc.InWindow op.revision :=
      ⟨UInt32.le_iff_toNat_le.mp hlow, UInt32.le_iff_toNat_le.mp hhigh⟩
    rcases t.doc.applyWithOt_cases op with ⟨_, hlt, _⟩ | ⟨_, op', heq, hop, _⟩
    · exact absurd (UInt32.lt_iff_toNat_lt.mp hlt) (Nat.not_lt.mpr hw.1)
    · rw [heq, ← hk.since_eq hw, ← hk.follows.window.loop_eq hw, ← hop]

/-- `ABC` is loaded and edited five times, under a limit of three entries that drops to none at the end. -/
def ringCalls : List (DocumentCall Char) :=
  [.loadContent "ABC".toList, .setHistoryLimit 3, .applyWithOt (makeInsert 0 ['X'] 1 0),
    .applyWithOt (makeInsert 0 ['Y'] 1 1), .applyWithOt (makeDelete 1 2 [] 2 0),
    .applyWithOt (makeInsert 9 ['Z'] 1 7), .setHistoryLimit 0, .applyWithOt (makeInsert 0 ['V'] 1 4)]

theorem retained_window_ring :
    ∃ t, Machine.run perform (fresh 1 "Test") ringCalls = some t ∧
      t.doc.revision.toNat = t.doc.oldestRevision.toNat + t.doc.history.length ∧
      acts apply (t.contentAt t.doc.oldestRevision) t.doc.history = t.doc.content := by
  have hrun : (Machine.run perform (fresh 1 "Test") ringCalls).isSome := by decide +kernel
  obtain ⟨hrev, hreplay, _⟩ := retained_window (Option.some_get hrun).symm (by decide +kernel +revert)
  exact ⟨_, (Option.some_get hrun).symm, hrev.1, hreplay⟩

end Recorded

end CollabEditor
