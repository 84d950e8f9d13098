import CollabEditor.Core.TransformSpec
import Mathlib.Data.Finset.Card

/-!
# `Core.Document` — the server's document

`collab::Document`: the content, the revision counter, the retained suffix of the operation history, the
dirty flag and the snapshot bookkeeping. Each method holds the document's lock for its whole body, so a
method is one atomic step and its model a pure function of the record.

## Contents
- **The record and its methods.**
- **`apply_with_ot`.** The transform loop, `applyWithOt_cases`, and `transformLoop_eq`: inside the
  retained window the loop is a fold of `transform` over the entries since the operation's base.
- **The window.** `Document.WindowExact`: revision, oldest revision and history length agree.
-/

namespace CollabEditor

open Diamond

variable {α : Type}

/-- `collab::Document`. -/
structure Document (α : Type) where
  id                   : UInt32
  title                : String
  content              : List α := []
  revision             : UInt32 := 0
  history              : List (Operation α) := []
  historyLimit         : UInt32 := 10000
  oldestRevision       : UInt32 := 0
  subscribers          : Finset UInt32 := ∅
  dirty                : Bool := false
  snapshotThreshold    : UInt32 := 100
  lastSnapshotRevision : UInt32 := 0

namespace Document

/-- `Document::Document`. -/
def create (id : UInt32) (title : String) : Document α := { id := id, title := title }

/-- The loop of `apply_with_ot`, `n` iterations from revision `i`. The guard on the index skips revisions
    that are no longer (or not) in the history. -/
def transformLoop (history : List (Operation α)) (oldest : UInt32) :
    ℕ → UInt32 → Operation α → Operation α
  | 0, _, op => op
  | n + 1, i, op =>
      let historyIndex := i - oldest
      let op' := match history[historyIndex.toNat]? with
        | some h => xform op h
        | none   => op
      transformLoop history oldest n (i + 1) op'

/-- The eviction loop of `apply_with_ot`: drop the oldest entries beyond the limit. -/
def trimHistory (limit : UInt32) : List (Operation α) → UInt32 → List (Operation α) × UInt32
  | [], oldest => ([], oldest)
  | h :: hs, oldest =>
      if limit.toNat < (h :: hs).length then trimHistory limit hs (oldest + 1) else (h :: hs, oldest)

/-- `Document::apply_with_ot`. The error is `OTResult::error`, the value `OTResult::transformed_op`. -/
def applyWithOt (doc : Document α) (op : Operation α) : Document α × Except String (Operation α) :=
  if 0 < doc.revision ∧ op.revision < doc.oldestRevision then
    (doc, .error "revision_too_old")
  else
    let op' := transformLoop doc.history doc.oldestRevision
      (doc.revision.toNat - op.revision.toNat) op.revision op
    let (history, oldest) := trimHistory doc.historyLimit (doc.history ++ [op']) doc.oldestRevision
    ({ doc with
        content := apply doc.content op'
        history := history
        oldestRevision := oldest
        revision := doc.revision + 1
        dirty := true }, .ok op')

/-- `Document::set_content`. -/
def setContent (doc : Document α) (content : List α) : Document α := { doc with content := content }

/-- `Document::load_content`. -/
def loadContent (doc : Document α) (content : List α) : Document α :=
  { doc with content := content, dirty := false }

/-- `Document::subscribe`. -/
def subscribe (doc : Document α) (userId : UInt32) : Document α :=
  { doc with subscribers := insert userId doc.subscribers }

/-- `Document::unsubscribe`. -/
def unsubscribe (doc : Document α) (userId : UInt32) : Document α :=
  { doc with subscribers := doc.subscribers.erase userId }

/-- `Document::subscriber_count`. -/
def subscriberCount (doc : Document α) : Int32 := Int32.ofNat doc.subscribers.card

/-- `Document::is_dirty`. -/
def isDirty (doc : Document α) : Bool := doc.dirty

/-- `Document::mark_saved`. -/
def markSaved (doc : Document α) : Document α := { doc with dirty := false }

/-- `Document::set_history_limit`. -/
def setHistoryLimit (doc : Document α) (limit : UInt32) : Document α :=
  { doc with historyLimit := limit }

/-- `Document::needs_snapshot`. -/
def needsSnapshot (doc : Document α) : Bool :=
  0 < doc.snapshotThreshold && 0 < doc.revision && doc.revision % doc.snapshotThreshold == 0 &&
    doc.revision != doc.lastSnapshotRevision

/-- `Document::mark_snapshot_created`. -/
def markSnapshotCreated (doc : Document α) : Document α :=
  { doc with lastSnapshotRevision := doc.revision }

/-- `Document::set_snapshot_threshold`. -/
def setSnapshotThreshold (doc : Document α) (threshold : UInt32) : Document α :=
  { doc with snapshotThreshold := threshold }

/-! ## The eviction loop -/

/-- What eviction keeps is a suffix, exactly as long as the limit if something had to go; the oldest
    revision advances by what was dropped. -/
theorem trimHistory_spec (limit : UInt32) (hs : List (Operation α)) (oldest : UInt32) :
    ∃ k, k ≤ hs.length ∧ (trimHistory limit hs oldest).1 = hs.drop k ∧
      (trimHistory limit hs oldest).2 = oldest + UInt32.ofNat k ∧
      hs.length - k = min hs.length limit.toNat := by
  induction hs generalizing oldest with
  | nil => exact ⟨0, by simp [trimHistory]⟩
  | cons h hs ih =>
      by_cases hlim : limit.toNat < (h :: hs).length
      · obtain ⟨k, hk, hhist, hold, hle⟩ := ih (oldest + 1)
        rw [List.length_cons] at hlim
        refine ⟨k + 1, by simpa using hk, ?_, ?_, ?_⟩
        · rw [trimHistory, if_pos (by simpa using hlim), hhist]; rfl
        · rw [trimHistory, if_pos (by simpa using hlim), hold, UInt32.ofNat_add]
          ac_rfl
        · rw [List.length_cons]; omega
      · refine ⟨0, Nat.zero_le _, ?_, ?_, by omega⟩
        · rw [trimHistory, if_neg hlim]; rfl
        · rw [trimHistory, if_neg hlim]; simp

/-! ## The transform loop -/

/-- The entries of the history since revision `i`. -/
def since (doc : Document α) (i : UInt32) : List (Operation α) :=
  doc.history.drop (i.toNat - doc.oldestRevision.toNat)

/-- From a revision of the window on, the loop folds `transform` over the entries since that revision. -/
theorem transformLoop_eq {history : List (Operation α)} {oldest : UInt32} {n : ℕ} {i : UInt32}
    {op : Operation α} (hi : oldest.toNat ≤ i.toNat) (hn : i.toNat + n < 2 ^ 32)
    (hlen : i.toNat - oldest.toNat + n = history.length) :
    transformLoop history oldest n i op = rebase xform op (history.drop (i.toNat - oldest.toNat)) := by
  induction n generalizing i op with
  | zero => rw [List.drop_of_length_le (by omega)]; rfl
  | succ n ih =>
      have hidx : (i - oldest).toNat = i.toNat - oldest.toNat := Word.toNat_sub hi
      have hsucc : (i + 1).toNat = i.toNat + 1 := by
        rw [Word.toNat_add (by simp; omega)]; rfl
      have hlt : i.toNat - oldest.toNat < history.length := by omega
      rw [transformLoop, ih (by omega) (by omega) (by omega), hsucc, hidx,
        List.getElem?_eq_getElem hlt, List.drop_eq_getElem_cons hlt, rebase_cons]
      congr 2
      omega

/-! ## The retained window -/

/-- Revision, oldest retained revision and length of the history agree. -/
def WindowExact (doc : Document α) : Prop :=
  doc.revision.toNat = doc.oldestRevision.toNat + doc.history.length

/-- An operation's base revision lies in the retained window. -/
def InWindow (doc : Document α) (r : UInt32) : Prop :=
  doc.oldestRevision.toNat ≤ r.toNat ∧ r.toNat ≤ doc.revision.toNat

instance (doc : Document α) (r : UInt32) : Decidable (doc.InWindow r) :=
  inferInstanceAs (Decidable (_ ∧ _))

/-- **What `apply_with_ot` can do**: reject and leave the document alone, or store the transformed
    operation and apply it. -/
theorem applyWithOt_cases (doc : Document α) (op : Operation α) :
    (0 < doc.revision ∧ op.revision < doc.oldestRevision ∧
      doc.applyWithOt op = (doc, .error "revision_too_old")) ∨
    ∃ doc' op', doc.applyWithOt op = (doc', .ok op') ∧
      op' = transformLoop doc.history doc.oldestRevision
        (doc.revision.toNat - op.revision.toNat) op.revision op ∧
      doc'.content = apply doc.content op' ∧ doc'.revision = doc.revision + 1 ∧
      doc'.dirty = true ∧ doc'.historyLimit = doc.historyLimit ∧
      doc'.id = doc.id ∧ doc'.title = doc.title ∧ doc'.subscribers = doc.subscribers ∧
      (doc'.history, doc'.oldestRevision) =
        trimHistory doc.historyLimit (doc.history ++ [op']) doc.oldestRevision := by
  by_cases h : 0 < doc.revision ∧ op.revision < doc.oldestRevision
  · exact .inl ⟨h.1, h.2, if_pos h⟩
  · right
    refine ⟨(doc.applyWithOt op).1, _, ?_, rfl, ?_⟩
    · simp only [applyWithOt, if_neg h]
    · simp only [applyWithOt, if_neg h, and_self]

theorem applyWithOt_subscribers (doc : Document α) (op : Operation α) :
    (doc.applyWithOt op).1.subscribers = doc.subscribers := by
  obtain ⟨_, _, h⟩ | ⟨doc', op', h, _, _, _, _, _, _, _, hsubs, _⟩ := doc.applyWithOt_cases op
  · rw [h]
  · rw [h]
    exact hsubs

/-- `apply_with_ot` accepts the operation. -/
def Accepts (doc : Document α) (op : Operation α) : Prop :=
  ¬ (0 < doc.revision ∧ op.revision < doc.oldestRevision)

instance (doc : Document α) (op : Operation α) : Decidable (doc.Accepts op) :=
  inferInstanceAs (Decidable (¬ _))

/-- An accepted operation that is not from the future is based in the window. -/
theorem inWindow_of_ok {doc doc' : Document α} {op op' : Operation α} (h : doc.WindowExact)
    (hle : op.revision.toNat ≤ doc.revision.toNat) (happ : doc.applyWithOt op = (doc', .ok op')) :
    doc.InWindow op.revision := by
  refine ⟨?_, hle⟩
  by_contra hlt
  have hold : op.revision < doc.oldestRevision := UInt32.lt_iff_toNat_lt.mpr (Nat.lt_of_not_le hlt)
  have hpos : 0 < doc.revision := by
    rw [UInt32.lt_iff_toNat_lt, UInt32.toNat_zero]
    unfold WindowExact at h
    omega
  rw [applyWithOt, if_pos ⟨hpos, hold⟩] at happ
  cases happ

/-- `doc` is `doc₀` after storing the operations `log`: the log is what the history would be if nothing
    had ever been evicted. -/
structure Follows (doc₀ : Document α) (log : List (Operation α)) (doc : Document α) : Prop where
  base     : doc₀.WindowExact
  content  : doc.content = acts apply doc₀.content log
  revision : doc.revision.toNat = doc₀.revision.toNat + log.length
  window   : doc.WindowExact
  oldest   : doc₀.oldestRevision.toNat ≤ doc.oldestRevision.toNat
  history  : doc.history = (doc₀.history ++ log).drop
    (doc.oldestRevision.toNat - doc₀.oldestRevision.toNat)

variable {doc₀ doc : Document α} {log : List (Operation α)}

theorem Follows.refl (h : doc₀.WindowExact) : Follows doc₀ [] doc₀ where
  base := h
  content := rfl
  revision := rfl
  window := h
  oldest := Nat.le_refl _
  history := by simp

/-- In a document that follows `doc₀`, the entries since revision `doc₀.revision + j` are the log from
    index `j` on. -/
theorem Follows.since_eq (h : Follows doc₀ log doc) {r : UInt32} {j : ℕ}
    (hr : r.toNat = doc₀.revision.toNat + j) (hold : doc.oldestRevision.toNat ≤ r.toNat) :
    doc.since r = log.drop j := by
  have hlen := h.base
  simp only [WindowExact] at hlen
  have ho := h.oldest
  rw [since, h.history, List.drop_drop, List.drop_append, List.drop_of_length_le (by omega),
    List.nil_append]
  congr 1
  omega

/-- **The transform loop inside the window** is a fold over the entries since the operation's base. -/
theorem WindowExact.loop_eq (h : doc.WindowExact) {op : Operation α} (hw : doc.InWindow op.revision) :
    transformLoop doc.history doc.oldestRevision (doc.revision.toNat - op.revision.toNat)
      op.revision op = rebase xform op (doc.since op.revision) := by
  have hlt := doc.revision.toNat_lt
  simp only [WindowExact] at h
  exact transformLoop_eq hw.1 (by have := hw.2; omega) (by have := hw.1; have := hw.2; omega)

/-- **One stored operation.** Whatever the operation has become, the document follows the extended log, and
    the history is as long as the limit lets it be. -/
theorem Follows.stored {doc' : Document α} {op op' : Operation α} (h : Follows doc₀ log doc)
    (happ : doc.applyWithOt op = (doc', .ok op')) (hmax : doc.revision.toNat + 1 < 2 ^ 32) :
    Follows doc₀ (log ++ [op']) doc' ∧
      doc'.history.length = min (doc.history.length + 1) doc.historyLimit.toNat := by
  rcases applyWithOt_cases doc op with ⟨_, _, heq⟩ | ⟨_, _, heq, _, hc, hr, _, _, _, _, _, ht⟩
  · rw [heq] at happ; cases happ
  rw [heq] at happ
  cases happ
  obtain ⟨k, hk, hhist, holdest, hkept⟩ := trimHistory_spec doc.historyLimit
    (doc.history ++ [op']) doc.oldestRevision
  rw [← ht] at hhist holdest
  simp only at hhist holdest
  refine ⟨?_, by rw [hhist, List.length_drop, hkept]; simp⟩
  have hwin := h.window
  simp only [WindowExact] at hwin
  simp only [List.length_append, List.length_singleton] at hk
  have hrev : doc'.revision.toNat = doc.revision.toNat + 1 := by
    rw [hr, Word.toNat_add (by simpa using hmax)]; rfl
  have hold' : doc'.oldestRevision.toNat = doc.oldestRevision.toNat + k := by
    rw [holdest, Word.toNat_add, Word.toNat_ofNat (by omega)]
    rw [Word.toNat_ofNat (by omega)]
    omega
  have ho := h.oldest
  refine ⟨h.base, ?_, ?_, ?_, by omega, ?_⟩
  · rw [hc, h.content, acts_snoc]
  · rw [hrev, h.revision, List.length_append]; rfl
  · simp only [WindowExact]
    rw [hrev, hold', hhist, List.length_drop, List.length_append, List.length_singleton]
    omega
  · have hle : doc.oldestRevision.toNat - doc₀.oldestRevision.toNat ≤ (doc₀.history ++ log).length := by
      have hbase := h.base
      have hlog := h.revision
      simp only [WindowExact] at hbase
      rw [List.length_append]
      omega
    rw [hhist, h.history, ← List.append_assoc doc₀.history, ← List.drop_append_of_le_length hle,
      List.drop_drop]
    congr 1
    omega

/-- **One accepted operation.** An operation based in the window is accepted, rebased over the entries
    since its base, and the document follows the extended log. -/
theorem Follows.applyWithOt (h : Follows doc₀ log doc) {op : Operation α}
    (hw : doc.InWindow op.revision) (hmax : doc.revision.toNat + 1 < 2 ^ 32) :
    ∃ doc', doc.applyWithOt op = (doc', .ok (rebase xform op (doc.since op.revision))) ∧
      Follows doc₀ (log ++ [rebase xform op (doc.since op.revision)]) doc' ∧
      doc'.historyLimit = doc.historyLimit ∧ doc'.id = doc.id ∧
      doc'.history.length = min (doc.history.length + 1) doc.historyLimit.toNat := by
  rcases applyWithOt_cases doc op with ⟨_, hold, _⟩ | ⟨doc', op', heq, hop, _, _, _, hl, hid, _⟩
  · have := UInt32.lt_iff_toNat_lt.mp hold
    have := hw.1
    omega
  · rw [h.window.loop_eq hw] at hop
    subst hop
    obtain ⟨hfol, hlen⟩ := h.stored heq hmax
    exact ⟨doc', heq, hfol, hl, hid, hlen⟩

end Document

end CollabEditor
