import CollabEditor.Core.Document
import CollabEditor.Lib.Machine

/-!
# `Server.Snapshots` — the snapshots that the autosave thread takes

A snapshot is due when as many operations have been applied since the last one as the threshold says. The document
does not count them: `needs_snapshot` asks whether the revision is a multiple of the threshold. A tick comes every
few seconds and sees some revision, not each, so a due snapshot is taken only if the tick finds a multiple.

## Contents
- **One document and its ticks.** `Autosaved`, its events and `step`.
- **Counting.** `Counted`: the revision and the last snapshot's, against the operations counted.
- **Due snapshots.** `Due`, `Right`; `taken_when_due`.
-/

namespace CollabEditor

variable {α : Type}

/-- A document, the operations applied to it, how many of them the last snapshot covers, and the snapshot files by
    revision in the order they were written. -/
structure Autosaved (α : Type) where
  doc       : Document α
  applied   : ℕ := 0
  covered   : ℕ := 0
  snapshots : List (UInt32 × List α) := []

namespace Autosaved

inductive Event (α : Type) where
  /-- `apply_with_ot` is called. -/
  | apply (op : Operation α)
  /-- The thread wakes; whether the files of the content and of the snapshot can be opened. -/
  | tick (fileOpens snapshotOpens : Bool)

/-- `AutosaveThread::save_document`, as far as the document sees it. -/
def saveDocument (t : Autosaved α) (isOpen : Bool) : Autosaved α :=
  if isOpen then { t with doc := t.doc.markSaved } else t

/-- `AutosaveThread::maybe_create_snapshot`. -/
def maybeCreateSnapshot (t : Autosaved α) (isOpen : Bool) : Autosaved α :=
  if !t.doc.needsSnapshot then t
  else if isOpen then
    { t with
      doc := t.doc.markSnapshotCreated
      covered := t.applied
      snapshots := t.snapshots ++ [(t.doc.revision, t.doc.content)] }
  else t

/-- What `AutosaveThread::run` does with a document when it wakes. -/
def tick (t : Autosaved α) (fileOpens snapshotOpens : Bool) : Autosaved α :=
  if t.doc.isDirty then (t.saveDocument fileOpens).maybeCreateSnapshot snapshotOpens else t

def step (t : Autosaved α) : Event α → Option (Autosaved α)
  | .apply op => match t.doc.applyWithOt op with
      | (doc, .ok _)    => some { t with doc := doc, applied := t.applied + 1 }
      | (doc, .error _) => some { t with doc := doc }
  | .tick fileOpens snapshotOpens => some (t.tick fileOpens snapshotOpens)

/-- A document that was just created or loaded, with its threshold. -/
def start (id : UInt32) (title : String) (content : List α) (threshold : UInt32) : Autosaved α :=
  { doc := ((Document.create id title).loadContent content).setSnapshotThreshold threshold }

/-! ## Counting -/

/-- The counters of the document are what was counted, in 32 bits, and snapshots are at multiples. -/
structure Counted (t : Autosaved α) : Prop where
  threshold : 0 < t.doc.snapshotThreshold.toNat
  revision  : t.doc.revision.toNat = t.applied % 2 ^ 32
  last      : t.doc.lastSnapshotRevision.toNat = t.covered % 2 ^ 32
  covered   : t.covered ≤ t.applied
  multiple  : t.doc.lastSnapshotRevision.toNat % t.doc.snapshotThreshold.toNat = 0

section Counted

variable {t t' : Autosaved α}

/-- `needs_snapshot` in numbers. -/
theorem needsSnapshot_iff (hpos : 0 < t.doc.snapshotThreshold.toNat) : t.doc.needsSnapshot = true ↔
    0 < t.doc.revision.toNat ∧ t.doc.revision.toNat % t.doc.snapshotThreshold.toNat = 0 ∧
      t.doc.revision.toNat ≠ t.doc.lastSnapshotRevision.toNat := by
  have hzero : t.doc.revision % t.doc.snapshotThreshold = 0 ↔
      t.doc.revision.toNat % t.doc.snapshotThreshold.toNat = 0 := by
    rw [← UInt32.toNat_inj, UInt32.toNat_mod]
    rfl
  have hlast : t.doc.revision = t.doc.lastSnapshotRevision ↔
      t.doc.revision.toNat = t.doc.lastSnapshotRevision.toNat := UInt32.toNat_inj.symm
  have hpos' : 0 < t.doc.snapshotThreshold := UInt32.lt_iff_toNat_lt.mpr hpos
  have hrev : 0 < t.doc.revision ↔ 0 < t.doc.revision.toNat := UInt32.lt_iff_toNat_lt
  simp [Document.needsSnapshot, hpos', hrev, hzero, hlast, and_assoc]

theorem counted_start (id : UInt32) (title : String) (content : List α) {threshold : UInt32}
    (h : 0 < threshold) : (start id title content threshold).Counted :=
  ⟨UInt32.lt_iff_toNat_lt.mp h, rfl, rfl, Nat.le_refl 0, Nat.zero_mod _⟩

theorem Counted.apply (h : t.Counted) {op : Operation α} (hs : t.step (.apply op) = some t') : t'.Counted := by
  unfold step at hs
  by_cases hok : 0 < t.doc.revision ∧ op.revision < t.doc.oldestRevision
  · have happ : t.doc.applyWithOt op = (t.doc, .error "revision_too_old") := if_pos hok
    simp only [happ] at hs
    cases hs
    exact h
  · simp only [Document.applyWithOt, if_neg hok] at hs
    cases hs
    refine ⟨h.threshold, ?_, h.last, Nat.le_succ_of_le h.covered, h.multiple⟩
    show (t.doc.revision + 1).toNat = (t.applied + 1) % 2 ^ 32
    rw [UInt32.toNat_add, h.revision]
    show (t.applied % 2 ^ 32 + 1) % 2 ^ 32 = _
    omega

theorem Counted.saveDocument (h : t.Counted) (isOpen : Bool) : (t.saveDocument isOpen).Counted := by
  unfold Autosaved.saveDocument
  split_ifs
  · exact ⟨h.threshold, h.revision, h.last, h.covered, h.multiple⟩
  · exact h

theorem Counted.maybeCreateSnapshot (h : t.Counted) (isOpen : Bool) : (t.maybeCreateSnapshot isOpen).Counted := by
  unfold Autosaved.maybeCreateSnapshot
  split_ifs with hneeds
  · exact h
  · have hmultiple := ((needsSnapshot_iff h.threshold).mp (by simpa using hneeds)).2.1
    exact ⟨h.threshold, h.revision, h.revision, Nat.le_refl _, hmultiple⟩
  · exact h

theorem Counted.step (h : t.Counted) {e : Event α} (hs : t.step e = some t') : t'.Counted := by
  cases e with
  | apply op => exact h.apply hs
  | tick fileOpens snapshotOpens =>
      cases hs
      show (t.tick fileOpens snapshotOpens).Counted
      unfold Autosaved.tick
      split_ifs
      · exact (h.saveDocument fileOpens).maybeCreateSnapshot snapshotOpens
      · exact h

/-! ## Due snapshots -/

/-- As many operations as the threshold have been applied since the last snapshot. -/
def Due (t : Autosaved α) : Prop := t.doc.snapshotThreshold.toNat ≤ t.applied - t.covered

instance (t : Autosaved α) : Decidable t.Due := inferInstanceAs (Decidable (_ ≤ _))

/-- Two multiples that are apart are apart by one of them at least. -/
theorem le_sub_of_multiples {k l r n : ℕ} (hl : l % k = 0) (hr : r % k = 0) (hlr : r ≠ l) (hpos : 0 < r)
    (hlt : l < 2 ^ 32) (h : r = (l + n) % 2 ^ 32) : k ≤ n := by
  by_contra hn
  have hkr : k ≤ r := Nat.le_of_dvd hpos (Nat.dvd_of_mod_eq_zero hr)
  have hrlt : r < 2 ^ 32 := by rw [h]; exact Nat.mod_lt _ (by decide)
  -- without a wrap the distance is a multiple itself, and not zero
  by_cases hwrap : l + n < 2 ^ 32
  · rw [Nat.mod_eq_of_lt hwrap] at h
    have hdvd : k ∣ n := by
      have hsum : k ∣ l + n := by
        rw [← h]
        exact Nat.dvd_of_mod_eq_zero hr
      exact (Nat.dvd_add_right (Nat.dvd_of_mod_eq_zero hl)).mp hsum
    have hzero : n = 0 := Nat.eq_zero_of_dvd_of_lt hdvd (by omega)
    omega
  · -- the counter has wrapped since, and that takes more operations
    omega

/-- **No snapshot comes early**: what `needs_snapshot` asks for is due. -/
theorem Counted.due_of_needsSnapshot (h : t.Counted) (hn : t.doc.needsSnapshot = true) : t.Due := by
  obtain ⟨hpos, hmultiple, hne⟩ := (needsSnapshot_iff h.threshold).mp hn
  refine le_sub_of_multiples h.multiple hmultiple hne hpos t.doc.lastSnapshotRevision.toNat_lt ?_
  -- both counters are 32-bit, so `le_sub_of_multiples` is used at the revisions they show
  have hle := h.covered
  rw [h.revision, h.last]
  omega

/-- At a tick of a dirty document a snapshot of the document is taken if it is due, as `needs_snapshot` says, and
    none is taken if it is not. -/
def Right (t : Autosaved α) : Event α → Prop
  | .apply _ => True
  | .tick fileOpens snapshotOpens => t.doc.isDirty = true →
      (t.Due → t.doc.needsSnapshot = true ∧
        (t.tick fileOpens snapshotOpens).snapshots = t.snapshots ++ [(t.doc.revision, t.doc.content)]) ∧
      (¬ t.Due → (t.tick fileOpens snapshotOpens).snapshots = t.snapshots)

/-- When a tick finds a dirty document whose snapshot is due, the revision is a positive multiple of the threshold
    and not that of the last snapshot, and the file can be opened. -/
def Timely (t : Autosaved α) : Event α → Prop
  | .apply _ => True
  | .tick _ snapshotOpens => t.doc.isDirty = true → t.Due →
      0 < t.doc.revision.toNat ∧ t.doc.revision.toNat % t.doc.snapshotThreshold.toNat = 0 ∧
        t.doc.revision.toNat ≠ t.doc.lastSnapshotRevision.toNat ∧ snapshotOpens = true

instance (t : Autosaved α) : (e : Event α) → Decidable (t.Timely e)
  | .apply _  => isTrue trivial
  | .tick _ _ => inferInstanceAs (Decidable (_ → _))

instance [DecidableEq α] (t : Autosaved α) : (e : Event α) → Decidable (t.Right e)
  | .apply _  => isTrue trivial
  | .tick _ _ => inferInstanceAs (Decidable (_ → _))

/-- What a tick of a dirty document writes. -/
theorem snapshots_tick (hd : t.doc.isDirty = true) (fileOpens snapshotOpens : Bool) :
    (t.tick fileOpens snapshotOpens).snapshots =
      if t.doc.needsSnapshot && snapshotOpens then t.snapshots ++ [(t.doc.revision, t.doc.content)]
      else t.snapshots := by
  have hsave : (t.saveDocument fileOpens).doc.needsSnapshot = t.doc.needsSnapshot ∧
      (t.saveDocument fileOpens).snapshots = t.snapshots ∧
      (t.saveDocument fileOpens).doc.revision = t.doc.revision ∧
      (t.saveDocument fileOpens).doc.content = t.doc.content := by
    unfold saveDocument
    split_ifs <;> exact ⟨rfl, rfl, rfl, rfl⟩
  obtain ⟨hneeds, hsnapshots, hrevision, hcontent⟩ := hsave
  rw [tick, if_pos hd, maybeCreateSnapshot, hneeds]
  cases t.doc.needsSnapshot <;> cases snapshotOpens <;> simp [hsnapshots, hrevision, hcontent]

/-- **One tick** does what it should if and only if it is timely. -/
theorem right_iff (h : t.Counted) (e : Event α) : t.Right e ↔ t.Timely e := by
  cases e with
  | apply op => exact Iff.rfl
  | tick fileOpens snapshotOpens =>
      refine forall_congr' fun hd => ?_
      rw [snapshots_tick hd]
      constructor
      · rintro ⟨hdue, -⟩ hd'
        obtain ⟨hneeds, htaken⟩ := hdue hd'
        obtain ⟨hpos, hmultiple, hne⟩ := (needsSnapshot_iff h.threshold).mp hneeds
        refine ⟨hpos, hmultiple, hne, ?_⟩
        cases snapshotOpens with
        | true => rfl
        | false => simp at htaken
      · intro htimely
        constructor
        · intro hdue
          obtain ⟨hpos, hmultiple, hne, hopens⟩ := htimely hdue
          have hneeds := (needsSnapshot_iff h.threshold).mpr ⟨hpos, hmultiple, hne⟩
          refine ⟨hneeds, ?_⟩
          rw [hneeds, hopens]
          rfl
        · intro hnot
          cases hneeds : t.doc.needsSnapshot with
          | false => rfl
          -- one that is taken is due
          | true => exact absurd (h.due_of_needsSnapshot hneeds) hnot

end Counted

/-- **Due snapshots are taken**, over any sequence of operations and ticks, if and only if every tick that finds one
    due finds the revision at a multiple of the threshold. -/
theorem taken_when_due (id : UInt32) (title : String) (content : List α) {threshold : UInt32}
    (hpos : 0 < threshold) (es : List (Event α)) :
    Machine.Along step Right (start id title content threshold) es ↔
      Machine.Along step Timely (start id title content threshold) es := by
  have hstart := counted_start id title content hpos
  constructor
  · refine Machine.along_of_invariant (I := Counted) ?_ ?_ hstart
    · exact fun t e t' h _ hs => h.step hs
    · exact fun t e h hr => (right_iff h e).mp hr
  · refine Machine.along_of_invariant (I := Counted) ?_ ?_ hstart
    · exact fun t e t' h _ hs => h.step hs
    · exact fun t e h hr => (right_iff h e).mpr hr

/-- Three operations and a tick, twice, for a threshold of three. -/
def calmTicks : List (Event Char) :=
  [.apply (makeInsert 0 ['x'] 1 0), .apply (makeInsert 0 ['y'] 1 1), .apply (makeInsert 0 ['z'] 1 2),
    .tick true true, .apply (makeInsert 0 ['x'] 1 3), .tick true true, .apply (makeInsert 0 ['y'] 1 4),
    .apply (makeInsert 0 ['z'] 1 5), .tick true true]

theorem taken_when_due_calmTicks : Machine.Along step Right (start 1 "t" [] 3) calmTicks :=
  (taken_when_due 1 "t" [] (by decide) calmTicks).mpr (by decide +kernel)

/-- A fourth operation comes before the tick: the snapshot is due, and none is written. -/
theorem due_skipped :
    ¬ Machine.Along step Right (start 1 "t" [] 3)
      [.apply (makeInsert 0 ['w'] 1 0), .apply (makeInsert 0 ['x'] 1 1), .apply (makeInsert 0 ['y'] 1 2),
        .apply (makeInsert 0 ['z'] 1 3), .tick true true] := by
  decide +kernel

end Autosaved

end CollabEditor
