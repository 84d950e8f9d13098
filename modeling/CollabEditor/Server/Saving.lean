import CollabEditor.Lib.Machine
import CollabEditor.Core.Document

/-!
# `Server.Saving` — one document and its file

`save_document` copies the content, writes it to a temporary file, renames that file to `documents/<id>.txt`
and marks the document as saved: four atomic steps without a lock around them. Between any two of them other
threads may apply operations. File writes and renames succeed; a rename needs its source.

A `Copy` knows, besides the content, how many of the operations stored so far it contains (`age`); the log
of the stored operations and the ages record the past, no step reads them.

## Contents
- **The storage.** `Copy`, `Storage`, `Storage.Exact`.
- **`save_document`.** `SaveStage`, `saveStep` and what each step can do.
- **One saver.** `Saving`, its guard `Quiescent`, `clean_saved` and `clean_unsaved`.
-/

namespace CollabEditor

open Diamond

variable {α : Type}

/-- A copy of a document's content. -/
structure Copy (α : Type) where
  content : List α
  age     : ℕ
  deriving DecidableEq, Repr

/-- A document, its file and the temporary file of its savers. -/
structure Storage (α : Type) where
  doc  : Document α
  file : Copy α
  tmp  : Option (Copy α) := none
  log  : List (Operation α) := []

namespace Storage

/-- `apply_with_ot` on the stored document. -/
def applyWithOt (s : Storage α) (op : Operation α) : Storage α :=
  match s.doc.applyWithOt op with
  | (doc, .ok op) => { s with doc := doc, log := s.log ++ [op] }
  | (doc, .error _) => { s with doc := doc }

/-- `get_content`. -/
def copy (s : Storage α) : Copy α := { content := s.doc.content, age := s.log.length }

/-- A copy holds the first `age` operations on top of the base content. -/
def Holds (base : List α) (s : Storage α) (c : Copy α) : Prop :=
  c.age ≤ s.log.length ∧ c.content = acts apply base (s.log.take c.age)

/-- The document and the files hold what the log says, from the base content on. -/
structure Exact (base : List α) (s : Storage α) : Prop where
  doc  : s.doc.content = acts apply base s.log
  file : s.Holds base s.file
  tmp  : ∀ c ∈ s.tmp, s.Holds base c

theorem applyWithOt_cases (s : Storage α) (op : Operation α) :
    s.applyWithOt op = s ∧ ¬ s.doc.Accepts op ∨ ∃ doc op', s.applyWithOt op = { s with doc := doc, log := s.log ++ [op'] } ∧
      doc.content = apply s.doc.content op' ∧ doc.dirty = true ∧
      s.doc.applyWithOt op = (doc, .ok op') := by
  unfold Storage.applyWithOt
  rcases s.doc.applyWithOt_cases op with ⟨hpos, hold, happ⟩ | ⟨doc, op', happ, _, hcontent, _, hdirty, _⟩
  · left
    rw [happ]
    exact ⟨rfl, fun h => h ⟨hpos, hold⟩⟩
  · right
    rw [happ]
    exact ⟨doc, op', rfl, hcontent, hdirty, rfl⟩

section Exact

variable {base : List α} {s : Storage α} {c : Copy α}

theorem Holds.append (h : s.Holds base c) (doc : Document α) (op : Operation α) :
    Holds base { s with doc := doc, log := s.log ++ [op] } c := by
  obtain ⟨hage, hcontent⟩ := h
  refine ⟨?_, ?_⟩
  · show c.age ≤ (s.log ++ [op]).length
    rw [List.length_append]
    omega
  · show c.content = acts apply base ((s.log ++ [op]).take c.age)
    rw [List.take_append_of_le_length hage]
    exact hcontent

/-- What a copy holds depends on the log alone. -/
theorem Holds.of_log {s' : Storage α} (h : s.Holds base c) (hlog : s'.log = s.log) : s'.Holds base c := by
  unfold Holds
  rw [hlog]
  exact h

theorem Exact.copy (h : s.Exact base) : s.Holds base s.copy := by
  refine ⟨Nat.le_refl _, ?_⟩
  show s.doc.content = acts apply base (s.log.take s.log.length)
  rw [List.take_length]
  exact h.doc

/-- What a copy lacks is what has been stored since. -/
theorem Exact.since (h : s.Exact base) (hc : s.Holds base c) :
    s.doc.content = acts apply c.content (s.log.drop c.age) := by
  rw [h.doc, hc.2, ← acts_append, List.take_append_drop]

theorem Exact.applyWithOt (h : s.Exact base) (op : Operation α) : (s.applyWithOt op).Exact base := by
  rcases s.applyWithOt_cases op with ⟨hsame, _⟩ | ⟨doc, op', hnew, hcontent, _, _⟩
  · rw [hsame]
    exact h
  · rw [hnew]
    refine ⟨?_, h.file.append doc op', fun c hc => (h.tmp c hc).append doc op'⟩
    show doc.content = acts apply base (s.log ++ [op'])
    rw [hcontent, h.doc, acts_snoc]

end Exact

end Storage

/-! ## `save_document` -/

/-- How far a call of `save_document` has come, with its local copy of the content. -/
inductive SaveStage (α : Type) where
  | entered
  | copied (copy : Copy α)
  | written (copy : Copy α)
  | renamed (copy : Copy α)
  | returned
  deriving DecidableEq, Repr

/-- The copy that a call of `save_document` has taken. -/
def SaveStage.taken : SaveStage α → Option (Copy α)
  | .copied c  => some c
  | .written c => some c
  | .renamed c => some c
  | _          => none

/-- The next step of `save_document`. -/
def saveStep (s : Storage α) : SaveStage α → Option (Storage α × SaveStage α)
  | .entered   => some (s, .copied s.copy)
  | .copied c  => some ({ s with tmp := some c }, .written c)
  | .written c => s.tmp.map fun source => ({ s with file := source, tmp := none }, .renamed c)
  | .renamed _ => some ({ s with doc := s.doc.markSaved }, .returned)
  | .returned  => none

section SaveStep

variable {base : List α} {s s' : Storage α} {stage stage' : SaveStage α}

theorem saveStep_log (h : saveStep s stage = some (s', stage')) : s'.log = s.log := by
  cases stage with
  | written c =>
      obtain ⟨source, _, hs⟩ := Option.map_eq_some_iff.mp h
      cases hs
      rfl
  | returned => cases h
  | _ => cases h; rfl

/-- A step of `save_document` keeps document and files exact. -/
theorem Storage.Exact.saveStep (h : s.Exact base) (htaken : ∀ c ∈ stage.taken, s.Holds base c)
    (hs : saveStep s stage = some (s', stage')) :
    s'.Exact base ∧ ∀ c ∈ stage'.taken, s'.Holds base c := by
  cases stage with
  | entered =>
      cases hs
      refine ⟨h, ?_⟩
      rintro c ⟨⟩
      exact h.copy
  | copied c =>
      cases hs
      have hc := htaken c rfl
      refine ⟨⟨h.doc, h.file, ?_⟩, ?_⟩
      · rintro c' ⟨⟩
        exact hc
      · rintro c' ⟨⟩
        exact hc
  | written c =>
      obtain ⟨source, hsource, hs⟩ := Option.map_eq_some_iff.mp hs
      cases hs
      refine ⟨⟨h.doc, h.tmp source hsource, nofun⟩, ?_⟩
      rintro c' ⟨⟩
      exact htaken c rfl
  | renamed c =>
      cases hs
      exact ⟨⟨h.doc, h.file, h.tmp⟩, nofun⟩
  | returned => cases hs

end SaveStep

/-! ## One saver -/

/-- A document that one thread saves while others edit it. -/
structure Saving (α : Type) where
  storage : Storage α
  stage   : SaveStage α := .returned

namespace Saving

inductive Event (α : Type) where
  /-- Some thread calls `apply_with_ot`. -/
  | apply (op : Operation α)
  /-- The saver calls `save_document`. -/
  | call
  /-- The saver makes its next step. -/
  | save

def step (t : Saving α) : Event α → Option (Saving α)
  | .apply op => some { t with storage := t.storage.applyWithOt op }
  | .call => match t.stage with
      | .returned => some { t with stage := .entered }
      | _ => none
  | .save => (saveStep t.storage t.stage).map fun r => { storage := r.1, stage := r.2 }

/-- The document has just been loaded or created: its file holds its content. -/
def start (doc : Document α) : Saving α :=
  { storage := { doc := doc, file := { content := doc.content, age := 0 } } }

/-- `mark_saved` is called only if the operations stored since `get_content` have left the content alone. -/
def Quiescent (t : Saving α) : Event α → Prop
  | .save => match t.stage with
      | .renamed c => acts apply c.content (t.storage.log.drop c.age) = c.content
      | _ => True
  | _ => True

instance [DecidableEq α] (t : Saving α) : (e : Event α) → Decidable (t.Quiescent e)
  | .save => match h : t.stage with
      | .renamed c => decidable_of_iff (acts apply c.content (t.storage.log.drop c.age) = c.content)
          (by unfold Quiescent; rw [h])
      | .entered | .copied _ | .written _ | .returned => isTrue (by unfold Quiescent; rw [h]; trivial)
  | .apply _ | .call => isTrue trivial

/-- A clean document has stored nothing since the saver's copy, and its file holds its content. -/
structure Sound (base : List α) (t : Saving α) : Prop where
  exact   : t.storage.Exact base
  taken   : ∀ c ∈ t.stage.taken, t.storage.Holds base c
  clean   : t.storage.doc.isDirty = false → t.storage.file.content = t.storage.doc.content ∧
    ∀ c ∈ t.stage.taken, c.content = t.storage.doc.content
  written : ∀ c, t.stage = .written c → t.storage.tmp = some c
  renamed : ∀ c, t.stage = .renamed c → t.storage.file = c

variable {t t' : Saving α}

theorem Sound.start (doc : Document α) : Sound doc.content (start doc) where
  exact := ⟨rfl, ⟨Nat.le_refl _, rfl⟩, nofun⟩
  taken := nofun
  clean := fun _ => ⟨rfl, nofun⟩
  written := nofun
  renamed := nofun

theorem Sound.apply {base : List α} (h : Sound base t) (op : Operation α) :
    Sound base { t with storage := t.storage.applyWithOt op } := by
  have hexact := h.exact.applyWithOt op
  rcases t.storage.applyWithOt_cases op with ⟨hsame, _⟩ | ⟨doc, op', hnew, _, hdirty, _⟩
  · rw [hsame]
    exact h
  · rw [hnew] at hexact ⊢
    refine ⟨hexact, fun c hc => (h.taken c hc).append doc op', ?_, h.written, h.renamed⟩
    intro hclean
    change doc.dirty = false at hclean
    rw [hdirty] at hclean
    cases hclean

theorem Sound.save {base : List α} (h : Sound base t) (hok : t.Quiescent .save)
    (hs : (saveStep t.storage t.stage).map (fun r => { storage := r.1, stage := r.2 }) = some t') :
    Sound base t' := by
  obtain ⟨⟨s', stage'⟩, hstep, rfl⟩ := Option.map_eq_some_iff.mp hs
  obtain ⟨hexact, htaken⟩ := h.exact.saveStep h.taken hstep
  unfold saveStep at hstep
  cases hstage : t.stage with
  | entered =>
      rw [hstage] at hstep
      cases hstep
      refine ⟨hexact, htaken, fun hclean => ⟨(h.clean hclean).1, ?_⟩, nofun, nofun⟩
      rintro c ⟨⟩
      rfl
  | copied c =>
      rw [hstage] at hstep
      cases hstep
      refine ⟨hexact, htaken, fun hclean => ⟨(h.clean hclean).1, ?_⟩, ?_, nofun⟩
      · rintro c' ⟨⟩
        exact (h.clean hclean).2 c (by rw [hstage]; rfl)
      · rintro c' ⟨⟩
        rfl
  | written c =>
      rw [hstage] at hstep
      have htmp := h.written c hstage
      dsimp only at hstep
      rw [htmp] at hstep
      cases hstep
      have hsame : t.storage.doc.isDirty = false → c.content = t.storage.doc.content :=
        fun hclean => (h.clean hclean).2 c (by rw [hstage]; rfl)
      refine ⟨hexact, htaken, fun hclean => ⟨hsame hclean, ?_⟩, nofun, ?_⟩
      · rintro c' ⟨⟩
        exact hsame hclean
      · rintro c' ⟨⟩
        rfl
  | renamed c =>
      rw [hstage] at hstep
      cases hstep
      -- the guard: what has been stored since the copy has left the content as it was
      have hquiet : acts CollabEditor.apply c.content (t.storage.log.drop c.age) = c.content := by
        unfold Quiescent at hok
        rw [hstage] at hok
        exact hok
      have hsince := h.exact.since (h.taken c (by rw [hstage]; rfl))
      refine ⟨hexact, htaken, fun _ => ⟨?_, nofun⟩, nofun, nofun⟩
      show t.storage.file.content = t.storage.doc.content
      rw [h.renamed c hstage, hsince, hquiet]
  | returned => rw [hstage] at hstep; cases hstep

theorem Sound.step {base : List α} (t : Saving α) (e : Event α) (t' : Saving α) (h : Sound base t)
    (hok : t.Quiescent e) (hs : t.step e = some t') : Sound base t' := by
  cases e with
  | apply op =>
      cases hs
      exact h.apply op
  | call =>
      change (match t.stage with | .returned => some { t with stage := .entered } | _ => none) = some t' at hs
      split at hs
      · cases hs
        exact ⟨h.exact, nofun, fun hclean => ⟨(h.clean hclean).1, nofun⟩, nofun, nofun⟩
      · cases hs
  | save => exact h.save hok hs

/-- **A clean document is a saved document**, if `mark_saved` never covers an operation that was stored
    after `get_content` and changed the content. -/
theorem clean_saved {doc : Document α} {es : List (Event α)} (hr : Machine.run step (start doc) es = some t)
    (hok : Machine.Along step Quiescent (start doc) es) (hclean : t.storage.doc.isDirty = false) :
    t.storage.file.content = t.storage.doc.content :=
  ((Machine.run_invariant Sound.step (Sound.start doc) hok hr).clean hclean).1

/-- An operation and a save after it. -/
def savedRun : List (Event Char) := [.apply (makeInsert 0 ['x'] 1 0), .call, .save, .save, .save, .save]

theorem clean_saved_once :
    ∃ t, Machine.run step (start (Document.create 1 "t")) savedRun = some t ∧
      t.storage.file.content = t.storage.doc.content := by
  have hrun : (Machine.run step (start (Document.create 1 "t")) savedRun).isSome := by decide +kernel
  refine ⟨_, (Option.some_get hrun).symm, clean_saved (Option.some_get hrun).symm ?_ ?_⟩
  · decide +kernel
  · decide +kernel +revert

/-- **The flag of an operation that arrives during a save is lost.** The document ends clean, with `x` in
    its content and an empty file. -/
theorem clean_unsaved :
    ∃ t, Machine.run step (start (Document.create 1 "t" : Document Char))
        [.call, .save, .apply (makeInsert 0 ['x'] 1 0), .save, .save, .save] = some t ∧
      t.storage.doc.isDirty = false ∧ t.storage.doc.content = ['x'] ∧ t.storage.file.content = [] :=
  ⟨_, rfl, rfl, rfl, rfl⟩

end Saving

end CollabEditor
