import CollabEditor.Server.Saving

/-!
# `Server.Publishing` — a content and the revision it is published under

`handle_doc_join` and `maybe_create_snapshot` publish a content together with a revision, in a join response
and as a file name. They call `get_content` and `revision`, each under the document's lock, so operations
may be applied between the two calls. A pair is real (`Held`) if the document held it at one moment; it is,
if the operations between the two calls leave the content alone (`published_held`).

## Contents
- **The publisher.** `Publisher`, `PublishStage`, `Publishing` and its `step`.
- **Real pairs.** `Held`, the guard `Undisturbed`, `published_held`.
- **Pairs that never were.** `published_torn`.
-/

namespace CollabEditor

open Diamond

variable {α : Type}

/-- Who publishes. -/
inductive Publisher where
  /-- `MessageHandler::handle_doc_join`. -/
  | join
  /-- `AutosaveThread::maybe_create_snapshot`. -/
  | snapshot
  deriving DecidableEq, Repr

/-- A content under a revision. -/
structure Published (α : Type) where
  publisher : Publisher
  content   : List α
  revision  : UInt32
  deriving DecidableEq, Repr

/-- How far the publisher has come. -/
inductive PublishStage (α : Type) where
  | idle
  | entered (p : Publisher)
  | copied (p : Publisher) (copy : Copy α)
  | paired (pair : Published α)
  | created

/-- A document whose content and revision are published while others edit it. -/
structure Publishing (α : Type) where
  storage   : Storage α
  stage     : PublishStage α := .idle
  published : List (Published α) := []

namespace Publishing

inductive Event (α : Type) where
  /-- The session thread calls `apply_with_ot`. -/
  | apply (op : Operation α)
  /-- A publisher is called. -/
  | call (p : Publisher)
  /-- The publisher makes its next step. -/
  | next

/-- The next step of the publisher. -/
def next (t : Publishing α) : Option (Publishing α) :=
  match t.stage with
  | .idle => none
  | .entered p => some { t with stage := .copied p t.storage.copy }
  | .copied p c =>
      some { t with
        stage := .paired { publisher := p, content := c.content, revision := t.storage.doc.revision } }
  | .paired pair =>
      some { t with
        stage := match pair.publisher with
          | .join => .idle
          | .snapshot => .created
        published := t.published ++ [pair] }
  | .created =>
      some { t with stage := .idle, storage := { t.storage with doc := t.storage.doc.markSnapshotCreated } }

/-- A publisher is called; `maybe_create_snapshot` first asks `needs_snapshot`. -/
def call (t : Publishing α) (p : Publisher) : Option (Publishing α) :=
  match t.stage, p with
  | .idle, .join => some { t with stage := .entered .join }
  | .idle, .snapshot =>
      some (if t.storage.doc.needsSnapshot then { t with stage := .entered .snapshot } else t)
  | _, _ => none

def step (t : Publishing α) : Event α → Option (Publishing α)
  | .apply op => some { t with storage := t.storage.applyWithOt op }
  | .call p => t.call p
  | .next => t.next

def start (doc : Document α) : Publishing α :=
  { storage := { doc := doc, file := { content := doc.content, age := 0 } } }

/-! ## Real pairs -/

/-- The pair is the content and the revision that a document which started as `doc` had after some number
    of the operations. -/
def Held (doc : Document α) (log : List (Operation α)) (pair : Published α) : Prop :=
  ∃ k ≤ log.length, pair.content = acts CollabEditor.apply doc.content (log.take k) ∧
    pair.revision = doc.revision + UInt32.ofNat k

/-- When the publisher reads the revision, what has been stored since it copied the content has left the
    content alone. -/
def Undisturbed (t : Publishing α) : Event α → Prop
  | .next => match t.stage with
      | .copied _ c => acts CollabEditor.apply c.content (t.storage.log.drop c.age) = c.content
      | _ => True
  | _ => True

instance [DecidableEq α] (t : Publishing α) : (e : Event α) → Decidable (t.Undisturbed e)
  | .next => match h : t.stage with
      | .copied _ c =>
          decidable_of_iff (acts CollabEditor.apply c.content (t.storage.log.drop c.age) = c.content)
            (by unfold Undisturbed; rw [h])
      | .idle | .entered _ | .paired _ | .created => isTrue (by unfold Undisturbed; rw [h]; trivial)
  | .apply _ | .call _ => isTrue trivial

theorem Held.append {doc : Document α} {log : List (Operation α)} {pair : Published α} (h : Held doc log pair)
    (op : Operation α) : Held doc (log ++ [op]) pair := by
  obtain ⟨k, hk, hcontent, hrevision⟩ := h
  refine ⟨k, ?_, ?_, hrevision⟩
  · rw [List.length_append]
    omega
  · rw [List.take_append_of_le_length hk]
    exact hcontent

/-- Everything published, or about to be, was held. -/
structure Real (doc : Document α) (t : Publishing α) : Prop where
  exact     : t.storage.Exact doc.content
  revision  : t.storage.doc.revision = doc.revision + UInt32.ofNat t.storage.log.length
  copied    : ∀ p c, t.stage = .copied p c → t.storage.Holds doc.content c
  paired    : ∀ pair, t.stage = .paired pair → Held doc t.storage.log pair
  published : ∀ pair ∈ t.published, Held doc t.storage.log pair

section Runs

variable {doc : Document α} {t t' : Publishing α}

theorem Real.start (doc : Document α) : Real doc (start doc) where
  exact := ⟨rfl, ⟨Nat.le_refl _, rfl⟩, nofun⟩
  revision := by
    show doc.revision = doc.revision + 0
    rw [UInt32.add_zero]
  copied := nofun
  paired := nofun
  published := nofun

theorem Real.apply (h : Real doc t) (op : Operation α) :
    Real doc { t with storage := t.storage.applyWithOt op } := by
  have hexact := h.exact.applyWithOt op
  rcases t.storage.applyWithOt_cases op with ⟨hsame, _⟩ | ⟨doc', op', hnew, _, _, happ⟩
  · rw [hsame]
    exact h
  · rw [hnew] at hexact ⊢
    refine ⟨hexact, ?_, fun p c hc => (h.copied p c hc).append doc' op',
      fun pair hp => (h.paired pair hp).append op', fun pair hp => (h.published pair hp).append op'⟩
    show doc'.revision = doc.revision + UInt32.ofNat (t.storage.log ++ [op']).length
    rcases t.storage.doc.applyWithOt_cases op with ⟨_, _, herror⟩ | ⟨doc₁, op₁, hok, _, _, hrev, _⟩
    · rw [herror] at happ
      cases happ
    · rw [hok] at happ
      cases happ
      rw [hrev, h.revision, List.length_append, List.length_singleton, UInt32.ofNat_add, UInt32.add_assoc]
      rfl

theorem Real.next (h : Real doc t) (hok : t.Undisturbed .next) (hs : t.next = some t') : Real doc t' := by
  unfold Publishing.next at hs
  cases hstage : t.stage with
  | idle => rw [hstage] at hs; cases hs
  | entered p =>
      rw [hstage] at hs
      cases hs
      refine ⟨h.exact, h.revision, ?_, nofun, h.published⟩
      rintro _ _ ⟨⟩
      exact h.exact.copy
  | copied p c =>
      rw [hstage] at hs
      cases hs
      refine ⟨h.exact, h.revision, nofun, ?_, h.published⟩
      rintro _ ⟨⟩
      have hquiet : acts CollabEditor.apply c.content (t.storage.log.drop c.age) = c.content := by
        unfold Undisturbed at hok
        rw [hstage] at hok
        exact hok
      -- the content is still the document's, so the pair is the present one
      refine ⟨t.storage.log.length, Nat.le_refl _, ?_, h.revision⟩
      show c.content = _
      rw [List.take_length, ← h.exact.doc, h.exact.since (h.copied p c hstage), hquiet]
  | paired pair =>
      rw [hstage] at hs
      cases hs
      refine ⟨h.exact, h.revision, ?_, ?_, ?_⟩
      · intro p c hc
        cases hp : pair.publisher with
        | join => rw [hp] at hc; cases hc
        | snapshot => rw [hp] at hc; cases hc
      · intro pair' hc
        cases hp : pair.publisher with
        | join => rw [hp] at hc; cases hc
        | snapshot => rw [hp] at hc; cases hc
      · intro pair' hpair
        rcases List.mem_append.mp hpair with hold | hnew
        · exact h.published pair' hold
        · rw [List.mem_singleton.mp hnew]
          exact h.paired pair hstage
  | created =>
      rw [hstage] at hs
      cases hs
      exact ⟨⟨h.exact.doc, h.exact.file, h.exact.tmp⟩, h.revision, nofun, nofun, h.published⟩

theorem Real.step (t : Publishing α) (e : Event α) (t' : Publishing α) (h : Real doc t)
    (hok : t.Undisturbed e) (hs : t.step e = some t') : Real doc t' := by
  cases e with
  | apply op =>
      cases hs
      exact h.apply op
  | call p =>
      change t.call p = some t' at hs
      unfold call at hs
      split at hs
      · cases hs
        exact ⟨h.exact, h.revision, nofun, nofun, h.published⟩
      · cases hs
        split_ifs
        · exact ⟨h.exact, h.revision, nofun, nofun, h.published⟩
        · exact h
      · cases hs
  | next => exact h.next hok hs

/-- **Published pairs are real**, if no operation that changes the content is stored between `get_content`
    and `revision`. -/
theorem published_held {es : List (Event α)} (hr : Machine.run step (start doc) es = some t)
    (hok : Machine.Along step Undisturbed (start doc) es) : ∀ pair ∈ t.published, Held doc t.storage.log pair :=
  (Machine.run_invariant Real.step (Real.start doc) hok hr).published

end Runs

/-- A document that wants a snapshot after every operation. -/
def snapshotDocument : Document Char := (Document.create 1 "t").setSnapshotThreshold 1

/-- An operation, a snapshot and a join. -/
def calmRun : List (Event Char) :=
  [.apply (makeInsert 0 ['x'] 1 0), .call .snapshot, .next, .next, .next, .next, .call .join, .next, .next, .next]

theorem published_held_calm :
    ∃ t, Machine.run step (start snapshotDocument) calmRun = some t ∧ t.published.length = 2 ∧
      ∀ pair ∈ t.published, Held snapshotDocument t.storage.log pair := by
  have hrun : (Machine.run step (start snapshotDocument) calmRun).isSome := by decide +kernel
  refine ⟨_, (Option.some_get hrun).symm, ?_, published_held (Option.some_get hrun).symm ?_⟩
  · decide +kernel +revert
  · decide +kernel

/-- The empty content under revision 1 is not what a document that stores `x` first has ever held. -/
theorem not_held {p : Publisher} {op : Operation Char} (h : apply [] op = ['x']) :
    ¬ Held snapshotDocument [op] { publisher := p, content := [], revision := 1 } := by
  rintro ⟨k, hk, hcontent, hrevision⟩
  obtain rfl | rfl : k = 0 ∨ k = 1 := by
    rw [List.length_singleton] at hk
    omega
  · exact absurd (show (1 : UInt32) = 0 + 0 from hrevision) (by decide)
  · change [] = apply [] op at hcontent
    rw [h] at hcontent
    cases hcontent

/-- **A pair that never was.** An insertion between the two calls makes a joiner read the empty content as
    revision 1, and a second one gives the snapshot of revision 2 the content of revision 1. -/
theorem published_torn :
    (∃ t, Machine.run step (start snapshotDocument)
        [.call .join, .next, .apply (makeInsert 0 ['x'] 1 0), .next, .next] = some t ∧
      ∃ pair ∈ t.published, pair.publisher = .join ∧ ¬ Held snapshotDocument t.storage.log pair) ∧
    ∃ t, Machine.run step (start snapshotDocument)
        [.apply (makeDelete 0 0 [] 1 0), .call .snapshot, .next, .apply (makeInsert 0 ['x'] 1 1), .next, .next] =
          some t ∧
      ∃ pair ∈ t.published, pair.publisher = .snapshot ∧ ¬ Held snapshotDocument t.storage.log pair := by
  refine ⟨⟨_, rfl, _, List.mem_singleton_self _, rfl, not_held rfl⟩, ⟨_, rfl, _, List.mem_singleton_self _, rfl, ?_⟩⟩
  rintro ⟨k, hk, hcontent, hrevision⟩
  obtain rfl | rfl | rfl : k = 0 ∨ k = 1 ∨ k = 2 := by
    change k ≤ 2 at hk
    omega
  · exact absurd hrevision (by decide)
  · exact absurd hrevision (by decide)
  · exact absurd hcontent (by decide)

end Publishing

end CollabEditor
