import CollabEditor.Server.Saving
import CollabEditor.Server.DocumentSession

/-!
# `Server.Shutdown` — a document during a graceful shutdown

`shutdown_server` removes the session of every active document, saves every loaded document and then stops
the autosave thread. Meanwhile that thread may be in the middle of a tick, session threads drain their
queues, and pool tasks may hold a `DocumentSession` or ask for a new one. Both savers write the same
temporary file. Documents share nothing here, so the model follows one of them; the steps that the threads
spend on other documents are none of its steps.

A `DocumentSession` object is named by its place in `sessions`; `current` and `held` are the shared pointers
to it, of the session map and of the pool tasks. Its destructor requests a stop and waits for the thread,
which processes what is left in the queue and exits. `acked` lists the stored operations for which an
acknowledgement has been sent; no step reads it.

## Contents
- **The threads.** `Shutdown`, its events and `step`.
- **An orderly shutdown.** `Orderly`, `Saved`, `shutdown_saves`.
- **Losses.** `shutdown_loses`.
-/

namespace CollabEditor

open Diamond DocumentSession

variable {α σ : Type}

/-- A `DocumentSession` object without its document. -/
structure SessionObject (α σ : Type) where
  commandQueue   : List (DocCommand α σ) := []
  connectedUsers : AList (fun _ : UInt32 => ConnectedUser σ) := ∅
  stopRequested  : Bool := false
  exited         : Bool := false

/-- How far `shutdown_server`, and `main` behind it, have come with the document. -/
inductive MainStage (α : Type) where
  | serving
  /-- In the loop over `all_active_doc_ids`; was the document's session among them? -/
  | removing (active : Bool)
  /-- In `~DocumentSession`, until the thread has exited. -/
  | joining (i : ℕ)
  /-- In `force_save_all`, before `all_loaded_documents`. -/
  | listing
  | saving (stage : SaveStage α)
  /-- In `AutosaveThread::stop`. -/
  | stopping
  | waiting
  /-- `shutdown_server` has returned; `main` waits for the pool and destroys the `DocumentManager`. -/
  | finished
  | destroyed
  deriving DecidableEq, Repr

/-- Where the autosave thread is with the document. -/
inductive AutosaveStage (α : Type) where
  | sleeping
  | ticking
  | saving (stage : SaveStage α)
  | exited
  deriving DecidableEq, Repr

/-- A document during shutdown. -/
structure Shutdown (α σ : Type) where
  storage      : Storage α
  loaded       : Bool
  sessions     : List (SessionObject α σ) := []
  current      : Option ℕ := none
  held         : List ℕ := []
  main         : MainStage α := .serving
  autosave     : AutosaveStage α := .sleeping
  stopAutosave : Bool := false
  acked        : List ℕ := []

namespace Shutdown

inductive Event (α σ : Type) where
  /-- A pool task calls `get_document` and `get_or_create_session`. -/
  | grab
  /-- A pool task that holds a session enqueues a command. -/
  | enqueue (i : ℕ) (cmd : DocCommand α σ)
  /-- A pool task lets go of a session. -/
  | drop (i : ℕ)
  /-- The thread of a session processes its oldest command. -/
  | process (i : ℕ)
  /-- The thread of a session leaves `run`. -/
  | exit (i : ℕ)
  /-- The thread of `main` makes its next step. -/
  | main
  /-- The autosave thread makes its next step. -/
  | autosave

/-- `request_stop` on a session. -/
def requestStop (sessions : List (SessionObject α σ)) (i : ℕ) : List (SessionObject α σ) :=
  sessions.modify i fun s => { s with stopRequested := true }

def grab (t : Shutdown α σ) : Shutdown α σ :=
  match t.current with
  | some i => { t with held := i :: t.held }
  | none =>
      { t with
        loaded := true
        sessions := t.sessions ++ [{}]
        current := some t.sessions.length
        held := t.sessions.length :: t.held }

def enqueue (t : Shutdown α σ) (i : ℕ) (cmd : DocCommand α σ) : Option (Shutdown α σ) :=
  if i ∈ t.held then
    some { t with sessions := t.sessions.modify i fun s => { s with commandQueue := s.commandQueue ++ [cmd] } }
  else none

/-- The last pointer to a session runs its destructor. -/
def drop (t : Shutdown α σ) (i : ℕ) : Option (Shutdown α σ) :=
  if i ∈ t.held then
    let held := t.held.erase i
    some { t with
      held := held
      sessions := if i ∈ held ∨ t.current = some i then t.sessions else requestStop t.sessions i }
  else none

/-- The document and its log after `process_command`. -/
def stored (storage : Storage α) (s : DocumentSession α σ) (cmd : DocCommand α σ) : Storage α :=
  match cmd.type with
  | .operation => storage.applyWithOt cmd.operation
  | _ => { storage with doc := (s.processCommand cmd).1.doc }

def process (t : Shutdown α σ) (i : ℕ) : Option (Shutdown α σ) :=
  match t.sessions[i]? with
  | some { commandQueue := cmd :: rest, connectedUsers := users, stopRequested := stop, exited := false } =>
      let s : DocumentSession α σ := { doc := t.storage.doc, commandQueue := rest, connectedUsers := users }
      let r := s.processCommand cmd
      some { t with
        storage := stored t.storage s cmd
        sessions := t.sessions.set i
          { commandQueue := rest, connectedUsers := r.1.connectedUsers, stopRequested := stop }
        acked := t.acked ++ if r.2.any fun p => p.2.isAck then [t.storage.log.length] else [] }
  | _ => none

def exit (t : Shutdown α σ) (i : ℕ) : Option (Shutdown α σ) :=
  match t.sessions[i]? with
  | some { commandQueue := [], connectedUsers := users, stopRequested := true, exited := false } =>
      some { t with sessions := t.sessions.set i { connectedUsers := users, stopRequested := true, exited := true } }
  | _ => none

/-- `DocumentManager::remove_session`, which destroys the session unless a pool task holds it. -/
def removeSession (t : Shutdown α σ) : Shutdown α σ :=
  match t.current with
  | none => { t with main := .listing }
  | some i =>
      { t with
        current := none
        sessions := requestStop t.sessions i
        main := if i ∈ t.held then .listing else .joining i }

def mainStep (t : Shutdown α σ) : Option (Shutdown α σ) :=
  match t.main with
  | .serving => some { t with main := .removing t.current.isSome }
  | .removing false => some { t with main := .listing }
  | .removing true => some t.removeSession
  | .joining i =>
      if (t.sessions[i]?).any SessionObject.exited then some { t with main := .listing } else none
  | .listing => some { t with main := if t.loaded then .saving .entered else .stopping }
  | .saving .returned => some { t with main := .stopping }
  | .saving stage => (saveStep t.storage stage).map fun r => { t with storage := r.1, main := .saving r.2 }
  | .stopping => some { t with stopAutosave := true, main := .waiting }
  | .waiting => match t.autosave with
      | .exited => some { t with main := .finished }
      | _ => none
  | .finished =>
      if t.held = [] then
        some { t with
          current := none
          sessions := (t.current.map (requestStop t.sessions)).getD t.sessions
          main := .destroyed }
      else none
  | .destroyed => none

/-- The loop of `AutosaveThread::run`. Its snapshots go to other files. -/
def autosaveStep (t : Shutdown α σ) : Option (Shutdown α σ) :=
  match t.autosave with
  | .sleeping =>
      some { t with
        autosave := if t.stopAutosave then .exited else if t.loaded then .ticking else .sleeping }
  | .ticking => some { t with autosave := if t.storage.doc.isDirty then .saving .entered else .sleeping }
  | .saving .returned => some { t with autosave := .sleeping }
  | .saving stage =>
      (saveStep t.storage stage).map fun r => { t with storage := r.1, autosave := .saving r.2 }
  | .exited => none

def step (t : Shutdown α σ) : Event α σ → Option (Shutdown α σ)
  | .grab          => some t.grab
  | .enqueue i cmd => t.enqueue i cmd
  | .drop i        => t.drop i
  | .process i     => t.process i
  | .exit i        => t.exit i
  | .main          => t.mainStep
  | .autosave      => t.autosaveStep

/-! ## An orderly shutdown -/

end Shutdown

/-- `force_save_all` has not copied the content yet. -/
def MainStage.beforeCopy : MainStage α → Bool
  | .serving | .removing _ | .joining _ | .listing | .saving .entered => true
  | _ => false

/-- `force_save_all` has renamed its file, or has passed the document over. -/
def MainStage.afterRename : MainStage α → Bool
  | .saving (.renamed _) | .saving .returned | .stopping | .waiting | .finished | .destroyed => true
  | _ => false

/-- The copy that `force_save_all` has taken. -/
def MainStage.taken : MainStage α → Option (Copy α)
  | .saving stage => stage.taken
  | _ => none

theorem MainStage.taken_of_beforeCopy {stage : MainStage α} (h : stage.beforeCopy = true) : stage.taken = none := by
  cases stage with
  | saving stage =>
      cases stage with
      | entered => rfl
      | _ => cases h
  | _ => rfl

theorem MainStage.afterRename_of_beforeCopy {stage : MainStage α} (h : stage.beforeCopy = true) :
    stage.afterRename = false := by
  cases stage with
  | saving stage =>
      cases stage with
      | entered => rfl
      | _ => cases h
  | serving => rfl
  | removing active => rfl
  | joining i => rfl
  | listing => rfl
  | _ => cases h

/-- The copy that the autosave thread has taken. -/
def AutosaveStage.taken : AutosaveStage α → Option (Copy α)
  | .saving stage => stage.taken
  | _ => none

namespace Shutdown

/-- A saver writes the temporary file only if no other one waits for its rename there, and does not replace
    the file by an older copy. -/
def InTurn (s : Storage α) : SaveStage α → Prop
  | .copied _ => s.tmp.isNone = true
  | .written _ => ∀ c ∈ s.tmp, s.file.age ≤ c.age
  | _ => True

/-- The condition on a step: no operation is stored once `force_save_all` has copied the content, and the
    savers take turns. -/
def Orderly (t : Shutdown α σ) : Event α σ → Prop
  | .process i => ∀ s ∈ t.sessions[i]?, ∀ cmd ∈ s.commandQueue.head?, cmd.type = .operation →
      t.storage.doc.Accepts cmd.operation → t.main.beforeCopy = true
  | .main => match t.main with
      | .saving stage => InTurn t.storage stage
      | _ => True
  | .autosave => match t.autosave with
      | .saving stage => InTurn t.storage stage
      | _ => True
  | _ => True

instance (s : Storage α) : (stage : SaveStage α) → Decidable (InTurn s stage)
  | .copied _ => inferInstanceAs (Decidable (_ = true))
  | .written _ => inferInstanceAs (Decidable (∀ c ∈ s.tmp, s.file.age ≤ c.age))
  | .entered | .renamed _ | .returned => isTrue trivial

instance (t : Shutdown α σ) : (e : Event α σ) → Decidable (t.Orderly e)
  | .process i => inferInstanceAs (Decidable
      (∀ s ∈ t.sessions[i]?, ∀ cmd ∈ s.commandQueue.head?, cmd.type = .operation → _ → _ = true))
  | .main => match h : t.main with
      | .saving stage => decidable_of_iff (InTurn t.storage stage) (by unfold Orderly; rw [h])
      | .serving | .removing _ | .joining _ | .listing | .stopping | .waiting | .finished | .destroyed =>
          isTrue (by unfold Orderly; rw [h]; trivial)
  | .autosave => match h : t.autosave with
      | .saving stage => decidable_of_iff (InTurn t.storage stage) (by unfold Orderly; rw [h])
      | .sleeping | .ticking | .exited => isTrue (by unfold Orderly; rw [h]; trivial)
  | .grab | .enqueue _ _ | .drop _ | .exit _ => isTrue trivial

/-- What an orderly shutdown keeps. The copy of `force_save_all` is complete, the temporary file belongs to
    the saver that is about to rename it, and once `force_save_all` has renamed its own the file is
    complete. -/
structure Saved (base : List α) (t : Shutdown α σ) : Prop where
  exact        : t.storage.Exact base
  mainTaken    : ∀ c ∈ t.main.taken, t.storage.Holds base c ∧ c.age = t.storage.log.length
  autoTaken    : ∀ c ∈ t.autosave.taken, t.storage.Holds base c
  mainWritten  : ∀ c, t.main = .saving (.written c) → t.storage.tmp = some c
  autoWritten  : ∀ c, t.autosave = .saving (.written c) → t.storage.tmp = some c
  alone        : ∀ c c', t.main = .saving (.written c) → t.autosave ≠ .saving (.written c')
  complete     : t.main.afterRename = true → t.storage.file.age = t.storage.log.length
  unloaded     : t.loaded = false → t.storage.log = [] ∧ t.sessions = []
  acknowledged : ∀ i ∈ t.acked, i < t.storage.log.length

/-- All threads have finished. -/
def Finished (t : Shutdown α σ) : Prop :=
  t.main = .destroyed ∧ t.autosave = .exited ∧ t.held = [] ∧ ∀ s ∈ t.sessions, s.exited = true

instance [DecidableEq α] (t : Shutdown α σ) : Decidable t.Finished := inferInstanceAs (Decidable (_ ∧ _))

/-- The file holds a state of the document that contains every acknowledged operation. -/
def Survived (base : List α) (t : Shutdown α σ) : Prop :=
  ∃ k ≤ t.storage.log.length, t.storage.file.content = acts apply base (t.storage.log.take k) ∧
    ∀ i ∈ t.acked, i < k

section Preservation

variable {base : List α} {t t' : Shutdown α σ}

/-- What `process_command` does to the document and its log. -/
theorem stored_cases (storage : Storage α) (s : DocumentSession α σ) (cmd : DocCommand α σ)
    (hs : s.doc = storage.doc) :
    (∃ doc, stored storage s cmd = { storage with doc := doc } ∧ doc.content = storage.doc.content ∧
      ¬ (cmd.type = .operation ∧ storage.doc.Accepts cmd.operation)) ∨
    ∃ doc op, stored storage s cmd = { storage with doc := doc, log := storage.log ++ [op] } ∧
      cmd.type = .operation ∧ storage.doc.Accepts cmd.operation := by
  unfold stored
  have hcontent : s.doc.content = storage.doc.content := congrArg Document.content hs
  cases ht : cmd.type with
  | operation =>
      rcases storage.applyWithOt_cases cmd.operation with ⟨hsame, hnot⟩ | ⟨doc, op, hnew, _, _, happ⟩
      · exact .inl ⟨storage.doc, hsame, rfl, fun h => hnot h.2⟩
      · refine .inr ⟨doc, op, hnew, rfl, fun hold => ?_⟩
        unfold Document.applyWithOt at happ
        rw [if_pos hold] at happ
        cases happ
  | _ =>
      refine .inl ⟨_, rfl, ?_, nofun⟩
      unfold processCommand
      rw [ht]
      exact hcontent

theorem Saved.start (doc : Document α) (loaded : Bool) :
    Saved doc.content
      ({ storage := { doc := doc, file := { content := doc.content, age := 0 } }, loaded := loaded } :
        Shutdown α σ) where
  exact := ⟨rfl, ⟨Nat.le_refl _, rfl⟩, nofun⟩
  mainTaken := nofun
  autoTaken := nofun
  mainWritten := nofun
  autoWritten := nofun
  alone := nofun
  complete := nofun
  unloaded := fun _ => ⟨rfl, rfl⟩
  acknowledged := nofun

theorem Saved.grab (h : Saved base t) : Saved base t.grab := by
  unfold Shutdown.grab
  split
  · exact { h with }
  · exact { h with unloaded := nofun }

/-- The list of sessions plays no part, as long as none appears. -/
theorem Saved.sessions (h : Saved base t) (sessions : List (SessionObject α σ)) (held : List ℕ)
    (hempty : t.sessions = [] → sessions = []) :
    Saved base { t with sessions := sessions, held := held } :=
  { h with unloaded := fun hl => ⟨(h.unloaded hl).1, hempty (h.unloaded hl).2⟩ }

theorem Saved.process {i : ℕ} (h : Saved base t) (hok : t.Orderly (.process i))
    (hs : t.process i = some t') : Saved base t' := by
  unfold Shutdown.process at hs
  split at hs
  case h_2 => cases hs
  case h_1 cmd rest users stop hsession =>
    cases hs
    -- a session that has not been loaded has no commands
    have hloaded : t.loaded = true := by
      cases hl : t.loaded with
      | true => rfl
      | false =>
          rw [(h.unloaded hl).2] at hsession
          cases hsession
    generalize hsess : ({ doc := t.storage.doc, commandQueue := rest, connectedUsers := users } :
      DocumentSession α σ) = s
    have hdoc : s.doc = t.storage.doc := by rw [← hsess]
    have hack : (s.processCommand cmd).2.any (fun p => p.2.isAck) = true →
        cmd.type = .operation ∧ t.storage.doc.Accepts cmd.operation := by
      intro hany
      obtain ⟨p, hp, hpack⟩ := List.any_eq_true.mp hany
      rw [← hdoc]
      exact accepts_of_ack hp hpack
    have hunloaded : ∀ {P : Prop}, t.loaded = false → P := fun hl => by rw [hloaded] at hl; cases hl
    rcases stored_cases t.storage s cmd hdoc with ⟨doc, hstored, hcontent, hnot⟩ | ⟨doc, op, hstored, htype, haccepts⟩
    · -- nothing is stored, so nothing is acknowledged
      have hquiet : ((s.processCommand cmd).2.any fun p => p.2.isAck) = false := by
        by_contra hany
        exact hnot (hack (by simpa using hany))
      rw [hstored, hquiet]
      refine ⟨⟨hcontent.trans h.exact.doc, h.exact.file, h.exact.tmp⟩, h.mainTaken, h.autoTaken, h.mainWritten,
        h.autoWritten, h.alone, h.complete, hunloaded, ?_⟩
      intro k hk
      rw [if_neg Bool.false_ne_true, List.append_nil] at hk
      exact h.acknowledged k hk
    · -- an operation is stored, so `force_save_all` has no copy yet
      have hbefore : t.main.beforeCopy = true := by
        refine hok _ hsession cmd rfl htype haccepts
      have hexact : (stored t.storage s cmd).Exact base := by
        unfold stored
        rw [htype]
        exact h.exact.applyWithOt cmd.operation
      rw [hstored] at hexact ⊢
      refine ⟨hexact, ?_, fun c hc => (h.autoTaken c hc).append doc op, ?_, h.autoWritten, ?_, ?_, hunloaded, ?_⟩
      · intro c hc
        change c ∈ t.main.taken at hc
        rw [MainStage.taken_of_beforeCopy hbefore] at hc
        cases hc
      · intro c hc
        change t.main = _ at hc
        rw [hc] at hbefore
        cases hbefore
      · intro c c' hc
        change t.main = _ at hc
        rw [hc] at hbefore
        cases hbefore
      · intro hafter
        change t.main.afterRename = true at hafter
        rw [MainStage.afterRename_of_beforeCopy hbefore] at hafter
        cases hafter
      · intro k hk
        show k < (t.storage.log ++ [op]).length
        rw [List.length_append, List.length_singleton]
        rcases List.mem_append.mp hk with hold | hnew
        · have := h.acknowledged k hold
          omega
        · split_ifs at hnew
          · rw [List.mem_singleton.mp hnew]
            omega
          · cases hnew

theorem saveStep_written {s s' : Storage α} {stage : SaveStage α} {c : Copy α}
    (h : saveStep s stage = some (s', .written c)) : stage = .copied c ∧ s'.tmp = some c ∧ s'.file = s.file := by
  cases stage with
  | copied c' => cases h; exact ⟨rfl, rfl, rfl⟩
  | written c' =>
      obtain ⟨_, _, hs⟩ := Option.map_eq_some_iff.mp h
      cases hs
  | _ => cases h

/-- A step of a saver touches the temporary file only to write its own copy or to rename it. -/
theorem saveStep_tmp {s s' : Storage α} {stage stage' : SaveStage α} (h : saveStep s stage = some (s', stage'))
    (hother : ∀ c, stage ≠ .written c) (hok : InTurn s stage) {c : Copy α} (htmp : s.tmp = some c) :
    s'.tmp = some c := by
  cases stage with
  | copied c' =>
      change s.tmp.isNone = true at hok
      rw [htmp] at hok
      cases hok
  | written c' => exact absurd rfl (hother c')
  | returned => cases h
  | _ => cases h; exact htmp

/-- A step of a saver leaves the file at an age at least as great. -/
theorem saveStep_file {s s' : Storage α} {stage stage' : SaveStage α} (h : saveStep s stage = some (s', stage'))
    (hok : InTurn s stage) : s.file.age ≤ s'.file.age := by
  cases stage with
  | written c =>
      obtain ⟨source, hsource, hs⟩ := Option.map_eq_some_iff.mp h
      cases hs
      exact hok source hsource
  | returned => cases h
  | _ => cases h; exact Nat.le_refl _

theorem Saved.saveMain {stage stage' : SaveStage α} {s' : Storage α} (h : Saved base t)
    (hmain : t.main = .saving stage) (hok : InTurn t.storage stage)
    (hs : saveStep t.storage stage = some (s', stage')) :
    Saved base { t with storage := s', main := .saving stage' } := by
  have hlog := saveStep_log hs
  have htaken : ∀ c ∈ stage.taken, t.storage.Holds base c ∧ c.age = t.storage.log.length := by
    intro c hc
    exact h.mainTaken c (by rw [hmain]; exact hc)
  obtain ⟨hexact, htaken'⟩ := h.exact.saveStep (fun c hc => (htaken c hc).1) hs
  have hotherWritten : ∀ c, stage = .written c → ∀ c', t.autosave ≠ .saving (.written c') :=
    fun c hc c' => h.alone c c' (by rw [hmain, hc])
  refine ⟨hexact, ?_, ?_, ?_, ?_, ?_, ?_, ?_, ?_⟩
  · intro c hc
    refine ⟨htaken' c hc, ?_⟩
    show c.age = s'.log.length
    rw [hlog]
    cases stage with
    | entered =>
        cases hs
        cases hc
        rfl
    | copied c' =>
        cases hs
        cases hc
        exact (htaken _ rfl).2
    | written c' =>
        obtain ⟨_, _, hs⟩ := Option.map_eq_some_iff.mp hs
        cases hs
        cases hc
        exact (htaken _ rfl).2
    | renamed c' => cases hs; cases hc
    | returned => cases hs
  · intro c hc
    exact (h.autoTaken c hc).of_log hlog
  · intro c hc
    cases hc
    exact (saveStep_written hs).2.1
  · intro c hc
    have hnot : ∀ c', stage ≠ .written c' := fun c' hc' => hotherWritten c' hc' c hc
    exact saveStep_tmp hs hnot hok (h.autoWritten c hc)
  · intro c c' hc hc'
    cases hc
    -- the temporary file was free when this saver wrote it
    obtain ⟨rfl, _, _⟩ := saveStep_written hs
    change t.storage.tmp.isNone = true at hok
    rw [h.autoWritten c' hc'] at hok
    cases hok
  · intro hafter
    show s'.file.age = s'.log.length
    rw [hlog]
    cases stage with
    | entered => cases hs; cases hafter
    | copied c => cases hs; cases hafter
    | written c =>
        have htmp := h.mainWritten c hmain
        change t.storage.tmp.map _ = _ at hs
        rw [htmp] at hs
        cases hs
        exact (htaken c rfl).2
    | renamed c =>
        cases hs
        exact h.complete (by rw [hmain]; rfl)
    | returned => cases hs
  · intro hl
    obtain ⟨hempty, hsessions⟩ := h.unloaded hl
    exact ⟨by show s'.log = []; rw [hlog]; exact hempty, hsessions⟩
  · intro i hi
    show i < s'.log.length
    rw [hlog]
    exact h.acknowledged i hi

theorem Saved.saveAuto {stage stage' : SaveStage α} {s' : Storage α} (h : Saved base t)
    (hauto : t.autosave = .saving stage) (hok : InTurn t.storage stage)
    (hs : saveStep t.storage stage = some (s', stage')) :
    Saved base { t with storage := s', autosave := .saving stage' } := by
  have hlog := saveStep_log hs
  obtain ⟨hexact, htaken'⟩ := h.exact.saveStep (fun c hc => h.autoTaken c (by rw [hauto]; exact hc)) hs
  have hotherWritten : ∀ c, stage = .written c → ∀ c', t.main ≠ .saving (.written c') :=
    fun c hc c' hc' => h.alone c' c hc' (by rw [hauto, hc])
  refine ⟨hexact, ?_, htaken', ?_, ?_, ?_, ?_, ?_, ?_⟩
  · intro c hc
    obtain ⟨hholds, hage⟩ := h.mainTaken c hc
    refine ⟨hholds.of_log hlog, ?_⟩
    show c.age = s'.log.length
    rw [hlog]
    exact hage
  · intro c hc
    have hnot : ∀ c', stage ≠ .written c' := fun c' hc' => hotherWritten c' hc' c hc
    exact saveStep_tmp hs hnot hok (h.mainWritten c hc)
  · intro c hc
    cases hc
    exact (saveStep_written hs).2.1
  · intro c c' hc hc'
    cases hc'
    obtain ⟨rfl, _, _⟩ := saveStep_written hs
    change t.storage.tmp.isNone = true at hok
    rw [h.mainWritten c hc] at hok
    cases hok
  · intro hafter
    -- the file was complete, and an older copy does not replace it
    have hcomplete := h.complete hafter
    have hge := saveStep_file hs hok
    have hle := hexact.file.1
    show s'.file.age = s'.log.length
    rw [hlog] at hle ⊢
    omega
  · intro hl
    obtain ⟨hempty, hsessions⟩ := h.unloaded hl
    exact ⟨by show s'.log = []; rw [hlog]; exact hempty, hsessions⟩
  · intro i hi
    show i < s'.log.length
    rw [hlog]
    exact h.acknowledged i hi

/-- `main` goes on without saving. -/
theorem Saved.setMain (h : Saved base t) {stage : MainStage α} (htaken : stage.taken = none)
    (hcomplete : stage.afterRename = true → t.main.afterRename = true ∨ t.loaded = false) :
    Saved base { t with main := stage } := by
  refine { h with mainTaken := ?_, mainWritten := ?_, alone := ?_, complete := ?_ }
  · intro c hc
    rw [htaken] at hc
    cases hc
  · rintro c rfl
    cases htaken
  · rintro c c' rfl
    cases htaken
  · intro hafter
    rcases hcomplete hafter with hbefore | hl
    · exact h.complete hbefore
    · have hle := h.exact.file.1
      show t.storage.file.age = t.storage.log.length
      rw [(h.unloaded hl).1, List.length_nil] at hle ⊢
      omega

/-- The autosave thread goes on without saving. -/
theorem Saved.setAuto (h : Saved base t) {stage : AutosaveStage α} (htaken : stage.taken = none) :
    Saved base { t with autosave := stage } := by
  refine { h with autoTaken := ?_, autoWritten := ?_, alone := ?_ }
  · intro c hc
    rw [htaken] at hc
    cases hc
  · rintro c rfl
    cases htaken
  · rintro c c' _ rfl
    cases htaken

theorem requestStop_nil (i : ℕ) : requestStop ([] : List (SessionObject α σ)) i = [] := by
  unfold requestStop
  exact List.modify_nil _ _

theorem Saved.mainStep (h : Saved base t) (hok : t.Orderly .main) (hs : t.mainStep = some t') :
    Saved base t' := by
  unfold Shutdown.mainStep at hs
  unfold Orderly at hok
  cases hmain : t.main with
  | serving =>
      rw [hmain] at hs
      cases hs
      exact h.setMain rfl nofun
  | removing active =>
      rw [hmain] at hs
      cases active with
      | false =>
          cases hs
          exact h.setMain rfl nofun
      | true =>
          cases hs
          unfold removeSession
          split
          · exact h.setMain rfl nofun
          · rename_i i hcurrent
            have hstopped := h.sessions (requestStop t.sessions i) t.held fun hempty => by
              rw [hempty]
              exact requestStop_nil i
            have hcleared : Saved base { t with current := none, sessions := requestStop t.sessions i } :=
              { hstopped with }
            split_ifs
            · exact hcleared.setMain rfl nofun
            · exact hcleared.setMain rfl nofun
  | joining i =>
      rw [hmain] at hs
      dsimp only at hs
      split_ifs at hs
      cases hs
      exact h.setMain rfl nofun
  | listing =>
      rw [hmain] at hs
      cases hs
      by_cases hl : t.loaded = true
      · rw [if_pos hl]
        exact h.setMain rfl nofun
      · rw [if_neg hl]
        exact h.setMain rfl fun _ => .inr (Bool.not_eq_true _ ▸ hl)
  | saving stage =>
      rw [hmain] at hs hok
      cases stage with
      | returned =>
          cases hs
          exact h.setMain rfl fun _ => .inl (by rw [hmain]; rfl)
      | _ =>
          obtain ⟨⟨s', stage'⟩, hstep, rfl⟩ := Option.map_eq_some_iff.mp hs
          exact h.saveMain hmain hok hstep
  | stopping =>
      rw [hmain] at hs
      cases hs
      have hstop : Saved base { t with stopAutosave := true } := { h with }
      exact hstop.setMain rfl fun _ => .inl (by show t.main.afterRename = true; rw [hmain]; rfl)
  | waiting =>
      rw [hmain] at hs
      dsimp only at hs
      split at hs
      · cases hs
        exact h.setMain rfl fun _ => .inl (by rw [hmain]; rfl)
      · cases hs
  | finished =>
      rw [hmain] at hs
      dsimp only at hs
      split_ifs at hs
      cases hs
      have hstopped := h.sessions ((t.current.map (requestStop t.sessions)).getD t.sessions) t.held
        fun hempty => by
          rw [hempty]
          cases t.current with
          | none => rfl
          | some i => exact requestStop_nil i
      have hcleared : Saved base { t with
          current := none
          sessions := (t.current.map (requestStop t.sessions)).getD t.sessions } := { hstopped with }
      exact hcleared.setMain rfl fun _ => .inl (by show t.main.afterRename = true; rw [hmain]; rfl)
  | destroyed => rw [hmain] at hs; cases hs

theorem Saved.autosaveStep (h : Saved base t) (hok : t.Orderly .autosave) (hs : t.autosaveStep = some t') :
    Saved base t' := by
  unfold Shutdown.autosaveStep at hs
  unfold Orderly at hok
  cases hauto : t.autosave with
  | sleeping =>
      rw [hauto] at hs
      cases hs
      refine h.setAuto ?_
      split_ifs
      all_goals rfl
  | ticking =>
      rw [hauto] at hs
      cases hs
      refine h.setAuto ?_
      split_ifs
      all_goals rfl
  | saving stage =>
      rw [hauto] at hs hok
      cases stage with
      | returned =>
          cases hs
          exact h.setAuto rfl
      | _ =>
          obtain ⟨⟨s', stage'⟩, hstep, rfl⟩ := Option.map_eq_some_iff.mp hs
          exact h.saveAuto hauto hok hstep
  | exited => rw [hauto] at hs; cases hs

theorem Saved.step (t : Shutdown α σ) (e : Event α σ) (t' : Shutdown α σ) (h : Saved base t)
    (hok : t.Orderly e) (hs : t.step e = some t') : Saved base t' := by
  cases e with
  | grab =>
      cases hs
      exact h.grab
  | enqueue i cmd =>
      change t.enqueue i cmd = some t' at hs
      unfold enqueue at hs
      split_ifs at hs
      cases hs
      exact h.sessions _ t.held fun hempty => by rw [hempty]; exact List.modify_nil _ _
  | drop i =>
      change t.drop i = some t' at hs
      unfold drop at hs
      split_ifs at hs
      cases hs
      refine h.sessions _ _ fun hempty => ?_
      split_ifs
      · exact hempty
      · rw [hempty]
        exact requestStop_nil i
  | process i => exact h.process hok hs
  | exit i =>
      change t.exit i = some t' at hs
      unfold exit at hs
      split at hs
      · cases hs
        exact h.sessions _ t.held fun hempty => by rw [hempty]; rfl
      · cases hs
  | main => exact h.mainStep hok hs
  | autosave => exact h.autosaveStep hok hs

end Preservation

/-- A document whose file holds its content, before any session of it exists. -/
def start (doc : Document α) (loaded : Bool) : Shutdown α σ :=
  { storage := { doc := doc, file := { content := doc.content, age := 0 } }, loaded := loaded }

/-- **Acknowledged operations survive an orderly shutdown**: once all threads have finished, the file holds
    a state of the document that contains every acknowledged operation. -/
theorem shutdown_saves {doc : Document α} {loaded : Bool} {es : List (Event α σ)} {t : Shutdown α σ}
    (hr : Machine.run step (start doc loaded) es = some t)
    (hok : Machine.Along step Orderly (start doc loaded) es) (hfinished : t.Finished) :
    t.Survived doc.content := by
  have h : Saved doc.content t := Machine.run_invariant Saved.step (Saved.start doc loaded) hok hr
  have hcomplete : t.storage.file.age = t.storage.log.length :=
    h.complete (by rw [hfinished.1]; rfl)
  refine ⟨t.storage.file.age, h.exact.file.1, h.exact.file.2, fun i hi => ?_⟩
  rw [hcomplete]
  exact h.acknowledged i hi

/-- User 7 joins. -/
def joinCommand : DocCommand Char ℕ := { type := .join, userId := 7, session := some 1 }

/-- User 7 inserts `x` at the front, on top of a revision. -/
def insertCommand (revision : UInt32) : DocCommand Char ℕ :=
  { type := .operation, operation := makeInsert 0 ['x'] 7 revision, userId := 7 }

/-- The session of user 7 is created, and the user joins. -/
def joined : List (Event Char ℕ) := [.grab, .enqueue 0 joinCommand, .process 0]

/-- A document whose session ends before `force_save_all` starts. -/
def orderlyRun : List (Event Char ℕ) :=
  joined ++ [.enqueue 0 (insertCommand 0), .drop 0, .main, .main, .process 0, .exit 0, .main,
    .autosave, .main, .main, .main, .main, .main, .main, .main, .autosave, .autosave, .main, .main]

theorem shutdown_saves_orderly :
    ∃ t, Machine.run step (start (Document.create 1 "t") true) orderlyRun = some t ∧ t.acked = [0] ∧
      t.Survived [] := by
  have hrun : (Machine.run step (start (Document.create 1 "t") true) orderlyRun).isSome := by decide +kernel
  refine ⟨_, (Option.some_get hrun).symm, ?_, shutdown_saves (Option.some_get hrun).symm ?_ ?_⟩
  · decide +kernel +revert
  · decide +kernel
  · decide +kernel +revert

/-- An autosave tick copies the document after the first operation and renames its file after that of
    `force_save_all`, which holds the second one. -/
def staleRun : List (Event Char ℕ) :=
  joined ++ [.enqueue 0 (insertCommand 0), .process 0, .autosave, .autosave, .autosave,
    .enqueue 0 (insertCommand 1), .process 0, .drop 0, .main, .main, .exit 0, .main,
    .main, .main, .main, .main, .main, .main, .autosave, .autosave, .autosave, .autosave, .main, .autosave,
    .main, .main]

/-- A pool task holds the session across `remove_session`, and its thread stores and acknowledges an
    operation after `force_save_all`. -/
def outlivedRun : List (Event Char ℕ) :=
  joined ++ [.main, .main, .main, .main, .main, .main, .main, .main, .enqueue 0 (insertCommand 0), .process 0,
    .drop 0, .exit 0, .main, .autosave, .main, .main]

theorem not_survived {base : List α} {t : Shutdown α σ} {i : ℕ} (hi : i ∈ t.acked)
    (hlast : t.storage.log.length = i + 1)
    (hfile : t.storage.file.content ≠ acts apply base t.storage.log) : ¬ t.Survived base := by
  rintro ⟨k, hk, hcontent, hacked⟩
  have := hacked i hi
  have hall : k = t.storage.log.length := by omega
  rw [hall, List.take_length] at hcontent
  exact hfile hcontent

/-- **Acknowledged operations are lost in a shutdown**: all threads have finished and no document has been
    deleted, but the file lacks the last acknowledged operation, because an older copy was renamed last, or
    because the session outlived the save. -/
theorem shutdown_loses :
    (∃ t, Machine.run step (start (Document.create 1 "t") true) staleRun = some t ∧ t.Finished ∧
      t.acked = [0, 1] ∧ t.storage.file.content = ['x'] ∧ ¬ t.Survived []) ∧
    ∃ t, Machine.run step (start (Document.create 1 "t") true) outlivedRun = some t ∧ t.Finished ∧
      t.acked = [0] ∧ t.storage.file.content = [] ∧ ¬ t.Survived [] := by
  have hstale : (Machine.run step (start (Document.create 1 "t") true) staleRun).isSome := by decide +kernel
  have houtlived : (Machine.run step (start (Document.create 1 "t") true) outlivedRun).isSome := by
    decide +kernel
  constructor
  · refine ⟨_, (Option.some_get hstale).symm, ?_, ?_, ?_, not_survived (i := 1) ?_ ?_ ?_⟩
    all_goals decide +kernel +revert
  · refine ⟨_, (Option.some_get houtlived).symm, ?_, ?_, ?_, not_survived (i := 0) ?_ ?_ ?_⟩
    all_goals decide +kernel +revert

end Shutdown

end CollabEditor
