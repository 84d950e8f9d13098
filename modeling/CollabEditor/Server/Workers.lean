import CollabEditor.Server.Discipline
import CollabEditor.Server.Running

/-!
# `Server.Workers` — the handlers on the thread pool

Every message that a session receives becomes a job of the thread pool, and the workers execute the handlers
of their jobs call by call. The manager's lock keeps its sections apart: at any time at most one handler is
inside of one.

## Contents
- **The pool.** `Workers`, `Workers.step`, `Workers.start`.
- **The lock.** `Guarded`, `guarded_step`.
-/

namespace CollabEditor

/-- A message that a session has received. -/
abbrev Job := SessionId × Option Json

/-- The thread pool of the server, and the objects its threads share. -/
abbrev Workers := Pool Call Call.Result JsonException Server Job

namespace Workers

/-- The task that `main` submits for a message. -/
def body (job : Job) : Handler Unit := MessageHandler.handleMessage job.1 job.2

def step : Workers → Pool.Event Job → Option Workers := Pool.step Server.exec Server.ready body

/-- A pool of `size` workers after the start of the server, when some sessions have connected. -/
def start (env : Environment) (dataDir : DataDir) (sessions : List SessionId) (size : ℕ) : Workers :=
  { world := { Server.start env dataDir with tcpSessions := sessions }, size := size }

/-! ## The lock -/

section Calls

variable {c : Call} {s : Server} {q : Phase} {d : UInt32}

/-- What a call in order does to the phase. -/
theorem allows_cases (h : q.allows c) (r : c.Result) :
    (c = .lock ∧ q = .free ∧ q.move c r = .held) ∨ (c = .unlock ∧ q ≠ .free ∧ q.move c r = .free) ∨
      (c ≠ .lock ∧ c ≠ .unlock ∧ (q.move c r = .free ↔ q = .free) ∧ ∀ d, c = .eraseEntries d → q = .held) := by
  cases q with
  | free =>
      obtain hplain | rfl | ⟨i, msg, rfl, _⟩ := h
      · refine .inr (.inr ⟨?_, ?_, iff_of_true (Phase.move_plain hplain r) rfl, ?_⟩)
        · rintro rfl
          cases hplain
        · rintro rfl
          cases hplain
        · rintro d rfl
          cases hplain
      · exact .inl ⟨rfl, rfl, rfl⟩
      · exact .inr (.inr ⟨nofun, nofun, iff_of_true rfl rfl, nofun⟩)
  | held =>
      cases c with
      | unlock => exact .inr (.inl ⟨rfl, nofun, rfl⟩)
      | allocate | eraseEntries | removeFiles | listDocumentsForUser | listed | getRole =>
          exact .inr (.inr ⟨nofun, nofun, iff_of_false nofun nofun, fun _ _ => rfl⟩)
      | _ => cases h
  | created d =>
      cases c with
      | unlock => exact .inr (.inl ⟨rfl, nofun, rfl⟩)
      | grant | writeFiles => exact .inr (.inr ⟨nofun, nofun, iff_of_false nofun nofun, nofun⟩)
      | _ => cases h
  | erased d =>
      cases c with
      | revokeAllForDocument => exact .inr (.inr ⟨nofun, nofun, iff_of_false nofun nofun, nofun⟩)
      | _ => cases h

theorem exec_locked (hlock : c ≠ .lock) (hunlock : c ≠ .unlock) :
    (s.exec c).1.manager.locked = s.manager.locked := by
  cases c with
  | lock => exact absurd rfl hlock
  | unlock => exact absurd rfl hunlock
  | send i msg =>
      have hcore := Server.manager_of_core (Server.core_sendTo s i msg)
      exact congrArg DocumentManager.locked hcore
  | eraseEntries docId => exact s.manager.locked_eraseEntries docId
  | getOrCreateSession docId => exact s.manager.locked_getOrCreateSession docId
  | publish docId doc =>
      change (s.manager.publish docId doc).1.locked = _
      unfold DocumentManager.publish
      split
      · rfl
      · rfl
  | removeCursor docId userId =>
      change (s.manager.removeCursor docId userId).locked = _
      unfold DocumentManager.removeCursor
      split
      · rfl
      · rfl
  | _ => rfl

/-- Only `delete_document` takes a document out of `documents_`. -/
theorem exec_documents (h : c ≠ .eraseEntries d) (hd : d ∈ s.manager.documents) :
    d ∈ (s.exec c).1.manager.documents := by
  cases c with
  | send i msg =>
      have hcore := Server.manager_of_core (Server.core_sendTo s i msg)
      exact (congrArg (d ∈ ·.documents) hcore).mpr hd
  | allocate title => exact (AList.mem_insert _).mpr (.inr hd)
  | eraseEntries docId =>
      have hne : d ≠ docId := fun hdoc => h (hdoc ▸ rfl)
      refine AList.lookup_isSome.mp ?_
      change ((s.manager.eraseEntries docId).documents.lookup d).isSome = true
      rw [DocumentManager.documents_eraseEntries, if_neg hne]
      exact AList.lookup_isSome.mpr hd
  | getOrCreateSession docId =>
      change d ∈ (s.manager.getOrCreateSession docId).1.documents
      rw [DocumentManager.documents_getOrCreateSession]
      exact hd
  | publish docId doc =>
      change d ∈ (s.manager.publish docId doc).1.documents
      unfold DocumentManager.publish
      split
      · exact hd
      · exact (AList.mem_insert _).mpr (.inr hd)
  | removeCursor docId userId =>
      change d ∈ (s.manager.removeCursor docId userId).documents
      unfold DocumentManager.removeCursor
      split
      · exact hd
      · exact hd
  | _ => exact hd

/-- A handler that comes to have made a document finds it in `documents_`. -/
theorem created_exec (h : q.allows c) (hq : q.move c (s.exec c).2 = .created d) :
    d ∈ (s.exec c).1.manager.documents ∨ q = .created d := by
  cases q with
  | free =>
      obtain hplain | rfl | ⟨i, msg, rfl, _⟩ := h
      · rw [Phase.move_plain hplain] at hq
        cases hq
      · cases hq
      · cases hq
  | held =>
      cases c with
      | allocate title =>
          cases hq
          exact .inl ((AList.mem_insert _).mpr (.inl rfl))
      | eraseEntries | removeFiles | unlock | listDocumentsForUser | listed | getRole => cases hq
      | _ => cases h
  | created d' =>
      cases c with
      | grant | writeFiles => exact .inr hq
      | unlock => cases hq
      | _ => cases h
  | erased d' =>
      cases c with
      | revokeAllForDocument => cases hq
      | _ => cases h

end Calls

/-- Every worker keeps to the discipline, in the phase that `q` gives it, and the lock is held by one of them
    or by none. -/
structure Guarded (q : ℕ → Phase) (s : Workers) : Prop where
  obeys : ∀ w p, s.workers w = some p → p.Obeys Phase.allows Phase.move (· = .free) (q w)
  idle : ∀ w, s.workers w = none → q w = .free
  locked : ∀ w, q w ≠ .free → s.world.manager.locked = true
  holder : s.world.manager.locked = true → ∃ w, q w ≠ .free
  exclusive : ∀ v w, q v ≠ .free → q w ≠ .free → v = w
  created : ∀ w d, q w = .created d → d ∈ s.world.manager.documents

section Guarded

variable {q : ℕ → Phase} {s s' : Workers} {w : ℕ} {c : Call} {next : c.Result → Handler Unit}

theorem guarded_start (env : Environment) (dataDir : DataDir) (sessions : List SessionId) (size : ℕ) :
    Guarded (fun _ => .free) (start env dataDir sessions size) where
  obeys w p hp := by cases hp
  idle _ _ := rfl
  locked _ h := absurd rfl h
  holder h := by cases h
  exclusive _ _ h _ := absurd rfl h
  created _ _ h := by cases h

/-- The pool after the next call of worker `w`. -/
def afterCall (s : Workers) (w : ℕ) (c : Call) (next : c.Result → Handler Unit) : Workers :=
  { s with
    world := (s.world.exec c).1
    workers := Function.update s.workers w (some (next (s.world.exec c).2)) }

/-- The phases after the next call of worker `w`. -/
def phaseAfter (q : ℕ → Phase) (s : Workers) (w : ℕ) (c : Call) : ℕ → Phase :=
  Function.update q w ((q w).move c (s.world.exec c).2)

theorem Guarded.call (h : Guarded q s) (hw : s.workers w = some (.call c next))
    (hready : Server.ready c s.world = true) : Guarded (phaseAfter q s w c) (s.afterCall w c next) := by
  obtain ⟨hallows, hnext⟩ := h.obeys w _ hw
  have hcases := allows_cases hallows (s.world.exec c).2
  have hself : phaseAfter q s w c w = (q w).move c (s.world.exec c).2 := Function.update_self _ _ _
  have hother : ∀ v, v ≠ w → phaseAfter q s w c v = q v := fun v hv => Function.update_of_ne hv _ _
  -- another worker that holds the lock keeps `w` outside of the sections, and from entering one
  have houtside : ∀ v, v ≠ w → q v ≠ .free → q w = .free ∧ c ≠ .lock ∧ c ≠ .unlock ∧
      (q w).move c (s.world.exec c).2 = .free := by
    intro v hv hheld
    have hfree : q w = .free := by
      by_contra hne
      exact hv (h.exclusive v w hheld hne)
    obtain ⟨rfl, _, _⟩ | ⟨_, hne, _⟩ | ⟨hlock, hunlock, hmove, _⟩ := hcases
    · have hlocked := h.locked v hheld
      unfold Server.ready at hready
      rw [hlocked] at hready
      cases hready
    · exact absurd hfree hne
    · exact ⟨hfree, hlock, hunlock, hmove.mpr hfree⟩
  refine ⟨fun v p hp => ?_, fun v hv => ?_, fun v hv => ?_, fun hlocked => ?_,
    fun v u hv hu => ?_, fun v d hv => ?_⟩
  · by_cases hvw : v = w
    · subst hvw
      rw [hself]
      change Function.update s.workers v _ v = some p at hp
      rw [Function.update_self] at hp
      cases hp
      exact hnext _
    · rw [hother v hvw]
      change Function.update s.workers w _ v = some p at hp
      rw [Function.update_of_ne hvw] at hp
      exact h.obeys v p hp
  · by_cases hvw : v = w
    · subst hvw
      change Function.update s.workers v _ v = none at hv
      rw [Function.update_self] at hv
      cases hv
    · rw [hother v hvw]
      change Function.update s.workers w _ v = none at hv
      rw [Function.update_of_ne hvw] at hv
      exact h.idle v hv
  · change (s.world.exec c).1.manager.locked = true
    by_cases hvw : v = w
    · subst hvw
      rw [hself] at hv
      obtain ⟨rfl, _, _⟩ | ⟨_, _, hfree⟩ | ⟨hlock, hunlock, hmove, _⟩ := hcases
      · rfl
      · exact absurd hfree hv
      · rw [exec_locked hlock hunlock]
        exact h.locked v fun hfree => hv (hmove.mpr hfree)
    · rw [hother v hvw] at hv
      obtain ⟨_, hlock, hunlock, _⟩ := houtside v hvw hv
      rw [exec_locked hlock hunlock]
      exact h.locked v hv
  · -- the lock is held by the worker that has taken it, or by the same one as before
    change (s.world.exec c).1.manager.locked = true at hlocked
    obtain ⟨_, _, hheld⟩ | ⟨rfl, _, _⟩ | ⟨hlock, hunlock, hmove, _⟩ := hcases
    · refine ⟨w, ?_⟩
      rw [hself, hheld]
      nofun
    · cases hlocked
    · rw [exec_locked hlock hunlock] at hlocked
      obtain ⟨v, hv⟩ := h.holder hlocked
      refine ⟨v, ?_⟩
      by_cases hvw : v = w
      · rw [hvw] at hv ⊢
        rw [hself]
        exact fun hfree => hv (hmove.mp hfree)
      · rw [hother v hvw]
        exact hv
  · -- where one of two workers in a section is `w`, the other one keeps it out
    by_cases hvw : v = w
    · by_cases huw : u = w
      · rw [hvw, huw]
      · rw [hother u huw] at hu
        rw [hvw, hself] at hv
        exact absurd (houtside u huw hu).2.2.2 hv
    · rw [hother v hvw] at hv
      by_cases huw : u = w
      · rw [huw, hself] at hu
        exact absurd (houtside v hvw hv).2.2.2 hu
      · rw [hother u huw] at hu
        exact h.exclusive v u hv hu
  · change d ∈ (s.world.exec c).1.manager.documents
    by_cases hvw : v = w
    · subst hvw
      rw [hself] at hv
      obtain hmade | hcreated := created_exec hallows hv
      · exact hmade
      · refine exec_documents (fun herase => ?_) (h.created v d hcreated)
        subst herase
        rw [hcreated] at hallows
        exact hallows
    · rw [hother v hvw] at hv
      refine exec_documents (fun herase => ?_) (h.created v d hv)
      subst herase
      obtain ⟨hfree, _⟩ := houtside v hvw (by rw [hv]; nofun)
      rw [hfree] at hallows
      obtain hplain | hlock | ⟨_, _, hsend, _⟩ := hallows
      · cases hplain
      · cases hlock
      · cases hsend

/-- **The sections of the manager's lock exclude each other**, whatever the workers do. -/
theorem guarded_step {e : Pool.Event Job} (h : Guarded q s) (hs : step s e = some s') :
    ∃ q', Guarded q' s' := by
  cases e with
  | submit job =>
      cases hs
      exact ⟨q, h.obeys, h.idle, h.locked, h.holder, h.exclusive, h.created⟩
  | start w =>
      obtain ⟨hnone, _, job, rest, _, rfl⟩ := Pool.start_cases hs
      refine ⟨q, fun v p hp => ?_, fun v hv => ?_, h.locked, h.holder, h.exclusive, h.created⟩
      · by_cases hvw : v = w
        · subst hvw
          dsimp only at hp
          rw [Function.update_self] at hp
          cases hp
          rw [h.idle v hnone]
          exact handleMessage_disciplined job.1 job.2
        · dsimp only at hp
          rw [Function.update_of_ne hvw] at hp
          exact h.obeys v p hp
      · by_cases hvw : v = w
        · rw [hvw]
          exact h.idle w hnone
        · dsimp only at hv
          rw [Function.update_of_ne hvw] at hv
          exact h.idle v hv
  | call w =>
      obtain ⟨c, next, hw, hready, rfl⟩ := Pool.call_cases hs
      exact ⟨phaseAfter q s w c, h.call hw hready⟩
  | finish w =>
      obtain ⟨p, hp, hended, rfl⟩ := Pool.finish_cases hs
      refine ⟨q, fun v p' hp' => ?_, fun v hv => ?_, h.locked, h.holder, h.exclusive, h.created⟩
      · by_cases hvw : v = w
        · subst hvw
          dsimp only at hp'
          rw [Function.update_self] at hp'
          cases hp'
        · dsimp only at hp'
          rw [Function.update_of_ne hvw] at hp'
          exact h.obeys v p' hp'
      · by_cases hvw : v = w
        · rw [hvw]
          have hfree := hended.post (h.obeys w p hp)
          exact hfree
        · dsimp only at hv
          rw [Function.update_of_ne hvw] at hv
          exact h.idle v hv

theorem run_guarded {env : Environment} {dataDir : DataDir} {sessions : List SessionId} {size : ℕ}
    {es : List (Pool.Event Job)} (hr : Machine.run step (start env dataDir sessions size) es = some s) :
    ∃ q, Guarded q s :=
  Machine.run_preserves (I := fun s : Workers => ∃ q, Guarded q s) (fun _ _ _ ⟨_, h⟩ hs => guarded_step h hs)
    ⟨_, guarded_start env dataDir sessions size⟩ hr

end Guarded

/-- Nothing runs once the workers of the pool are idle. -/
theorem idle_of_size {env : Environment} {dataDir : DataDir} {sessions : List SessionId} {size : ℕ}
    {es : List (Pool.Event Job)} {s : Workers}
    (hr : Machine.run step (start env dataDir sessions size) es = some s)
    (h : ∀ w < s.size, (s.workers w).isNone) (w : ℕ) : s.workers w = none := by
  obtain hw | hw := Nat.lt_or_ge w s.size
  · exact Option.isNone_iff_eq_none.mp (h w hw)
  · refine Machine.run_preserves (I := fun s : Workers => ∀ w, s.size ≤ w → s.workers w = none)
      (fun _ _ _ h hs => Pool.step_beyond hs h) (fun _ _ => rfl) hr w hw

end Workers

end CollabEditor
