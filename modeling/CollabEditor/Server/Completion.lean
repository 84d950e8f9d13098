import CollabEditor.Lib.Schedules
import CollabEditor.Server.Workers

/-!
# `Server.Completion` — the thread pool comes to rest

The handlers share one lock that they wait for, and no handler waits while it holds it: what `Phase.allows`
leaves to a handler inside of a section of the manager never needs the lock again. So the workers cannot block
each other, whatever the messages are, and as no handler loops for ever, every message is handled to its end.

A handler that drops the last pointer to a session also waits for its thread, in `~DocumentSession`. That thread
has been asked to stop and takes nothing but what is left in its queue; this wait is not part of the model.

## Contents
- **The size of the pool.** `effectiveThreadPoolSize`: there is always a worker.
- **No deadlock.** `ready_of_held`, `Guarded.ready`.
- **Rest.** `workers_rest`.
-/

namespace CollabEditor

namespace Workers

/-! ## The size of the pool -/

/-- `ServerConfig::effective_thread_pool_size`; `hw` is what `hardware_concurrency` returns, 0 where it does not
    know. -/
def effectiveThreadPoolSize (threadPoolSize hw : ℕ) : ℕ :=
  if threadPoolSize > 0 then threadPoolSize
  else if hw > 0 then hw else 4

theorem effectiveThreadPoolSize_pos (threadPoolSize hw : ℕ) : 0 < effectiveThreadPoolSize threadPoolSize hw := by
  unfold effectiveThreadPoolSize
  split_ifs with hconfigured hknown
  · exact hconfigured
  · exact hknown
  · decide

/-! ## No deadlock -/

/-- Inside of a section of the manager, no call waits for its lock. -/
theorem ready_of_held {q : Phase} {c : Call} (hq : q ≠ .free) (h : q.allows c) (s : Server) :
    Server.ready c s = true := by
  cases q with
  | free => exact absurd rfl hq
  | held =>
      cases c with
      | allocate | eraseEntries | removeFiles | unlock | listDocumentsForUser | listed | getRole => rfl
      | _ => cases h
  | created d =>
      cases c with
      | grant | writeFiles | unlock => rfl
      | _ => cases h
  | erased d =>
      cases c with
      | revokeAllForDocument => rfl
      | _ => cases h

theorem ready_of_unlocked {s : Server} (h : s.manager.locked = false) (c : Call) : Server.ready c s = true := by
  cases c <;> simp [Server.ready, h]

variable {q : ℕ → Phase} {s : Workers} {w : ℕ} {c : Call} {next : c.Result → Handler Unit}

/-- **The workers cannot block each other**: where one of them has a call to make, some call is ready. -/
theorem Guarded.ready (h : Guarded q s) (hw : s.workers w = some (.call c next)) :
    ∃ v c' next', s.workers v = some (.call c' next') ∧ Server.ready c' s.world = true := by
  cases hlocked : s.world.manager.locked with
  | false => exact ⟨w, c, next, hw, ready_of_unlocked hlocked c⟩
  | true =>
      -- the worker that holds the lock has a call to make, and need not wait for it
      obtain ⟨v, hv⟩ := h.holder hlocked
      cases hp : s.workers v with
      | none => exact absurd (h.idle v hp) hv
      | some p =>
          have hobeys := h.obeys v p hp
          cases p with
          | pure b => exact absurd hobeys hv
          | throw e => exact absurd hobeys hv
          | call c' next' => exact ⟨v, c', next', hp, ready_of_held hv hobeys.1 s.world⟩

/-! ## Rest -/

section Rest

variable {env : Environment} {dataDir : DataDir} {sessions : List SessionId} {size : ℕ}
variable {es : List (Pool.Event Job)}

theorem run_hasWorkers (hr : Machine.run step (start env dataDir sessions size) es = some s) :
    s.HasWorkers size :=
  Machine.run_preserves (I := Pool.HasWorkers size) (fun _ _ _ h hs => h.step hs) ⟨rfl, fun _ _ => rfl⟩ hr

/-- Where no worker can go on, everything is handled. -/
theorem idle_of_stuck (hsize : 0 < size)
    (hr : Machine.run step (start env dataDir sessions size) es = some s)
    (hend : ∀ e : Pool.Event Job, e.Own → step s e = none) : s.Idle := by
  obtain ⟨q, hguarded⟩ := run_guarded hr
  exact Pool.idle_of_terminal (run_hasWorkers hr) hsize (fun _ _ _ hw => hguarded.ready hw) hend

/-- **The thread pool comes to rest.** However the workers are scheduled, from any state that they can reach,
    they do not go on for ever; where none of them can go on, every message that was received has been handled
    to its end, and no worker waits for the lock; and the workers can get there. -/
theorem workers_rest {threadPoolSize hw : ℕ}
    (hr : Machine.run step (start env dataDir sessions (effectiveThreadPoolSize threadPoolSize hw)) es = some s) :
    (∀ schedule : ℕ → Pool.Event Job, (∀ n, (schedule n).Own) →
      ∃ n, Machine.run step s ((List.range n).map schedule) = none) ∧
    (∀ es' s', Machine.run step s es' = some s' →
      (∀ e : Pool.Event Job, e.Own → step s' e = none) → s'.Idle) ∧
    ∃ es' s', (∀ e ∈ es', e.Own) ∧ Machine.run step s es' = some s' ∧ s'.Idle := by
  have hsize := effectiveThreadPoolSize_pos threadPoolSize hw
  generalize effectiveThreadPoolSize threadPoolSize hw = size at hr hsize
  have hwf := Pool.below_wellFounded (C := Call) (R := Call.Result) (ε := JsonException) size
  have hbelow : ∀ (s : Workers) e s', s.HasWorkers size → e.Own → step s e = some s' →
      s'.HasWorkers size ∧ Pool.Below size (Pool.rank size s') (Pool.rank size s) :=
    fun _ _ _ h hown hs => ⟨h.step hs, Pool.step_below h hown hs⟩
  have hworkers := run_hasWorkers hr
  have hstuck : ∀ es' s', Machine.run step s es' = some s' →
      (∀ e : Pool.Event Job, e.Own → step s' e = none) → s'.Idle :=
    fun es' s' hr' hend => idle_of_stuck hsize (Machine.run_append.mpr ⟨s, hr, hr'⟩) hend
  refine ⟨fun schedule hown => ?_, hstuck, ?_⟩
  · exact Machine.exists_run_eq_none hwf hbelow hworkers hown
  · obtain ⟨es', s', hes, hr', hend⟩ := Machine.exists_terminal_of_wellFounded hwf hbelow hworkers
    exact ⟨es', s', hes, hr', hstuck es' s' hr' hend⟩

/-- A user is logged in twice. Worker 0 has the lock of the manager for the deletion of its document, and worker 1
    waits for it with a join. -/
def contendedRun : List (Pool.Event Job) :=
  Pool.alone 0 (1, some (AuthRequestMsg.toJson { action := "register", username := "a", password := "p" })) 4 ++
    Pool.alone 0 (1, some (docCreateRequest "t")) 8 ++
    Pool.alone 0 (2, some (AuthRequestMsg.toJson { action := "login", username := "a", password := "p" })) 4 ++
    [.submit (1, some (docIdRequest "doc_delete_request" 1)), .submit (2, some (docIdRequest "doc_join_request" 1)),
      .start 0, .start 1] ++ List.replicate 5 (.call 0) ++ List.replicate 3 (.call 1)

theorem workers_rest_contended :
    ∃ s, Machine.run step (start Server.plainEnvironment {} [1, 2] 2) contendedRun = some s ∧
      s.world.manager.locked = true ∧ (s.workers 1).isSome ∧ step s (.call 1) = none ∧
      ∃ es' s', (∀ e ∈ es', e.Own) ∧ Machine.run step s es' = some s' ∧ s'.Idle := by
  have hrun : (Machine.run step (start Server.plainEnvironment {} [1, 2] 2) contendedRun).isSome := by decide +kernel
  have hsized : Machine.run step (start Server.plainEnvironment {} [1, 2] (effectiveThreadPoolSize 0 2)) contendedRun =
      some _ := (Option.some_get hrun).symm
  refine ⟨_, (Option.some_get hrun).symm, ?_, ?_, Option.isNone_iff_eq_none.mp ?_, (workers_rest hsized).2.2⟩
  all_goals
    clear hsized
    decide +kernel +revert

end Rest

end Workers

end CollabEditor
