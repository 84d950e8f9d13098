import CollabEditor.Lib.Machine
import Mathlib.Algebra.Ring.Nat
import Mathlib.Data.List.Count
import Mathlib.Data.List.Range

/-!
# `Core.ThreadPool` — who has a task, and who counts it

`collab::ThreadPool`. A task is in the queue, in the hands of a worker, or finished. A worker takes a task out of the
queue under the queue's mutex and adds itself to `active_tasks_` afterwards, so between the two steps the task is in
neither of the places that `wait_idle` looks at.

Tasks are numbered as they are submitted. A task that throws is caught, so it ends as one that returns.

## Contents
- **The pool.** `Worker`, `ThreadPool`, its events and `step`.
- **The invariant.** `Accounted`: each task is in one place.
- **The end.** `remaining`, and `Accounted.allRun_of_quiet`.
- **Runs.** `Right`, `Counts`; `pool_waits_and_runs`.
-/

namespace CollabEditor

/-- Where a worker is in its loop. -/
inductive Position where
  /-- In `queue_cv_.wait`. -/
  | waiting
  | popped (task : ℕ)
  /-- After `active_tasks_.fetch_add`. -/
  | counted (task : ℕ)
  | running (task : ℕ)
  /-- The task has returned or thrown. -/
  | done
  /-- After `active_tasks_.fetch_sub`, before `idle_cv_.notify_all`. -/
  | notifying
  | exited
  deriving DecidableEq, Repr

structure Worker where
  position      : Position := .waiting
  stopRequested : Bool := false
  deriving DecidableEq, Repr

/-- `collab::ThreadPool`. For each call of `wait_idle` that has not returned, `waits` has the number of tasks that
    had been submitted when it began; no step reads `started` and `finished`, the runs of tasks. -/
structure ThreadPool where
  workers    : List Worker
  tasks      : List ℕ := []
  active     : ℤ := 0
  submitted  : ℕ := 0
  waits      : List ℕ := []
  started    : List ℕ := []
  finished   : List ℕ := []
  /-- The destructor is running. -/
  destroying : Bool := false
  deriving DecidableEq, Repr

namespace Position

/-- The worker has the task and has not finished it. -/
def holds (t : ℕ) : Position → Bool
  | popped u | counted u | running u       => u == t
  | waiting | done | notifying | exited => false

/-- The worker has begun to run the task and has not finished it. -/
def runs (t : ℕ) : Position → Bool
  | running u                                                       => u == t
  | popped _ | counted _ | waiting | done | notifying | exited => false

/-- The worker is counted in `active_tasks_`. -/
def isCounted : Position → Bool
  | counted _ | running _ | done           => true
  | popped _ | waiting | notifying | exited => false

end Position

namespace ThreadPool

inductive Event where
  /-- `submit`, by the task that a worker is running or by another thread. -/
  | submit (caller : Option ℕ)
  /-- `wait_idle` is called. -/
  | waitIdle
  /-- The `k`-th call of `wait_idle` evaluates its condition. -/
  | check (k : ℕ)
  /-- A worker makes its next step. -/
  | worker (i : ℕ)
  /-- The destructor begins. -/
  | destroy
  /-- The destructor requests a worker to stop, and will join it. -/
  | stop (i : ℕ)
  /-- All workers are joined. -/
  | destroyed
  deriving DecidableEq, Repr

def submit (s : ThreadPool) : ThreadPool :=
  { s with tasks := s.tasks ++ [s.submitted], submitted := s.submitted + 1 }

/-- The thread of a worker is in a task. -/
def isRunning (s : ThreadPool) (i : ℕ) : Bool :=
  match (s.workers[i]?).map Worker.position with
  | some (.running _) => true
  | _                 => false

/-- The condition of `wait_idle`: the queue is looked at under its mutex. -/
def idle (s : ThreadPool) : Bool := s.tasks.isEmpty && s.active == 0

/-- A worker comes to a new position. -/
def move (s : ThreadPool) (i : ℕ) (w : Worker) (position : Position) : ThreadPool :=
  { s with workers := s.workers.set i { w with position := position } }

/-- `ThreadPool::worker`, one step. -/
def workerStep (s : ThreadPool) (i : ℕ) (w : Worker) : Option ThreadPool :=
  match w.position with
  | .waiting => match s.tasks with
      | task :: rest => some ({ s with tasks := rest }.move i w (.popped task))
      | []           => if w.stopRequested then some (s.move i w .exited) else none
  | .popped task => some ({ s with active := s.active + 1 }.move i w (.counted task))
  | .counted task => some ({ s with started := s.started ++ [task] }.move i w (.running task))
  | .running task => some ({ s with finished := s.finished ++ [task] }.move i w .done)
  | .done =>
      let remaining := s.active - 1
      some ({ s with active := remaining }.move i w (if remaining = 0 then .notifying else .waiting))
  | .notifying => some (s.move i w .waiting)
  | .exited => none

/-- All workers have been told to stop and have stopped. -/
def Joined (s : ThreadPool) : Prop := s.destroying = true ∧ ∀ w ∈ s.workers, w.position = .exited

instance (s : ThreadPool) : Decidable s.Joined := inferInstanceAs (Decidable (_ ∧ _))

def step (s : ThreadPool) : Event → Option ThreadPool
  | .submit none => if s.destroying then none else some s.submit
  | .submit (some i) => if s.isRunning i then some s.submit else none
  | .waitIdle => some { s with waits := s.waits ++ [s.submitted] }
  | .check k => s.waits[k]?.map fun _ => if s.idle then { s with waits := s.waits.eraseIdx k } else s
  | .worker i => s.workers[i]?.bind fun w => s.workerStep i w
  | .destroy => some { s with destroying := true }
  | .stop i =>
      -- one worker after the other is stopped and joined
      if s.destroying ∧ ∀ w ∈ s.workers, w.stopRequested = true → w.position = .exited then
        s.workers[i]?.map fun w => { s with workers := s.workers.set i { w with stopRequested := true } }
      else none
  | .destroyed => if s.Joined then some s else none

/-- A new pool. -/
def start (numThreads : ℕ) : ThreadPool := { workers := List.replicate numThreads {} }

/-! ## The invariant -/

/-- Each task that was submitted is in the queue, with one worker, or finished; the workers after `fetch_add` are
    counted; and workers exit only when nothing is left. -/
structure Accounted (s : ThreadPool) : Prop where
  placed  : ∀ t, s.tasks.count t + s.workers.countP (·.position.holds t) + s.finished.count t =
    if t < s.submitted then 1 else 0
  begun   : ∀ t, s.started.count t = s.workers.countP (·.position.runs t) + s.finished.count t
  active  : s.active = s.workers.countP (·.position.isCounted)
  waits   : ∀ n ∈ s.waits, n ≤ s.submitted
  stopped : ∀ w ∈ s.workers, w.stopRequested = true ∨ w.position = .exited → s.destroying = true
  drained : (∀ w ∈ s.workers, w.position = .exited) → s.workers ≠ [] → s.tasks = []
  unrun   : s.workers = [] → s.finished = []

/-- What replacing one element does to a count. -/
theorem countP_set_add {α : Type*} {l : List α} {i : ℕ} {a b : α} (p : α → Bool) (h : l[i]? = some a) :
    (l.set i b).countP p + (if p a then 1 else 0) = l.countP p + if p b then 1 else 0 := by
  obtain ⟨hlt, rfl⟩ := List.getElem?_eq_some_iff.mp h
  have hle : (if p l[i] then 1 else 0) ≤ l.countP p := List.boole_getElem_le_countP hlt
  rw [List.countP_set hlt]
  omega

section Accounted

variable {s s' : ThreadPool} {i : ℕ} {w : Worker}

theorem accounted_start (numThreads : ℕ) : (start numThreads).Accounted where
  placed t := by simp [start, List.countP_replicate, Position.holds]
  begun t := by simp [start, List.countP_replicate, Position.runs]
  active := by simp [start, List.countP_replicate, Position.isCounted]
  waits := nofun
  stopped w hw := by
    rw [List.eq_of_mem_replicate hw]
    rintro (h | h) <;> cases h
  drained _ _ := rfl
  unrun _ := rfl

/-- A worker moves, and its task with it. -/
theorem Accounted.move (h : s.Accounted) (hw : s.workers[i]? = some w) {tasks started finished : List ℕ} {active : ℤ}
    {p : Position}
    (hplaced : ∀ t, tasks.count t + (if p.holds t then 1 else 0) + finished.count t =
      s.tasks.count t + (if w.position.holds t then 1 else 0) + s.finished.count t)
    (hbegun : ∀ t, started.count t + (if w.position.runs t then 1 else 0) + s.finished.count t =
      s.started.count t + (if p.runs t then 1 else 0) + finished.count t)
    (hactive : active + (if w.position.isCounted then 1 else 0) = s.active + if p.isCounted then 1 else 0)
    (hexited : p = .exited → s.destroying = true ∧ tasks = []) :
    Accounted ({ s with tasks := tasks, started := started, finished := finished, active := active }.move i w p) := by
  have hmem : w ∈ s.workers := List.mem_of_getElem? hw
  have hnew : { w with position := p } ∈ s.workers.set i { w with position := p } :=
    List.mem_set (List.getElem?_eq_some_iff.mp hw).1 _
  constructor
  · intro t
    have hset := countP_set_add (b := { w with position := p }) (·.position.holds t) hw
    have hold := h.placed t
    have hmoved := hplaced t
    show tasks.count t + (s.workers.set i _).countP (·.position.holds t) + finished.count t =
      if t < s.submitted then 1 else 0
    rw [← hold]
    dsimp only at hset
    omega
  · intro t
    have hset := countP_set_add (b := { w with position := p }) (·.position.runs t) hw
    have hold := h.begun t
    have hmoved := hbegun t
    show started.count t = (s.workers.set i _).countP (·.position.runs t) + finished.count t
    dsimp only at hset
    omega
  · have hset := countP_set_add (b := { w with position := p }) (·.position.isCounted) hw
    have hold := h.active
    show active = ((s.workers.set i _).countP (·.position.isCounted) : ℕ)
    dsimp only at hset
    split_ifs at hset hactive <;> omega
  · exact h.waits
  · intro w' hw' hstop
    rcases List.mem_or_eq_of_mem_set hw' with hold | rfl
    · exact h.stopped w' hold hstop
    · rcases hstop with hstop | hstop
      · exact h.stopped w hmem (.inl hstop)
      · exact (hexited hstop).1
  · intro hall _
    exact (hexited (hall _ hnew)).2
  · intro hempty
    change s.workers.set i { w with position := p } = [] at hempty
    rw [hempty] at hnew
    cases hnew

/-- A worker moves and has the same task as before, or none. -/
theorem Accounted.recount (h : s.Accounted) (hw : s.workers[i]? = some w) {active : ℤ} {p : Position}
    (hholds : ∀ t, p.holds t = w.position.holds t) (hruns : ∀ t, p.runs t = w.position.runs t)
    (hactive : active + (if w.position.isCounted then 1 else 0) = s.active + if p.isCounted then 1 else 0)
    (hexited : p = .exited → s.destroying = true ∧ s.tasks = []) :
    Accounted ({ s with active := active }.move i w p) := by
  refine h.move hw ?_ ?_ hactive hexited
  · intro t
    rw [hholds]
  · intro t
    rw [hruns]

/-- **A worker's step** moves its task on. -/
theorem Accounted.worker (h : s.Accounted) (hs : s.step (.worker i) = some s') : s'.Accounted := by
  obtain ⟨w, hw, hstep⟩ := Option.bind_eq_some_iff.mp hs
  have hmem : w ∈ s.workers := List.mem_of_getElem? hw
  unfold workerStep at hstep
  cases hp : w.position with
  | waiting =>
      rw [hp] at hstep
      cases htasks : s.tasks with
      | cons task rest =>
          -- from the queue into the worker's hands, and not counted
          simp only [htasks] at hstep
          cases hstep
          refine h.move hw (p := .popped task) ?_ ?_ ?_ nofun
          · intro t
            simp only [hp, htasks, Position.holds, List.count_cons, beq_iff_eq, Bool.false_eq_true, if_false]
            omega
          · intro t
            simp [hp, Position.runs]
          · simp [hp, Position.isCounted]
      | nil =>
          simp only [htasks] at hstep
          split_ifs at hstep with hstop
          cases hstep
          refine h.recount hw ?_ ?_ ?_ ?_
          · intro t
            rw [hp]
            rfl
          · intro t
            rw [hp]
            rfl
          · simp [hp, Position.isCounted]
          · intro _
            exact ⟨h.stopped w hmem (.inl hstop), htasks⟩
  | popped task | notifying =>
      rw [hp] at hstep
      cases hstep
      refine h.recount hw ?_ ?_ ?_ nofun
      · intro t
        rw [hp]
        rfl
      · intro t
        rw [hp]
        rfl
      · simp [hp, Position.isCounted]
  | counted task =>
      rw [hp] at hstep
      cases hstep
      refine h.move hw (p := .running task) ?_ ?_ ?_ nofun
      · intro t
        simp [hp, Position.holds]
      · intro t
        simp only [hp, Position.runs, List.count_append, List.count_singleton, beq_iff_eq, Bool.false_eq_true, if_false]
        omega
      · simp [hp, Position.isCounted]
  | running task =>
      rw [hp] at hstep
      cases hstep
      refine h.move hw (p := .done) ?_ ?_ ?_ nofun
      · intro t
        simp only [hp, Position.holds, List.count_append, List.count_singleton, beq_iff_eq, Bool.false_eq_true, if_false]
        omega
      · intro t
        simp only [hp, Position.runs, List.count_append, List.count_singleton, beq_iff_eq, Bool.false_eq_true, if_false]
        omega
      · simp [hp, Position.isCounted]
  | done =>
      rw [hp] at hstep
      cases hstep
      refine h.recount hw ?_ ?_ ?_ ?_
      · intro t
        rw [hp]
        split_ifs <;> rfl
      · intro t
        rw [hp]
        split_ifs <;> rfl
      · have hquiet : (if s.active - 1 = 0 then Position.notifying else .waiting).isCounted = false := by
          split_ifs <;> rfl
        rw [hp, hquiet]
        simp [Position.isCounted]
      · -- the last one to finish notifies, the others wait for the next task
        intro hexited
        split_ifs at hexited
  | exited =>
      rw [hp] at hstep
      cases hstep

/-- **A worker is told to stop**, wherever it is. -/
theorem Accounted.stop (h : s.Accounted) (hw : s.workers[i]? = some w) (hdestroying : s.destroying = true) :
    Accounted { s with workers := s.workers.set i { w with stopRequested := true } } := by
  have hpositions : (s.workers.set i { w with stopRequested := true }).map Worker.position =
      s.workers.map Worker.position := by
    obtain ⟨hlt, rfl⟩ := List.getElem?_eq_some_iff.mp hw
    rw [List.map_set]
    show (s.workers.map Worker.position).set i s.workers[i].position = _
    rw [← List.getElem_map Worker.position (h := by simpa using hlt), List.set_getElem_self]
  have hcount : ∀ p : Position → Bool,
      (s.workers.set i { w with stopRequested := true }).countP (p ·.position) = s.workers.countP (p ·.position) := by
    intro p
    have hmap := congrArg (List.countP p) hpositions
    rwa [List.countP_map, List.countP_map] at hmap
  refine ⟨?_, ?_, ?_, h.waits, fun _ _ _ => hdestroying, ?_, ?_⟩
  · intro t
    rw [hcount]
    exact h.placed t
  · intro t
    rw [hcount]
    exact h.begun t
  · rw [hcount]
    exact h.active
  · intro hall hne
    refine h.drained ?_ fun hempty => ?_
    · rw [← List.forall_mem_map (f := Worker.position) (P := (· = .exited)), ← hpositions]
      exact List.forall_mem_map.mpr hall
    · rw [hempty] at hw
      cases hw
  · intro hempty
    apply h.unrun
    simpa using hempty

/-- **A task is submitted**, while some worker is there for it. -/
theorem Accounted.submit (h : s.Accounted) (halive : s.workers ≠ [] → ¬ ∀ w ∈ s.workers, w.position = .exited) :
    s.submit.Accounted where
  placed t := by
    have hold := h.placed t
    show (s.tasks ++ [s.submitted]).count t + s.workers.countP (·.position.holds t) + s.finished.count t =
      if t < s.submitted + 1 then 1 else 0
    rw [List.count_append, List.count_singleton]
    simp only [beq_iff_eq]
    split_ifs at hold ⊢ <;> omega
  begun := h.begun
  active := h.active
  waits n hn := Nat.le_succ_of_le (h.waits n hn)
  stopped := h.stopped
  drained hall hne := absurd hall (halive hne)
  unrun := h.unrun

/-- **Every step** leaves each task in one place. -/
theorem Accounted.step (h : s.Accounted) {e : Event} (hs : s.step e = some s') : s'.Accounted := by
  cases e with
  | worker i => exact h.worker hs
  | submit caller =>
      simp only [ThreadPool.step] at hs
      cases caller with
      | none =>
          simp only at hs
          split_ifs at hs with hdestroying
          cases hs
          refine h.submit ?_
          intro hne hall
          obtain ⟨w, hw⟩ := List.exists_mem_of_ne_nil _ hne
          exact hdestroying (h.stopped w hw (.inr (hall w hw)))
      | some i =>
          simp only at hs
          split_ifs at hs with hrunning
          cases hs
          refine h.submit ?_
          intro _ hall
          unfold isRunning at hrunning
          cases hw : s.workers[i]? with
          | none => simp [hw] at hrunning
          | some w =>
              have hexited := hall w (List.mem_of_getElem? hw)
              simp [hw, hexited] at hrunning
  | waitIdle =>
      cases hs
      refine ⟨h.placed, h.begun, h.active, ?_, h.stopped, h.drained, h.unrun⟩
      intro n hn
      rcases List.mem_append.mp hn with hn | hn
      · exact h.waits n hn
      · rw [List.mem_singleton.mp hn]
  | check k =>
      obtain ⟨n, -, rfl⟩ := Option.map_eq_some_iff.mp hs
      split_ifs
      · refine ⟨h.placed, h.begun, h.active, ?_, h.stopped, h.drained, h.unrun⟩
        exact fun m hm => h.waits m (List.mem_of_mem_eraseIdx hm)
      · exact h
  | destroy =>
      cases hs
      exact ⟨h.placed, h.begun, h.active, h.waits, fun _ _ _ => rfl, h.drained, h.unrun⟩
  | stop i =>
      simp only [ThreadPool.step] at hs
      split_ifs at hs with hok
      obtain ⟨w, hw, rfl⟩ := Option.map_eq_some_iff.mp hs
      exact h.stop hw hok.1
  | destroyed =>
      simp only [ThreadPool.step] at hs
      split_ifs at hs
      cases hs
      exact h

/-- No step starts a worker or loses one. -/
theorem length_workers_step {e : Event} (hs : s.step e = some s') : s'.workers.length = s.workers.length := by
  cases e with
  | worker i =>
      obtain ⟨w, hw, hstep⟩ := Option.bind_eq_some_iff.mp hs
      unfold workerStep at hstep
      split at hstep
      · split at hstep
        · cases hstep
          exact List.length_set
        · split_ifs at hstep
          cases hstep
          exact List.length_set
      all_goals cases hstep <;> exact List.length_set
  | submit caller =>
      cases caller <;> (simp only [ThreadPool.step] at hs; split_ifs at hs; cases hs; rfl)
  | waitIdle =>
      cases hs
      rfl
  | check k =>
      obtain ⟨n, -, rfl⟩ := Option.map_eq_some_iff.mp hs
      split_ifs <;> rfl
  | destroy =>
      cases hs
      rfl
  | stop i =>
      simp only [ThreadPool.step] at hs
      split_ifs at hs
      obtain ⟨w, -, rfl⟩ := Option.map_eq_some_iff.mp hs
      exact List.length_set
  | destroyed =>
      simp only [ThreadPool.step] at hs
      split_ifs at hs
      cases hs
      rfl

end Accounted

/-! ## The workers come to an end -/

end ThreadPool

/-- How many steps a worker can make without taking another task. -/
def Position.weight : Position → ℕ
  | .popped _  => 6
  | .counted _ => 5
  | .running _ => 4
  | .done      => 3
  | .notifying => 2
  | .waiting   => 1
  | .exited    => 0

namespace ThreadPool

/-- What is left to do for the workers. -/
def remaining (s : ThreadPool) : ℕ := 6 * s.tasks.length + (s.workers.map (·.position.weight)).sum

/-- Each task that was submitted has run, once. -/
def AllRun (s : ThreadPool) : Prop := ∀ t < s.submitted, s.started.count t = 1 ∧ t ∈ s.finished

instance (s : ThreadPool) : Decidable s.AllRun := inferInstanceAs (Decidable (∀ t < s.submitted, _))

theorem sum_map_set_add {α : Type*} (f : α → ℕ) {l : List α} {i : ℕ} {a b : α} (h : l[i]? = some a) :
    ((l.set i b).map f).sum + f a = (l.map f).sum + f b := by
  induction l generalizing i with
  | nil => cases h
  | cons x xs ih =>
      cases i with
      | zero =>
          cases h
          simp only [List.set_cons_zero, List.map_cons, List.sum_cons]
          omega
      | succ i =>
          have hrest := ih h
          simp only [List.set_cons_succ, List.map_cons, List.sum_cons]
          omega

section Remaining

variable {s s' : ThreadPool} {i : ℕ} {w : Worker}

theorem remaining_move (hw : s.workers[i]? = some w) (p : Position) :
    (s.move i w p).remaining + w.position.weight = s.remaining + p.weight := by
  have hset := sum_map_set_add (b := { w with position := p }) (·.position.weight) hw
  show 6 * s.tasks.length + ((s.workers.set i { w with position := p }).map (·.position.weight)).sum +
    w.position.weight = 6 * s.tasks.length + (s.workers.map (·.position.weight)).sum + p.weight
  dsimp only at hset
  omega

theorem remaining_move_lt (hw : s.workers[i]? = some w) {p : Position} (hlt : p.weight < w.position.weight) :
    (s.move i w p).remaining < s.remaining := by
  have hmoved := remaining_move hw p
  omega

/-- **A worker's step** leaves less to do. -/
theorem remaining_lt (hs : s.step (.worker i) = some s') : s'.remaining < s.remaining := by
  obtain ⟨w, hw, hstep⟩ := Option.bind_eq_some_iff.mp hs
  unfold workerStep at hstep
  cases hp : w.position with
  | waiting =>
      rw [hp] at hstep
      cases htasks : s.tasks with
      | cons task rest =>
          simp only [htasks] at hstep
          cases hstep
          -- the task leaves the queue, where it counts for more than a worker's whole round
          have hmoved := remaining_move (s := { s with tasks := rest }) hw (.popped task)
          have hqueue : s.remaining = ({ s with tasks := rest } : ThreadPool).remaining + 6 := by
            simp only [remaining, htasks, List.length_cons]
            omega
          simp only [hp, Position.weight] at hmoved
          omega
      | nil =>
          simp only [htasks] at hstep
          split_ifs at hstep with hstop
          cases hstep
          exact remaining_move_lt hw (by simp [hp, Position.weight])
  | popped task | counted task | running task | notifying =>
      rw [hp] at hstep
      cases hstep
      exact remaining_move_lt (s := { s with active := _, started := _, finished := _ }) hw (by simp [hp, Position.weight])
  | done =>
      rw [hp] at hstep
      cases hstep
      refine remaining_move_lt (s := { s with active := _ }) hw ?_
      rw [hp]
      split_ifs <;> decide
  | exited =>
      rw [hp] at hstep
      cases hstep

/-- **Runs of the workers alone** are bounded by what was left to do. -/
theorem length_le_remaining {is : List ℕ} (hr : Machine.run step s (is.map .worker) = some s') :
    is.length + s'.remaining ≤ s.remaining := by
  induction is generalizing s with
  | nil =>
      cases hr
      exact Nat.le_of_eq (Nat.zero_add _)
  | cons i is ih =>
      obtain ⟨t, ht, hrest⟩ := Machine.run_cons.mp hr
      have hlt := remaining_lt ht
      have hle := ih hrest
      rw [List.length_cons]
      omega

/-- A worker that cannot make a step has stopped, or waits for a task. -/
theorem exited_or_waiting (hstuck : s.workerStep i w = none) :
    w.position = .exited ∨ w.position = .waiting ∧ s.tasks = [] := by
  unfold workerStep at hstuck
  cases hp : w.position with
  | exited => exact .inl rfl
  | waiting =>
      refine .inr ⟨rfl, ?_⟩
      rw [hp] at hstuck
      cases htasks : s.tasks with
      | nil => rfl
      | cons task rest =>
          simp only [htasks] at hstuck
          cases hstuck
  | popped task | counted task | running task | done | notifying =>
      rw [hp] at hstuck
      cases hstuck

/-- Where no worker has a task and the queue is empty, each task has run. -/
theorem Accounted.allRun (h : s.Accounted) (htasks : s.tasks = [])
    (hnone : ∀ w ∈ s.workers, w.position = .exited ∨ w.position = .waiting) : s.AllRun := by
  intro t ht
  have hplaced := h.placed t
  have hbegun := h.begun t
  have hholds : s.workers.countP (·.position.holds t) = 0 := by
    rw [List.countP_eq_zero]
    intro w hw
    rcases hnone w hw with hp | hp <;> simp [hp, Position.holds]
  have hruns : s.workers.countP (·.position.runs t) = 0 := by
    rw [List.countP_eq_zero]
    intro w hw
    rcases hnone w hw with hp | hp <;> simp [hp, Position.runs]
  rw [htasks, hholds, if_pos ht, List.count_nil, Nat.zero_add] at hplaced
  rw [hruns, Nat.zero_add, hplaced] at hbegun
  exact ⟨hbegun, List.count_pos_iff.mp (by omega)⟩

/-- **When no worker can make a step**, each task has run. -/
theorem Accounted.allRun_of_quiet (h : s.Accounted) (hne : s.workers ≠ [])
    (hquiet : ∀ i, s.step (.worker i) = none) : s.AllRun := by
  have hstuck : ∀ w ∈ s.workers, w.position = .exited ∨ w.position = .waiting ∧ s.tasks = [] := by
    intro w hw
    obtain ⟨i, hi⟩ := List.mem_iff_getElem?.mp hw
    have hstep := hquiet i
    simp only [ThreadPool.step, hi, Option.bind_some] at hstep
    exact exited_or_waiting hstep
  have htasks : s.tasks = [] := by
    by_cases hall : ∀ w ∈ s.workers, w.position = .exited
    · exact h.drained hall hne
    · obtain ⟨w, hw, hp⟩ : ∃ w ∈ s.workers, w.position ≠ .exited := by
        simpa using hall
      rcases hstuck w hw with hexited | ⟨-, hempty⟩
      · exact absurd hexited hp
      · exact hempty
  refine h.allRun htasks fun w hw => ?_
  rcases hstuck w hw with hp | ⟨hp, -⟩
  · exact .inl hp
  · exact .inr hp

end Remaining

/-! ## Runs -/

/-- A call of `wait_idle` returns when each task submitted before it has finished, and the pool is destroyed when each
    task has run. -/
def Right (s : ThreadPool) : Event → Prop
  | .check k   => s.idle = true → ∀ n ∈ s.waits[k]?, ∀ t < n, t ∈ s.finished
  | .destroyed => s.Joined → s.AllRun
  | _          => True

/-- When `wait_idle` finds the pool idle, no worker has taken a task submitted before it without counting it; and a
    pool without workers was given no task. -/
def Counts (s : ThreadPool) : Event → Prop
  | .check k   => s.idle = true → ∀ n ∈ s.waits[k]?, ∀ t < n, ∀ w ∈ s.workers, w.position ≠ .popped t
  | .destroyed => s.Joined → s.workers = [] → s.submitted = 0
  | _          => True

instance (s : ThreadPool) : (e : Event) → Decidable (s.Right e)
  | .check k   => inferInstanceAs (Decidable (s.idle = true → ∀ n ∈ s.waits[k]?, ∀ t < n, t ∈ s.finished))
  | .destroyed => inferInstanceAs (Decidable (s.Joined → s.AllRun))
  | .submit _ | .waitIdle | .worker _ | .destroy | .stop _ => isTrue trivial

instance (s : ThreadPool) : (e : Event) → Decidable (s.Counts e)
  | .check k   => inferInstanceAs (Decidable
      (s.idle = true → ∀ n ∈ s.waits[k]?, ∀ t < n, ∀ w ∈ s.workers, w.position ≠ .popped t))
  | .destroyed => inferInstanceAs (Decidable (s.Joined → s.workers = [] → s.submitted = 0))
  | .submit _ | .waitIdle | .worker _ | .destroy | .stop _ => isTrue trivial

section Runs

variable {s : ThreadPool}

/-- **In an idle pool**, a task is finished unless a worker has taken it and has not counted it. -/
theorem Accounted.mem_finished_iff (h : s.Accounted) (hidle : s.idle = true) {t : ℕ} (ht : t < s.submitted) :
    t ∈ s.finished ↔ ∀ w ∈ s.workers, w.position ≠ .popped t := by
  simp only [idle, Bool.and_eq_true, List.isEmpty_iff, beq_iff_eq] at hidle
  obtain ⟨htasks, hactive⟩ := hidle
  have hcounted : s.workers.countP (·.position.isCounted) = 0 := by
    have := h.active
    omega
  rw [List.countP_eq_zero] at hcounted
  have hplaced := h.placed t
  rw [htasks, if_pos ht, List.count_nil, Nat.zero_add] at hplaced
  have hholds : s.workers.countP (·.position.holds t) = 0 ↔ ∀ w ∈ s.workers, w.position ≠ .popped t := by
    rw [List.countP_eq_zero]
    constructor
    · intro hnone w hw hp
      exact hnone w hw (by simp [hp, Position.holds])
    · intro hnone w hw hheld
      have hnot := hcounted w hw
      cases hp : w.position with
      | popped u =>
          rw [hp] at hheld
          have hut : u = t := by simpa [Position.holds] using hheld
          exact hnone w hw (by rw [hp, hut])
      | counted u | running u =>
          rw [hp] at hnot
          exact hnot rfl
      | waiting | done | notifying | exited =>
          rw [hp] at hheld
          cases hheld
  rw [← hholds, ← List.count_pos_iff]
  omega

/-- **A pool that is joined** has run its tasks, unless it had no workers. -/
theorem Accounted.allRun_iff (h : s.Accounted) (hjoined : s.Joined) :
    s.AllRun ↔ (s.workers = [] → s.submitted = 0) := by
  constructor
  · intro hall hempty
    by_contra hne
    have hzero := (hall 0 (Nat.pos_of_ne_zero hne)).2
    rw [h.unrun hempty] at hzero
    cases hzero
  · intro hzero
    by_cases hempty : s.workers = []
    · intro t ht
      rw [hzero hempty] at ht
      exact absurd ht (Nat.not_lt_zero t)
    · exact h.allRun (h.drained hjoined.2 hempty) fun w hw => .inl (hjoined.2 w hw)

theorem Accounted.right_iff (h : s.Accounted) (e : Event) : s.Right e ↔ s.Counts e := by
  cases e with
  | check k =>
      refine forall_congr' fun hidle => forall₂_congr fun n hn => forall₂_congr fun t ht => ?_
      have hle : n ≤ s.submitted := h.waits n (List.mem_of_getElem? hn)
      exact h.mem_finished_iff hidle (Nat.lt_of_lt_of_le ht hle)
  | destroyed => exact forall_congr' h.allRun_iff
  | submit caller | waitIdle | worker i | destroy | stop i => exact Iff.rfl

/-- **No task is run twice**; the workers, left alone, come to an end, and then each task has run. Each `wait_idle` of
    a run returns when the tasks submitted before it have finished, and the pool is destroyed when all have run,
    exactly when idleness is never found while a worker has one of these tasks and has not counted it, and the tasks of
    a pool that is destroyed had a worker. -/
theorem pool_waits_and_runs (numThreads : ℕ) {es : List Event} (hr : Machine.run step (start numThreads) es = some s) :
    (∀ t, s.started.count t ≤ 1) ∧
    (0 < numThreads → ∀ (is : List ℕ) (s' : ThreadPool), Machine.run step s (is.map .worker) = some s' →
      is.length ≤ s.remaining ∧ ((∀ i, s'.step (.worker i) = none) → s'.AllRun)) ∧
    (Machine.Along step Right (start numThreads) es ↔ Machine.Along step Counts (start numThreads) es) := by
  have hstep : ∀ (u : ThreadPool) e u', u.Accounted → u.step e = some u' → u'.Accounted :=
    fun _ _ _ hu hs => hu.step hs
  have h : s.Accounted := Machine.run_preserves hstep (accounted_start numThreads) hr
  refine ⟨?_, ?_, ?_⟩
  · intro t
    have hplaced := h.placed t
    have hbegun := h.begun t
    have hle : s.workers.countP (·.position.runs t) ≤ s.workers.countP (·.position.holds t) := by
      apply List.countP_mono_left
      intro w _ hruns
      cases hp : w.position <;> simp_all [Position.runs, Position.holds]
    split_ifs at hplaced <;> omega
  · intro hpos is s' hworkers
    have hlength := length_le_remaining hworkers
    refine ⟨by omega, fun hquiet => ?_⟩
    have h' : s'.Accounted := Machine.run_preserves hstep h hworkers
    have hsome : s'.workers.length = numThreads := by
      refine Machine.run_preserves (I := fun u => u.workers.length = numThreads) ?_ ?_ hworkers
      · exact fun _ _ _ hu hs => (length_workers_step hs).trans hu
      · refine Machine.run_preserves (I := fun u => u.workers.length = numThreads) ?_ ?_ hr
        · exact fun _ _ _ hu hs => (length_workers_step hs).trans hu
        · exact List.length_replicate
    refine h'.allRun_of_quiet ?_ hquiet
    intro hempty
    rw [hempty] at hsome
    exact absurd hpos (by rw [← hsome]; exact Nat.lt_irrefl 0)
  · constructor
    · exact Machine.along_of_invariant (I := Accounted) (fun _ _ _ hu _ hs => hu.step hs)
        (fun _ e hu => (hu.right_iff e).mp) (accounted_start numThreads)
    · exact Machine.along_of_invariant (I := Accounted) (fun _ _ _ hu _ hs => hu.step hs)
        (fun _ e hu => (hu.right_iff e).mpr) (accounted_start numThreads)

end Runs

/-- The events of a pool of two workers that is waited for and then destroyed with a task in its queue. -/
def twoWorkers : List Event :=
  [.submit none, .submit none, .worker 0, .worker 1, .worker 0, .worker 0,
    -- the first task submits the third, and the wait is for all of them
    .submit (some 0), .waitIdle, .worker 0, .worker 0, .check 0,
    .worker 0, .worker 1, .worker 1, .worker 1, .worker 1,
    .worker 0, .worker 0, .worker 0, .worker 0, .worker 0, .check 0,
    .submit none, .destroy, .stop 0,
    .worker 0, .worker 0, .worker 0, .worker 0, .worker 0, .worker 0, .worker 0, .worker 0,
    .stop 1, .worker 1, .worker 1, .destroyed]

theorem pool_waits_and_runs_twoWorkers :
    ∃ s, Machine.run step (start 2) twoWorkers = some s ∧ (∀ t, s.started.count t ≤ 1) ∧
      s.AllRun ∧ Machine.Along step Right (start 2) twoWorkers := by
  obtain ⟨s, hs⟩ : ∃ s, Machine.run step (start 2) twoWorkers = some s := Option.isSome_iff_exists.mp (by decide)
  obtain ⟨honce, hquiet, hright⟩ := pool_waits_and_runs 2 hs
  refine ⟨s, hs, honce, (hquiet (by decide) [] s rfl).2 ?_, hright.mpr (by decide)⟩
  have hexited : ∀ w ∈ s.workers, w.position = .exited := by
    have : ∀ u ∈ Machine.run step (start 2) twoWorkers, ∀ w ∈ u.workers, w.position = .exited := by decide
    exact this s hs
  intro i
  cases hi : s.workers[i]? with
  | none => simp [step, hi]
  | some w => simp [step, hi, workerStep, hexited w (List.mem_of_getElem? hi)]

/-- **The task in between.** A worker has taken the only task and has not counted it: `wait_idle` returns, and the
    task has not begun. A pool without workers is destroyed with its task in the queue. -/
theorem idle_too_early :
    ¬ (∀ numThreads es s, Machine.run step (start numThreads) es = some s →
      Machine.Along step Right (start numThreads) es) ∧
    ((Machine.run step (start 1) [.submit none, .waitIdle, .worker 0, .check 0]).map fun s =>
      (s.waits, s.started)) = some ([], []) ∧
    ((Machine.run step (start 0) [.submit none, .destroy, .destroyed]).map fun s =>
      (s.tasks, s.started)) = some ([0], []) := by
  refine ⟨?_, by decide, by decide⟩
  intro hall
  have hrun := hall 1 [.submit none, .waitIdle, .worker 0, .check 0] _ rfl
  revert hrun
  decide

end ThreadPool

end CollabEditor
