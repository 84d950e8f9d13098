import CollabEditor.Lib.Prog
import CollabEditor.Lib.Progress
import Mathlib.Data.DFinsupp.WellFounded

/-!
# `Lib.Schedules` — a pool of workers that is left to itself

Left to itself, a pool cannot go on for ever: a worker that makes a call goes down in its program, which is a
well-founded tree, and a worker that takes a job makes the queue shorter. How many steps are left depends on
what the calls will return, so the rank of a pool is no number: it is its queue's length and then, worker by
worker, what the worker still has to execute.

## Contents
- **The order.** `Prog.Below`, `Pool.Below`.
- **The pool.** `Event.Own`, `step_below`, and `idle_of_terminal`: a pool that is stuck is idle.
-/

/-! ## The order -/

/-- What a worker is left with after a step: the rest of its program, or no program. -/
inductive Prog.Below {C : Type} {R : C → Type} {ε β : Type} :
    Option (Prog C R ε β) → Option (Prog C R ε β) → Prop where
  | call (c : C) (next : R c → Prog C R ε β) (r : R c) : Below (some (next r)) (some (.call c next))
  | finish (p : Prog C R ε β) : Below none (some p)

theorem Prog.below_wellFounded {C : Type} {R : C → Type} {ε β : Type} :
    WellFounded (Prog.Below (C := C) (R := R) (ε := ε) (β := β)) := by
  have hnone : Acc Prog.Below (none : Option (Prog C R ε β)) := .intro _ fun _ h => by cases h
  refine ⟨fun o => ?_⟩
  cases o with
  | none => exact hnone
  | some p =>
      induction p with
      | pure b =>
          refine .intro _ fun _ h => ?_
          cases h with
          | finish => exact hnone
      | throw e =>
          refine .intro _ fun _ h => ?_
          cases h with
          | finish => exact hnone
      | call c next ih =>
          refine .intro _ fun _ h => ?_
          cases h with
          | call _ _ r => exact ih r
          | finish => exact hnone

namespace Pool

variable {C : Type} {R : C → Type} {ε σ J : Type}

/-- The jobs in the queue, and what the first `n` workers still have to execute. -/
def rank (n : ℕ) (s : Pool C R ε σ J) : ℕ × (Fin n → Option (Prog C R ε Unit)) :=
  (s.tasks.length, fun w => s.workers w)

/-- One pool has less to execute than another one. -/
def Below (n : ℕ) :
    ℕ × (Fin n → Option (Prog C R ε Unit)) → ℕ × (Fin n → Option (Prog C R ε Unit)) → Prop :=
  Prod.Lex (· < ·) (Pi.Lex (· < ·) fun {_} => Prog.Below)

theorem below_wellFounded (n : ℕ) : WellFounded (Below (C := C) (R := R) (ε := ε) n) := by
  have hworkers : WellFounded (Pi.Lex (fun v w : Fin n => v < w) fun {_} => @Prog.Below C R ε Unit) :=
    Pi.Lex.wellFounded _ fun _ => Prog.below_wellFounded
  exact (Prod.lex Nat.lt_wfRel ⟨_, hworkers⟩).wf

/-! ## The pool -/

/-- The steps of the workers; jobs come from elsewhere. -/
def Event.Own : Event J → Prop
  | .submit _ => False
  | _         => True

/-- The pool has `n` workers. -/
structure HasWorkers (n : ℕ) (s : Pool C R ε σ J) : Prop where
  size : s.size = n
  beyond : ∀ w, n ≤ w → s.workers w = none

section Steps

variable {exec : (c : C) → σ → σ × R c} {ready : C → σ → Bool} {body : J → Prog C R ε Unit}
variable {n : ℕ} {s s' : Pool C R ε σ J} {e : Event J}

theorem HasWorkers.step (h : s.HasWorkers n) (hs : step exec ready body s e = some s') : s'.HasWorkers n where
  size := (step_size hs).trans h.size
  beyond w hw := by
    have hbeyond := step_beyond hs (by rw [h.size]; exact h.beyond)
    refine hbeyond w ?_
    rw [step_size hs, h.size]
    exact hw

/-- One worker has less to execute, and the queue is the same. -/
theorem below_update (h : s.HasWorkers n) {w : ℕ} {p : Prog C R ε Unit} {o : Option (Prog C R ε Unit)}
    (hp : s.workers w = some p) (ho : Prog.Below o (some p)) (world : σ) :
    Below n (rank n { s with world := world, workers := Function.update s.workers w o }) (rank n s) := by
  have hw : w < n := by
    by_contra hle
    rw [h.beyond w (Nat.not_lt.mp hle)] at hp
    cases hp
  refine Prod.Lex.right _ ⟨⟨w, hw⟩, fun v hv => ?_, ?_⟩
  · have hne : (v : ℕ) ≠ w := Nat.ne_of_lt hv
    exact Function.update_of_ne hne _ _
  · change Prog.Below (Function.update s.workers w o w) (s.workers w)
    rw [Function.update_self, hp]
    exact ho

/-- **Every step of a worker leaves the pool with less to execute.** -/
theorem step_below (h : s.HasWorkers n) (hown : e.Own) (hs : step exec ready body s e = some s') :
    Below n (rank n s') (rank n s) := by
  cases e with
  | submit job => exact absurd hown id
  | start w =>
      obtain ⟨_, _, job, rest, htasks, rfl⟩ := start_cases hs
      refine Prod.Lex.left _ _ ?_
      rw [htasks]
      exact Nat.lt_succ_self _
  | call w =>
      obtain ⟨c, next, hw, _, rfl⟩ := call_cases hs
      exact below_update h hw (.call c next _) _
  | finish w =>
      obtain ⟨p, hw, _, rfl⟩ := finish_cases hs
      exact below_update h hw (.finish p) _

/-- **A pool that is stuck is idle**, where some call is ready as long as some worker has one to make. -/
theorem idle_of_terminal (h : s.HasWorkers n) (hn : 0 < n)
    (hready : ∀ w c next, s.workers w = some (.call c next) →
      ∃ v c' next', s.workers v = some (.call c' next') ∧ ready c' s.world = true)
    (hend : ∀ e : Event J, e.Own → step exec ready body s e = none) : s.Idle := by
  have hidle : ∀ w, s.workers w = none := by
    intro w
    cases hw : s.workers w with
    | none => rfl
    | some p =>
        exfalso
        have hfinish := hend (.finish w) trivial
        cases p with
        | pure b => simp [step, finish, hw] at hfinish
        | throw e => simp [step, finish, hw] at hfinish
        | call c next =>
            obtain ⟨v, c', next', hv, hc'⟩ := hready w c next hw
            have hcall := hend (.call v) trivial
            simp [step, call, hv, hc'] at hcall
  refine ⟨?_, hidle⟩
  cases ht : s.tasks with
  | nil => rfl
  | cons job rest =>
      -- the first worker could take the oldest job
      have hstart := hend (.start 0) trivial
      have hsize : 0 < s.size := by
        rw [h.size]
        exact hn
      simp [step, start, hidle 0, ht, hsize] at hstart

end Steps

end Pool
