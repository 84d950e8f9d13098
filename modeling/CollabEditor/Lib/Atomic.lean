import CollabEditor.Lib.Machine
import Mathlib.Logic.Function.Basic

/-!
# `Lib.Atomic` — objects whose operations take effect at one moment

A sequential object is a function `perform` from states and operations to states and results. The atomic object
made of it is used by any number of threads: a thread calls an operation, at some later moment the operation takes
effect, and later still the thread gets the result. A concurrent implementation is *linearizable* if its callers
see nothing that they could not see of the atomic object: its calls and returns, in their order, are those of a
run of it.

## Contents
- **The atomic object.** `Status`, `State`, `Event`, `Step`, `Steps`; whole calls, `Steps.answer` and `Steps.whole`.
- **Histories.** `Linearizable`, `trace`.
- **Refinement.** `linearizable_of_refinement`: each step of an implementation is matched by steps of the atomic
  object that show the same calls and returns.
-/

namespace Atomic

variable {T S O R : Type*}

/-- What a thread is doing. -/
inductive Status (O R : Type*) where
  | idle
  | called (op : O)
  | done (result : R)

/-- The object, and its threads. -/
structure State (T S O R : Type*) where
  object : S
  status : T → Status O R

inductive Event (T O R : Type*) where
  | call (t : T) (op : O)
  /-- The operation that the thread has called takes effect. -/
  | effect (t : T)
  | ret (t : T) (result : R)

/-- Calls and returns are what the callers see. -/
def Event.visible : Event T O R → Bool
  | .call _ _ | .ret _ _ => true
  | .effect _ => false

variable [DecidableEq T] (perform : S → O → S × R)

/-- One step of the atomic object. -/
inductive Step : State T S O R → Event T O R → State T S O R → Prop where
  | call {s : State T S O R} {t : T} (op : O) (h : s.status t = .idle) :
      Step s (.call t op) { s with status := Function.update s.status t (.called op) }
  | effect {s : State T S O R} {t : T} {op : O} (h : s.status t = .called op) :
      Step s (.effect t)
        { object := (perform s.object op).1, status := Function.update s.status t (.done (perform s.object op).2) }
  | ret {s : State T S O R} {t : T} {result : R} (h : s.status t = .done result) :
      Step s (.ret t result) { s with status := Function.update s.status t .idle }

inductive Steps : State T S O R → List (Event T O R) → State T S O R → Prop where
  | nil (s : State T S O R) : Steps s [] s
  | cons {s s₁ s' : State T S O R} {e : Event T O R} {es : List (Event T O R)} (h : Step perform s e s₁)
      (hs : Steps s₁ es s') : Steps s (e :: es) s'

/-- **A history of the atomic object**: the calls and returns of one of its runs. -/
def Linearizable (init : State T S O R) (history : List (Event T O R)) : Prop :=
  ∃ es s', Steps perform init es s' ∧ es.filter Event.visible = history

variable {perform}

theorem Steps.append {s s₁ s' : State T S O R} {es es' : List (Event T O R)} (h : Steps perform s es s₁)
    (h' : Steps perform s₁ es' s') : Steps perform s (es ++ es') s' := by
  induction h with
  | nil => exact h'
  | cons hstep _ ih => exact .cons hstep (ih h')

theorem Steps.single {s s' : State T S O R} {e : Event T O R} (h : Step perform s e s') : Steps perform s [e] s' :=
  .cons h (.nil s')

variable (perform) in
/-- An operation takes effect and returns at once. -/
theorem Steps.answer {s : State T S O R} {t : T} {op : O} (h : s.status t = .called op) :
    Steps perform s [.effect t, .ret t (perform s.object op).2]
      { object := (perform s.object op).1, status := Function.update s.status t .idle } := by
  have heffect : Step perform s (.effect t) _ := .effect h
  have hdone : Function.update s.status t (.done (perform s.object op).2) t = .done (perform s.object op).2 := by simp
  have hret : Step perform
      { object := (perform s.object op).1, status := Function.update s.status t (.done (perform s.object op).2) }
      (.ret t (perform s.object op).2) _ := .ret hdone
  rw [Function.update_idem] at hret
  exact .cons heffect (.single hret)

variable (perform) in
/-- A whole call, with nothing in between. -/
theorem Steps.whole {s : State T S O R} {t : T} (op : O) (h : s.status t = .idle) :
    Steps perform s [.call t op, .effect t, .ret t (perform s.object op).2]
      { s with object := (perform s.object op).1 } := by
  have hcall : Step perform s (.call t op) _ := .call op h
  have hcalled : Function.update s.status t (.called op) t = .called op := by simp
  have hanswer := Steps.answer perform
    (s := { s with status := Function.update s.status t (.called op) }) hcalled
  -- the thread is back where it was
  have hback : Function.update (Function.update s.status t (.called op)) t .idle = s.status := by
    rw [Function.update_idem, ← h, Function.update_eq_self]
  rw [hback] at hanswer
  exact .cons hcall hanswer

end Atomic

namespace Machine

variable {σ ε β : Type*}

/-- What is seen of a run: what its steps show, one after another. -/
def trace (step : σ → ε → Option σ) (shows : σ → ε → σ → List β) : σ → List ε → List β
  | _, []      => []
  | s, e :: es => match step s e with
      | some s' => shows s e s' ++ trace step shows s' es
      | none    => []

theorem trace_cons {step : σ → ε → Option σ} {shows : σ → ε → σ → List β} {s t : σ} {e : ε} {es : List ε}
    (h : step s e = some t) : trace step shows s (e :: es) = shows s e t ++ trace step shows t es := by
  simp [trace, h]

end Machine

namespace Atomic

variable {T S O R σ ε : Type*} [DecidableEq T] {perform : S → O → S × R} {step : σ → ε → Option σ}
  {shows : σ → ε → σ → List (Event T O R)} {I : σ → Prop}

/-- **Refinement.** An invariant and an abstraction function, such that each step is a sequence of steps of the
    atomic object that shows the same, make every run linearizable. -/
theorem linearizable_of_refinement (abs : σ → State T S O R) (hinv : ∀ s e s', I s → step s e = some s' → I s')
    (hstep : ∀ s e s', I s → step s e = some s' →
      ∃ es, Steps perform (abs s) es (abs s') ∧ es.filter Event.visible = shows s e s')
    {s s' : σ} {es : List ε} (hI : I s) (hr : Machine.run step s es = some s') :
    Linearizable perform (abs s) (Machine.trace step shows s es) := by
  have hsteps : ∃ as, Steps perform (abs s) as (abs s') ∧
      as.filter Event.visible = Machine.trace step shows s es := by
    induction es generalizing s with
    | nil =>
        cases hr
        exact ⟨[], .nil _, rfl⟩
    | cons e es ih =>
        obtain ⟨t, ht, hr'⟩ := Machine.run_cons.mp hr
        obtain ⟨as, has, hvisible⟩ := hstep s e t hI ht
        obtain ⟨as', has', hvisible'⟩ := ih (hinv s e t hI ht) hr'
        refine ⟨as ++ as', has.append has', ?_⟩
        rw [List.filter_append, hvisible, hvisible', Machine.trace_cons ht]
  obtain ⟨as, has, hvisible⟩ := hsteps
  exact ⟨as, _, has, hvisible⟩

end Atomic
