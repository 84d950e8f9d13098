import Mathlib.Logic.Relation

/-!
# `Lib.Machine` — runs of a deterministic labelled machine

A machine is a partial step function `step : σ → ε → Option σ`: the label `ε` fixes which party moves and
with what, so an arbitrary interleaving is an arbitrary list of labels. `run` executes such a list and
`Along` says that a condition holds at every step a run takes.

## Contents
- **Runs.** `run` with its composition lemmas.
- **Guards.** `Along ok s es`: each step of the run is taken in a state that meets `ok`.
- **Induction rules.** `run_invariant` (guarded invariants), `run_preserves` (unguarded ones), `run_origin`
  (which step has brought something about), and `along_iff_invariant` for a guard that is exact.
-/

namespace Machine

variable {σ ε τ : Type*}

-- A machine that is evaluated decides a bounded quantifier along its list or option, never by enumerating a
-- finite type of numbers.
instance (priority := 1100) decidableBAll {p : σ → Prop} [DecidablePred p] (l : List σ) :
    Decidable (∀ x ∈ l, p x) :=
  List.decidableBAll p l

instance (priority := 1100) decidableForallMem {p : σ → Prop} [DecidablePred p] (o : Option σ) :
    Decidable (∀ x ∈ o, p x) :=
  Option.decidableForallMem o

/-- Execute a list of labels; `none` as soon as a label is not enabled. -/
def run (step : σ → ε → Option σ) : σ → List ε → Option σ
  | s, []      => some s
  | s, e :: es => match step s e with
      | some s' => run step s' es
      | none    => none

/-- `ok` holds at every step the run takes (state before the step, label). -/
def Along (step : σ → ε → Option σ) (ok : σ → ε → Prop) : σ → List ε → Prop
  | _, []      => True
  | s, e :: es => ok s e ∧ match step s e with
      | some s' => Along step ok s' es
      | none    => True

instance Along.decidable (step : σ → ε → Option σ) (ok : σ → ε → Prop) [∀ s e, Decidable (ok s e)] :
    (es : List ε) → (s : σ) → Decidable (Along step ok s es)
  | [], _      => isTrue trivial
  | e :: es, s =>
      match h : step s e with
      | some t =>
          have := Along.decidable step ok es t
          decidable_of_iff (ok s e ∧ Along step ok t es) (by simp [Along, h])
      | none => decidable_of_iff (ok s e) (by simp [Along, h])

variable {step : σ → ε → Option σ} {ok ok' : σ → ε → Prop}

@[simp] theorem run_nil (s : σ) : run step s [] = some s := rfl

theorem run_cons {s s' : σ} {e : ε} {es : List ε} :
    run step s (e :: es) = some s' ↔ ∃ t, step s e = some t ∧ run step t es = some s' := by
  cases h : step s e <;> simp [run, h]

theorem run_append {s s' : σ} {es es' : List ε} :
    run step s (es ++ es') = some s' ↔ ∃ t, run step s es = some t ∧ run step t es' = some s' := by
  induction es generalizing s with
  | nil => simp
  | cons e es ih =>
      simp only [List.cons_append, run_cons, ih]
      constructor
      · rintro ⟨t, ht, u, hu, hs⟩; exact ⟨u, ⟨t, ht, hu⟩, hs⟩
      · rintro ⟨u, ⟨t, ht, hu⟩, hs⟩; exact ⟨t, ht, u, hu, hs⟩

theorem run_single {s s' : σ} {e : ε} (h : step s e = some s') : run step s [e] = some s' :=
  run_cons.mpr ⟨s', h, rfl⟩

theorem along_cons {s t : σ} {e : ε} {es : List ε} (ht : step s e = some t) :
    Along step ok s (e :: es) ↔ ok s e ∧ Along step ok t es := by
  simp [Along, ht]

theorem along_append {es es' : List ε} : ∀ {s t : σ}, run step s es = some t →
    (Along step ok s (es ++ es') ↔ Along step ok s es ∧ Along step ok t es') := by
  induction es with
  | nil =>
      intro s t hr
      cases hr
      exact (and_iff_right trivial).symm
  | cons e es ih =>
      intro s t hr
      obtain ⟨u, hu, hr'⟩ := run_cons.mp hr
      rw [List.cons_append, along_cons hu, along_cons hu, ih hr', and_assoc]

theorem Along.mono (h : ∀ s e, ok s e → ok' s e) {es : List ε} :
    ∀ {s : σ}, Along step ok s es → Along step ok' s es := by
  induction es with
  | nil => intro s _; trivial
  | cons e es ih =>
      intro s hs
      refine ⟨h s e hs.1, ?_⟩
      have h2 := hs.2
      cases hst : step s e with
      | none => trivial
      | some t => rw [hst] at h2; exact ih h2

/-- Conditions that agree at every enabled step agree along every run. -/
theorem along_congr (h : ∀ s e s', step s e = some s' → (ok s e ↔ ok' s e)) {es : List ε} :
    ∀ {s s' : σ}, run step s es = some s' → (Along step ok s es ↔ Along step ok' s es) := by
  induction es with
  | nil => intro s s' _; exact Iff.rfl
  | cons e es ih =>
      intro s s' hr
      obtain ⟨t, ht, hr'⟩ := run_cons.mp hr
      rw [along_cons ht, along_cons ht, h s e t ht, ih hr']

/-- **Guarded invariants.** What every step meeting the guard preserves holds at the end of every run
    whose steps all meet it. -/
theorem run_invariant {I : σ → Prop} (hstep : ∀ s e s', I s → ok s e → step s e = some s' → I s')
    {es : List ε} : ∀ {s s' : σ}, I s → Along step ok s es → run step s es = some s' → I s' := by
  induction es with
  | nil => intro s s' hI _ hr; cases hr; exact hI
  | cons e es ih =>
      intro s s' hI hok hr
      obtain ⟨t, ht, hr'⟩ := run_cons.mp hr
      obtain ⟨hoke, hok'⟩ := (along_cons ht).mp hok
      exact ih (hstep s e t hI hoke ht) hok' hr'

/-- **Stronger guards.** Where an invariant turns the guard of a step into another condition, that condition
    holds at every step too. -/
theorem along_of_invariant {I : σ → Prop} (hstep : ∀ s e s', I s → ok s e → step s e = some s' → I s')
    (himp : ∀ s e, I s → ok s e → ok' s e) {es : List ε} :
    ∀ {s : σ}, I s → Along step ok s es → Along step ok' s es := by
  induction es with
  | nil => intro s _ _; trivial
  | cons e es ih =>
      intro s hI hs
      refine ⟨himp s e hI hs.1, ?_⟩
      have hrest := hs.2
      cases hst : step s e with
      | none => trivial
      | some t =>
          rw [hst] at hrest
          exact ih (hstep s e t hI hs.1 hst) hrest

/-- **Unguarded invariants.** -/
theorem run_preserves {I : σ → Prop} (hstep : ∀ s e s', I s → step s e = some s' → I s')
    {es : List ε} {s s' : σ} (hI : I s) (hr : run step s es = some s') : I s' := by
  induction es generalizing s with
  | nil => cases hr; exact hI
  | cons e es ih =>
      obtain ⟨t, ht, hr'⟩ := run_cons.mp hr
      exact ih (hstep s e t hI ht) hr'

/-- **Origins.** What holds at the end of a run and not at its start was brought about by one of its steps. -/
theorem run_origin {Q : σ → Prop} {es : List ε} :
    ∀ {s s' : σ}, ¬ Q s → run step s es = some s' → Q s' →
      ∃ es₁ e es₂ t t', es = es₁ ++ e :: es₂ ∧ run step s es₁ = some t ∧ step t e = some t' ∧ ¬ Q t ∧ Q t' := by
  induction es with
  | nil =>
      intro s s' hs hr hs'
      cases hr
      exact absurd hs' hs
  | cons e es ih =>
      intro s s' hs hr hs'
      obtain ⟨t, ht, hr'⟩ := run_cons.mp hr
      by_cases hQ : Q t
      · exact ⟨[], e, es, s, t, rfl, rfl, ht, hs, hQ⟩
      · -- the step is one of the others
        obtain ⟨es₁, e', es₂, u, u', hes, hu, hu', hnot, hyes⟩ := ih hQ hr' hs'
        exact ⟨e :: es₁, e', es₂, u, u', by rw [hes, List.cons_append], run_cons.mpr ⟨t, ht, hu⟩, hu', hnot, hyes⟩

/-- **Exact guards.** Where the guard of a step says whether the next state still meets `I`, the steps of a
    run all meet the guard exactly when every state on the way meets `I`. -/
theorem along_iff_invariant {I J : σ → Prop}
    (hstep : ∀ s e s', J s → I s → step s e = some s' → J s' ∧ (I s' ↔ ok s e)) {es : List ε} :
    ∀ {s s' : σ}, J s → I s → run step s es = some s' →
      (Along step ok s es ↔ ∀ k t, run step s (es.take k) = some t → I t) := by
  induction es with
  | nil =>
      intro s s' _ hI _
      refine ⟨fun _ k t ht => ?_, fun _ => trivial⟩
      rw [List.take_nil] at ht
      cases ht
      exact hI
  | cons e es ih =>
      intro s s' hJ hI hr
      obtain ⟨u, hu, hr'⟩ := run_cons.mp hr
      obtain ⟨hJu, hexact⟩ := hstep s e u hJ hI hu
      rw [along_cons hu]
      constructor
      · rintro ⟨hok, halong⟩ k t ht
        cases k with
        | zero => cases ht; exact hI
        | succ k =>
            obtain ⟨u', hu', ht'⟩ := run_cons.mp ht
            rw [hu] at hu'
            cases hu'
            exact (ih hJu (hexact.mpr hok) hr').mp halong k t ht'
      · intro hall
        have hIu : I u := hall 1 u (run_single hu)
        refine ⟨hexact.mp hIu, (ih hJu hIu hr').mpr fun k t ht => ?_⟩
        exact hall (k + 1) t (run_cons.mpr ⟨u, hu, ht⟩)

end Machine
