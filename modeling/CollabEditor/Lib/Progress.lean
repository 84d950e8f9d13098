import CollabEditor.Lib.Machine
import Mathlib.Algebra.BigOperators.Group.List.Basic
import Mathlib.Algebra.Order.Group.Nat
import Mathlib.Algebra.Ring.Nat

/-!
# `Lib.Progress` — machines that come to rest

Of the labels of a machine some are its own, and the others come from its surroundings. Where every step with a
label of its own makes a measure smaller, the machine left to itself stops (`run_measure`), and there is a run
at whose end none of these labels is enabled (`exists_terminal`). A rank in a well-founded order does the same
where no number bounds the steps that are left.

## Contents
- **Measures.** `run_measure`, `exists_terminal`.
- **Ranks.** `exists_terminal_of_wellFounded`, `exists_run_eq_none`.
- **Sums.** `sum_map_le`, `sum_map_add_le`: a measure that adds up one number for each party.
-/

namespace Machine

variable {σ ε : Type*} {step : σ → ε → Option σ} {I : σ → Prop} {own : ε → Prop} {μ : σ → ℕ}

/-- **A run of steps that each make the measure smaller** is no longer than the measure at its start. -/
theorem run_measure (hstep : ∀ s e s', I s → own e → step s e = some s' → I s' ∧ μ s' < μ s) {es : List ε}
    {s s' : σ} (hes : ∀ e ∈ es, own e) (hI : I s) (hr : run step s es = some s') :
    I s' ∧ es.length + μ s' ≤ μ s := by
  induction es generalizing s with
  | nil =>
      cases hr
      exact ⟨hI, by simp⟩
  | cons e es ih =>
      obtain ⟨t, ht, hr'⟩ := run_cons.mp hr
      obtain ⟨hIt, hlt⟩ := hstep s e t hI (hes e List.mem_cons_self) ht
      obtain ⟨hI', hle⟩ := ih (fun e' he' => hes e' (List.mem_cons_of_mem e he')) hIt hr'
      refine ⟨hI', ?_⟩
      rw [List.length_cons]
      omega

section WellFounded

variable {τ : Type*} {r : τ → τ → Prop} {rank : σ → τ}

/-- **The machine comes to rest**: some run of its own steps ends where none is enabled. -/
theorem exists_terminal_of_wellFounded (hwf : WellFounded r)
    (hstep : ∀ s e s', I s → own e → step s e = some s' → I s' ∧ r (rank s') (rank s)) {s : σ} (hI : I s) :
    ∃ es s', (∀ e ∈ es, own e) ∧ run step s es = some s' ∧ ∀ e, own e → step s' e = none := by
  induction hn : rank s using hwf.induction generalizing s with
  | _ n ih =>
      by_cases hend : ∀ e, own e → step s e = none
      · exact ⟨[], s, fun _ he => absurd he List.not_mem_nil, rfl, hend⟩
      · -- take one step, and go on from there
        obtain ⟨e, he⟩ := not_forall.mp hend
        obtain ⟨hown, hne⟩ := Classical.not_imp.mp he
        obtain ⟨t, ht⟩ := Option.ne_none_iff_exists'.mp hne
        obtain ⟨hIt, hlt⟩ := hstep s e t hI hown ht
        obtain ⟨es, s', hes, hr, hterminal⟩ := ih (rank t) (hn ▸ hlt) hIt rfl
        refine ⟨e :: es, s', ?_, run_cons.mpr ⟨t, ht, hr⟩, hterminal⟩
        intro e' he'
        rcases List.mem_cons.mp he' with rfl | hmem
        · exact hown
        · exact hes e' hmem

/-- **No schedule goes on for ever**: an endless sequence of own labels meets one that is not enabled. -/
theorem exists_run_eq_none (hwf : WellFounded r)
    (hstep : ∀ s e s', I s → own e → step s e = some s' → I s' ∧ r (rank s') (rank s)) {s : σ} (hI : I s)
    {schedule : ℕ → ε} (hown : ∀ n, own (schedule n)) :
    ∃ n, run step s ((List.range n).map schedule) = none := by
  induction hn : rank s using hwf.induction generalizing s schedule with
  | _ m ih =>
      cases ht : step s (schedule 0) with
      | none =>
          refine ⟨1, ?_⟩
          change run step s [schedule 0] = none
          simp [run, ht]
      | some t =>
          obtain ⟨hIt, hlt⟩ := hstep s (schedule 0) t hI (hown 0) ht
          obtain ⟨n, hnone⟩ := ih (rank t) (hn ▸ hlt) hIt (fun k => hown (k + 1)) rfl
          refine ⟨n + 1, ?_⟩
          rw [List.range_succ_eq_map, List.map_cons, List.map_map]
          simp only [run, ht]
          exact hnone

end WellFounded

/-- A measure is a rank. -/
theorem exists_terminal (hstep : ∀ s e s', I s → own e → step s e = some s' → I s' ∧ μ s' < μ s) {s : σ}
    (hI : I s) : ∃ es s', (∀ e ∈ es, own e) ∧ run step s es = some s' ∧ ∀ e, own e → step s' e = none :=
  exists_terminal_of_wellFounded Nat.lt_wfRel.wf hstep hI

/-! ## Sums -/

section Sums

variable {ι : Type*} {l : List ι} {f g : ι → ℕ}

theorem sum_map_le (h : ∀ i ∈ l, f i ≤ g i) : (l.map f).sum ≤ (l.map g).sum := by
  induction l with
  | nil => simp
  | cons i l ih =>
      have hi := h i List.mem_cons_self
      have hl := ih fun j hj => h j (List.mem_cons_of_mem i hj)
      simp only [List.map_cons, List.sum_cons]
      omega

/-- What one party saves, the sum saves. -/
theorem sum_map_add_le {i : ι} {k : ℕ} (hi : i ∈ l) (hsave : f i + k ≤ g i) (hrest : ∀ j, j ≠ i → f j ≤ g j) :
    (l.map f).sum + k ≤ (l.map g).sum := by
  have hall : ∀ j ∈ l, f j ≤ g j := by
    intro j _
    by_cases hj : j = i
    · rw [hj]
      omega
    · exact hrest j hj
  induction l with
  | nil => cases hi
  | cons j l ih =>
      have hj := hall j List.mem_cons_self
      have hl : ∀ j ∈ l, f j ≤ g j := fun j' hj' => hall j' (List.mem_cons_of_mem j hj')
      simp only [List.map_cons, List.sum_cons]
      rcases List.mem_cons.mp hi with rfl | hmem
      · have hsum := sum_map_le hl
        omega
      · have hsum := ih hmem hl
        omega

/-- What every party may add, the sum adds at most once for each. -/
theorem sum_map_le_add (h : ∀ i ∈ l, f i ≤ g i + 1) : (l.map f).sum ≤ (l.map g).sum + l.length := by
  induction l with
  | nil => simp
  | cons i l ih =>
      have hi := h i List.mem_cons_self
      have hl := ih fun j hj => h j (List.mem_cons_of_mem i hj)
      simp only [List.map_cons, List.sum_cons, List.length_cons]
      omega

end Sums

end Machine
