import CollabEditor.Lib.Machine
import Mathlib.Data.Nat.Notation
import Mathlib.Logic.Function.Basic
import Mathlib.Tactic.ByContra
import Mathlib.Tactic.SplitIfs

/-!
# `Lib.Prog` — programs of atomic calls, alone and interleaved

A program makes atomic calls on shared objects, one after another, and ends with a value or an exception. It
is a tree that branches over what a call returns; what the calls do is a parameter, `exec`. `run` executes a
program without interruption. `Pool` executes the programs of submitted jobs on a number of workers, one
call at a time: jobs are started in the order of their submission and run concurrently.

## Contents
- **Programs.** `Prog`, its monad, `tryCatch`.
- **Alone.** `run` with one lemma per construct, and the induction rule `run_preserves`.
- **Disciplines.** `Obeys`: every call is allowed where the program makes it; `Continues`: what is left of it.
  `Inevitably`: a call is made whatever the calls return.
- **Interleaved.** `Pool`, its steps, and `alone_outcome`: jobs that do not overlap take effect one after
  another.
-/

/-- A program with calls `c : C` that return an `R c`, exceptions in `ε` and results in `β`. -/
inductive Prog (C : Type) (R : C → Type) (ε β : Type) where
  | pure (b : β)
  | throw (e : ε)
  | call (c : C) (next : R c → Prog C R ε β)

namespace Prog

variable {C : Type} {R : C → Type} {ε ε' β γ σ : Type}

protected def bind : Prog C R ε β → (β → Prog C R ε γ) → Prog C R ε γ
  | .pure b, f      => f b
  | .throw e, _     => .throw e
  | .call c next, f => .call c fun r => (next r).bind f

instance : Monad (Prog C R ε) where
  pure := .pure
  bind := Prog.bind

/-- The call `c` and nothing else. -/
def invoke (c : C) : Prog C R ε (R c) := .call c .pure

def ofExcept : Except ε β → Prog C R ε β
  | .ok b    => .pure b
  | .error e => .throw e

/-- Go on with `handler` after an exception. -/
def tryCatch : Prog C R ε β → (ε → Prog C R ε' β) → Prog C R ε' β
  | .pure b, _            => .pure b
  | .throw e, handler     => handler e
  | .call c next, handler => .call c fun r => (next r).tryCatch handler

@[simp] theorem pure_eq (b : β) : (pure b : Prog C R ε β) = .pure b := rfl

@[simp] theorem bind_eq (p : Prog C R ε β) (f : β → Prog C R ε γ) : p >>= f = p.bind f := rfl

@[simp] theorem pure_bind (b : β) (f : β → Prog C R ε γ) : (Prog.pure b).bind f = f b := rfl

@[simp] theorem throw_bind (e : ε) (f : β → Prog C R ε γ) : (Prog.throw e).bind f = .throw e := rfl

@[simp] theorem call_bind (c : C) (next : R c → Prog C R ε β) (f : β → Prog C R ε γ) :
    (Prog.call c next).bind f = .call c fun r => (next r).bind f := rfl

theorem bind_assoc {δ : Type} (p : Prog C R ε β) (f : β → Prog C R ε γ) (g : γ → Prog C R ε δ) :
    (p.bind f).bind g = p.bind fun b => (f b).bind g := by
  induction p with
  | pure b => rfl
  | throw e => rfl
  | call c next ih => exact congrArg (Prog.call c) (funext ih)

@[simp] theorem invoke_bind (c : C) (f : R c → Prog C R ε γ) : (invoke c).bind f = .call c f := rfl

/-! ## Alone -/

section Run

variable (exec : (c : C) → σ → σ × R c)

/-- Execute a program without interruption. -/
def run : Prog C R ε β → σ → σ × Except ε β
  | .pure b, s      => (s, .ok b)
  | .throw e, s     => (s, .error e)
  | .call c next, s => (next (exec c s).2).run (exec c s).1

@[simp] theorem run_pure (b : β) (s : σ) : (Prog.pure b : Prog C R ε β).run exec s = (s, .ok b) := rfl

@[simp] theorem run_throw (e : ε) (s : σ) :
    (Prog.throw e : Prog C R ε β).run exec s = (s, .error e) := rfl

@[simp] theorem run_call (c : C) (next : R c → Prog C R ε β) (s : σ) :
    (Prog.call c next).run exec s = (next (exec c s).2).run exec (exec c s).1 := rfl

@[simp] theorem run_invoke (c : C) (s : σ) :
    (invoke c : Prog C R ε (R c)).run exec s = ((exec c s).1, .ok (exec c s).2) := rfl

@[simp] theorem run_ofExcept (x : Except ε β) (s : σ) :
    (ofExcept x : Prog C R ε β).run exec s = (s, x) := by
  cases x <;> rfl

theorem run_bind (p : Prog C R ε β) (f : β → Prog C R ε γ) (s : σ) :
    (p.bind f).run exec s = match p.run exec s with
      | (s', .ok b)    => (f b).run exec s'
      | (s', .error e) => (s', .error e) := by
  induction p generalizing s with
  | pure b => rfl
  | throw e => rfl
  | call c next ih => exact ih (exec c s).2 (exec c s).1

theorem run_tryCatch (p : Prog C R ε β) (handler : ε → Prog C R ε' β) (s : σ) :
    (p.tryCatch handler).run exec s = match p.run exec s with
      | (s', .ok b)    => (s', .ok b)
      | (s', .error e) => (handler e).run exec s' := by
  induction p generalizing s with
  | pure b => rfl
  | throw e => rfl
  | call c next ih => exact ih (exec c s).2 (exec c s).1

end Run

/-! ## Disciplines -/

section Obeys

variable {Q : Type} (allowed : Q → C → Prop) (move : Q → (c : C) → R c → Q)

/-- From the phase `q` on, `p` makes only calls that are allowed in the phase they are made in, and ends in a
    phase that `post` permits. -/
def Obeys (post : Q → Prop) : Prog C R ε β → Q → Prop
  | .pure _, q      => post q
  | .throw _, q     => post q
  | .call c next, q => allowed q c ∧ ∀ r, (next r).Obeys post (move q c r)

variable {allowed move} {post post' : Q → Prop} {q : Q}

/-- A discipline whose phases are coarser and which allows more. -/
theorem Obeys.map {Q' : Type} {allowed' : Q' → C → Prop} {move' : Q' → (c : C) → R c → Q'}
    {post' : Q' → Prop} (f : Q → Q') (hallowed : ∀ q c, allowed q c → allowed' (f q) c)
    (hmove : ∀ q c r, allowed q c → f (move q c r) = move' (f q) c r) (hpost : ∀ q, post q → post' (f q))
    {p : Prog C R ε β} (h : p.Obeys allowed move post q) : p.Obeys allowed' move' post' (f q) := by
  induction p generalizing q with
  | pure b => exact hpost q h
  | throw e => exact hpost q h
  | call c next ih =>
      refine ⟨hallowed q c h.1, fun r => ?_⟩
      rw [← hmove q c r h.1]
      exact ih r (h.2 r)

/-- One phase after another; an exception may come in any phase that `post` permits. -/
theorem Obeys.bind {p : Prog C R ε β} {f : β → Prog C R ε γ} (h : p.Obeys allowed move post' q)
    (herror : ∀ q, post' q → post q) (hf : ∀ b q, post' q → (f b).Obeys allowed move post q) :
    (p.bind f).Obeys allowed move post q := by
  induction p generalizing q with
  | pure b => exact hf b q h
  | throw e => exact herror q h
  | call c next ih => exact ⟨h.1, fun r => ih r (h.2 r)⟩

theorem Obeys.tryCatch {p : Prog C R ε β} {handler : ε → Prog C R ε' β}
    (h : p.Obeys allowed move post q)
    (hh : ∀ e q, post q → (handler e).Obeys allowed move post q) :
    (p.tryCatch handler).Obeys allowed move post q := by
  induction p generalizing q with
  | pure b => exact h
  | throw e => exact hh e q h
  | call c next ih => exact ⟨h.1, fun r => ih r (h.2 r)⟩

/-- `q` is what is left of `p` after some of its calls, whatever they have returned. -/
inductive Continues : Prog C R ε β → Prog C R ε β → Prop where
  | refl (p : Prog C R ε β) : Continues p p
  | call (c : C) (next : R c → Prog C R ε β) (r : R c) {q : Prog C R ε β} (h : Continues (next r) q) :
      Continues (.call c next) q

/-- A call that is made is allowed in some phase. -/
theorem Obeys.continues {p : Prog C R ε β} {c : C} {next : R c → Prog C R ε β}
    (h : p.Obeys allowed move post q) (hc : p.Continues (.call c next)) : ∃ q, allowed q c := by
  generalize hlast : Prog.call c next = last at hc
  induction hc generalizing q with
  | refl p =>
      subst hlast
      exact ⟨q, h.1⟩
  | call c' next' r _ ih => exact ih (h.2 r) hlast

end Obeys

/-- Whatever its calls return, the program makes a call that `P` picks out. -/
def Inevitably (P : C → Prop) : Prog C R ε β → Prop
  | .pure _      => False
  | .throw _     => False
  | .call c next => P c ∨ ∀ r, (next r).Inevitably P

/-- The program has come to its end. -/
def Ended : Prog C R ε β → Prop
  | .call _ _ => False
  | _         => True

theorem Ended.run {p : Prog C R ε β} (h : p.Ended) (exec : (c : C) → σ → σ × R c) (s : σ) :
    (p.run exec s).1 = s := by
  cases p with
  | pure b => rfl
  | throw e => rfl
  | call c next => cases h

theorem Ended.post {Q : Type} {allowed : Q → C → Prop} {move : Q → (c : C) → R c → Q} {post : Q → Prop}
    {q : Q} {p : Prog C R ε β} (h : p.Ended) (hp : p.Obeys allowed move post q) : post q := by
  cases p with
  | pure b => exact hp
  | throw e => exact hp
  | call c next => cases h

theorem Ended.not_inevitably {P : C → Prop} {p : Prog C R ε β} (h : p.Ended) : ¬ p.Inevitably P := by
  cases p with
  | pure b => exact not_false
  | throw e => exact not_false
  | call c next => cases h

end Prog

/-! ## Interleaved -/

/-- A pool of workers, the queue of its jobs, and the world on which their programs act. -/
structure Pool (C : Type) (R : C → Type) (ε σ J : Type) where
  world   : σ
  size    : ℕ
  tasks   : List J := []
  workers : ℕ → Option (Prog C R ε Unit) := fun _ => none

namespace Pool

variable {C : Type} {R : C → Type} {ε σ J : Type}

inductive Event (J : Type) where
  | submit (job : J)
  /-- An idle worker takes the oldest job. -/
  | start (w : ℕ)
  /-- A worker makes the next call of its program, if the call need not wait. -/
  | call (w : ℕ)
  /-- A worker has come to the end of its program. -/
  | finish (w : ℕ)

variable (exec : (c : C) → σ → σ × R c) (ready : C → σ → Bool) (body : J → Prog C R ε Unit)

/-- Worker `w` takes the oldest job. -/
def start (s : Pool C R ε σ J) (w : ℕ) : Option (Pool C R ε σ J) :=
  match s.workers w, s.tasks with
  | none, job :: rest =>
      if w < s.size then
        some { s with tasks := rest, workers := Function.update s.workers w (some (body job)) }
      else none
  | _, _ => none

/-- Worker `w` makes the next call of its program. -/
def call (s : Pool C R ε σ J) (w : ℕ) : Option (Pool C R ε σ J) :=
  match s.workers w with
  | some (.call c next) =>
      if ready c s.world then
        some { s with
          world := (exec c s.world).1
          workers := Function.update s.workers w (some (next (exec c s.world).2)) }
      else none
  | _ => none

/-- Worker `w` is done, with or without an exception. -/
def finish (s : Pool C R ε σ J) (w : ℕ) : Option (Pool C R ε σ J) :=
  match s.workers w with
  | some (.pure _)  => some { s with workers := Function.update s.workers w none }
  | some (.throw _) => some { s with workers := Function.update s.workers w none }
  | _ => none

def step (s : Pool C R ε σ J) : Event J → Option (Pool C R ε σ J)
  | .submit job => some { s with tasks := s.tasks ++ [job] }
  | .start w    => s.start body w
  | .call w     => s.call exec ready w
  | .finish w   => s.finish w

/-- Nothing is queued and nothing runs. -/
def Idle (s : Pool C R ε σ J) : Prop := s.tasks = [] ∧ ∀ w, s.workers w = none

/-- Worker `w` executes one job, in `n` calls. -/
def alone (w : ℕ) (job : J) (n : ℕ) : List (Event J) :=
  .submit job :: .start w :: List.replicate n (.call w) ++ [.finish w]

/-- The jobs submitted in a run. -/
def jobs (es : List (Event J)) : List J := es.filterMap fun e => match e with
  | .submit job => some job
  | _           => none

/-- A job is started only while no other one runs. -/
def StartsAlone (s : Pool C R ε σ J) : Event J → Prop
  | .start _ => ∀ w < s.size, s.workers w = none
  | _ => True

instance (s : Pool C R ε σ J) : (e : Event J) → Decidable (s.StartsAlone e)
  | .start _ => decidable_of_iff (∀ w < s.size, (s.workers w).isNone) (by simp [StartsAlone])
  | .submit _ | .call _ | .finish _ => isTrue trivial

/-- Handle one job without interruption. -/
def handle (s : σ) (job : J) : σ := ((body job).run exec s).1

/-- The world that is left when the queued jobs are handled one after another behind the one that runs. -/
inductive Outcome (s : Pool C R ε σ J) : σ → Prop where
  | idle (hidle : ∀ w, s.workers w = none) : Outcome s (s.tasks.foldl (handle exec body) s.world)
  | busy (w : ℕ) (p : Prog C R ε Unit) (hw : w < s.size) (hp : s.workers w = some p)
      (hothers : ∀ v, v ≠ w → s.workers v = none) :
      Outcome s (s.tasks.foldl (handle exec body) (p.run exec s.world).1)

section Steps

variable {exec ready body} {s s' : Pool C R ε σ J} {o : σ} {e : Event J}

theorem start_cases {w : ℕ} (h : step exec ready body s (.start w) = some s') :
    s.workers w = none ∧ w < s.size ∧ ∃ job rest, s.tasks = job :: rest ∧
      s' = { s with tasks := rest, workers := Function.update s.workers w (some (body job)) } := by
  change s.start body w = some s' at h
  unfold start at h
  cases hw : s.workers w with
  | some p => rw [hw] at h; cases h
  | none =>
      cases ht : s.tasks with
      | nil => rw [hw, ht] at h; cases h
      | cons job rest =>
          rw [hw, ht] at h
          dsimp only at h
          split_ifs at h with hsize
          cases h
          exact ⟨rfl, hsize, job, rest, rfl, rfl⟩

theorem call_cases {w : ℕ} (h : step exec ready body s (.call w) = some s') :
    ∃ c next, s.workers w = some (.call c next) ∧ ready c s.world = true ∧
      s' = { s with
        world := (exec c s.world).1
        workers := Function.update s.workers w (some (next (exec c s.world).2)) } := by
  change s.call exec ready w = some s' at h
  unfold call at h
  cases hw : s.workers w with
  | none => rw [hw] at h; cases h
  | some p =>
      rw [hw] at h
      cases p with
      | pure b => cases h
      | throw e => cases h
      | call c next =>
          dsimp only at h
          split_ifs at h with hready
          cases h
          exact ⟨c, next, rfl, hready, rfl⟩

theorem finish_cases {w : ℕ} (h : step exec ready body s (.finish w) = some s') :
    ∃ p, s.workers w = some p ∧ p.Ended ∧ s' = { s with workers := Function.update s.workers w none } := by
  change s.finish w = some s' at h
  unfold finish at h
  cases hw : s.workers w with
  | none => rw [hw] at h; cases h
  | some p =>
      rw [hw] at h
      cases p with
      | pure b => cases h; exact ⟨_, rfl, trivial, rfl⟩
      | throw e => cases h; exact ⟨_, rfl, trivial, rfl⟩
      | call c next => cases h

theorem step_size (h : step exec ready body s e = some s') : s'.size = s.size := by
  cases e with
  | submit job => cases h; rfl
  | start w => obtain ⟨_, _, _, _, _, rfl⟩ := start_cases h; rfl
  | call w => obtain ⟨_, _, _, _, rfl⟩ := call_cases h; rfl
  | finish w => obtain ⟨_, _, _, rfl⟩ := finish_cases h; rfl

/-- There are no workers beyond the size of the pool. -/
theorem step_beyond (hs : step exec ready body s e = some s') (h : ∀ w, s.size ≤ w → s.workers w = none) :
    ∀ w, s'.size ≤ w → s'.workers w = none := by
  intro v hv
  rw [step_size hs] at hv
  have hnone := h v hv
  cases e with
  | submit job => cases hs; exact hnone
  | start w =>
      obtain ⟨_, hw, _, _, _, rfl⟩ := start_cases hs
      exact (Function.update_of_ne (Nat.ne_of_gt (Nat.lt_of_lt_of_le hw hv)) _ _).trans hnone
  | call w =>
      obtain ⟨_, _, hw, _, rfl⟩ := call_cases hs
      have hvw : v ≠ w := by
        rintro rfl
        rw [hnone] at hw
        cases hw
      exact (Function.update_of_ne hvw _ _).trans hnone
  | finish w =>
      obtain ⟨_, hw, _, rfl⟩ := finish_cases hs
      have hvw : v ≠ w := by
        rintro rfl
        rw [hnone] at hw
        cases hw
      exact (Function.update_of_ne hvw _ _).trans hnone

/-- The outcome after one more event: a submitted job comes last, and no other step changes it. -/
theorem step_outcome (h : Outcome exec body s o) (hok : s.StartsAlone e)
    (hs : step exec ready body s e = some s') :
    Outcome exec body s' ((jobs [e]).foldl (handle exec body) o) := by
  cases e with
  | submit job =>
      cases hs
      cases h with
      | idle hidle =>
          have hnew : Outcome exec body { s with tasks := s.tasks ++ [job] } _ := .idle hidle
          simp only [List.foldl_append] at hnew
          exact hnew
      | busy w p hw hp hothers =>
          have hnew : Outcome exec body { s with tasks := s.tasks ++ [job] } _ := .busy w p hw hp hothers
          simp only [List.foldl_append] at hnew
          exact hnew
  | start w =>
      obtain ⟨_, hw, job, rest, htasks, rfl⟩ := start_cases hs
      cases h with
      | idle hidle =>
          rw [htasks]
          refine .busy w (body job) hw (Function.update_self _ _ _) fun v hv => ?_
          show Function.update s.workers w _ v = none
          rw [Function.update_of_ne hv]
          exact hidle v
      | busy v p hv hp _ =>
          rw [hok v hv] at hp
          cases hp
  | call w =>
      obtain ⟨c, next, hp, _, rfl⟩ := call_cases hs
      cases h with
      | idle hidle =>
          rw [hidle w] at hp
          cases hp
      | busy v p hv hpv hothers =>
          -- only one worker is busy, so it is this one
          have hvw : v = w := by
            by_contra hne
            rw [hothers w (Ne.symm hne)] at hp
            cases hp
          subst hvw
          rw [hpv] at hp
          cases hp
          refine .busy v _ hv (Function.update_self _ _ _) fun u hu => ?_
          show Function.update s.workers v _ u = none
          rw [Function.update_of_ne hu]
          exact hothers u hu
  | finish w =>
      obtain ⟨p, hp, hended, rfl⟩ := finish_cases hs
      cases h with
      | idle hidle =>
          rw [hidle w] at hp
          cases hp
      | busy v q hv hq hothers =>
          have hvw : v = w := by
            by_contra hne
            rw [hothers w (Ne.symm hne)] at hp
            cases hp
          subst hvw
          rw [hq] at hp
          cases hp
          rw [hended.run]
          refine .idle fun u => ?_
          show Function.update s.workers v none u = none
          by_cases hu : u = v
          · rw [hu, Function.update_self]
          · rw [Function.update_of_ne hu]
            exact hothers u hu

/-- A single worker starts every job alone. -/
theorem along_single {es : List (Event J)} : ∀ {s : Pool C R ε σ J}, s.size = 1 →
    Machine.run (step exec ready body) s es = some s' →
    Machine.Along (step exec ready body) StartsAlone s es := by
  induction es with
  | nil => exact fun _ _ => trivial
  | cons e es ih =>
      intro s hsize hr
      obtain ⟨t, ht, hr'⟩ := Machine.run_cons.mp hr
      refine (Machine.along_cons ht).mpr ⟨?_, ih ((step_size ht).trans hsize) hr'⟩
      cases e with
      | start w =>
          obtain ⟨hw, hlt, _⟩ := start_cases ht
          intro v hv
          rw [hsize, Nat.lt_one_iff] at hlt hv
          rw [hv, ← hlt]
          exact hw
      | _ => trivial

/-- **Jobs that do not overlap take effect in the order of their submission**: at the end of a run from an
    idle pool, the world is the one that handling the jobs one after another leaves. -/
theorem alone_outcome {es : List (Event J)} (hidle : s.Idle)
    (hr : Machine.run (step exec ready body) s es = some s')
    (hok : Machine.Along (step exec ready body) StartsAlone s es) (hend : s'.Idle) :
    s'.world = (jobs es).foldl (handle exec body) s.world := by
  have hrun : ∀ {s : Pool C R ε σ J} {o : σ}, Outcome exec body s o →
      Machine.run (step exec ready body) s es = some s' →
      Machine.Along (step exec ready body) StartsAlone s es →
      Outcome exec body s' ((jobs es).foldl (handle exec body) o) := by
    clear hr hok hidle
    induction es with
    | nil =>
        intro s o ho hr _
        cases hr
        exact ho
    | cons e es ih =>
        intro s o ho hr hok
        obtain ⟨s₁, h₁, hr'⟩ := Machine.run_cons.mp hr
        obtain ⟨hok₁, hok'⟩ := (Machine.along_cons h₁).mp hok
        have hnext := ih (step_outcome ho hok₁ h₁) hr' hok'
        have hjobs : jobs (e :: es) = jobs [e] ++ jobs es := by
          unfold jobs
          rw [← List.filterMap_append, List.singleton_append]
        rw [hjobs, List.foldl_append]
        exact hnext
  have hstart : Outcome exec body s s.world := by
    have hnone : Outcome exec body s _ := .idle hidle.2
    rw [hidle.1] at hnone
    exact hnone
  have hfinal := hrun hstart hr hok
  generalize (jobs es).foldl (handle exec body) s.world = final at hfinal
  cases hfinal with
  | idle _ => rw [hend.1]; rfl
  | busy w p _ hp _ =>
      rw [hend.2 w] at hp
      cases hp

end Steps

end Pool
