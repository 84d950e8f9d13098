import CollabEditor.Lib.Machine
import Mathlib.Data.Nat.Notation
import Mathlib.Data.List.Basic
import Mathlib.Logic.Function.Basic
import Mathlib.Tactic.SplitIfs

/-!
# `Core.HazardSlots` — who owns a hazard slot of a queue

A thread that enqueues into an `MPSCQueue` publishes its hazard pointer in a slot of the queue. It takes the
slot from the queue's counter `slots_used_` once and remembers it in a thread-local cache under the *address*
of the queue. The cache outlives the queue, and a queue built later at the same address starts to count from
zero again.

## Contents
- **The machine.** `Slots`: the live queues by address and the caches of the threads; queues come and go and
  threads enqueue, in any order.
- **Exclusive.** No two threads use one slot of a live queue, and every slot in use is below `slots_used_`,
  where `try_reclaim_` looks.
- **The condition.** `Current`: a thread does not enqueue with a slot of an earlier queue. It is exact,
  `slots_exclusive`, and reuse of an address breaks it, `reused_address`.
-/

namespace CollabEditor

/-- A queue while it lives: its counter, and who has used which slot of it. -/
structure LiveQueue where
  slotsUsed : ℕ := 0
  users     : List (ℕ × ℕ) := []
  deriving DecidableEq, Repr

/-- The live queues of one element type by address, and the `slot_cache_` of every thread. -/
structure Slots where
  queues : ℕ → Option LiveQueue := fun _ => none
  caches : ℕ → List (ℕ × ℕ) := fun _ => []

/-- What threads do with queues. -/
inductive SlotEvent where
  | create (address : ℕ)
  | destroy (address : ℕ)
  | enqueue (thread address : ℕ)
  deriving DecidableEq, Repr

/-- `acquire_slot_` of the queue at an address: the slot, the thread's cache and the counter after it. `none`
    is the call of `abort`. -/
def acquireSlot (maxProducers : ℕ) (cache : List (ℕ × ℕ)) (address slotsUsed : ℕ) :
    Option (ℕ × List (ℕ × ℕ) × ℕ) :=
  match cache.lookup address with
  | some slot => some (slot, cache, slotsUsed)
  | none =>
      if slotsUsed < maxProducers then some (slotsUsed, cache ++ [(address, slotsUsed)], slotsUsed + 1)
      else none

namespace Slots

/-- One step: a queue is built at an address without one, is destroyed, or is enqueued into. -/
def step (maxProducers : ℕ) (s : Slots) : SlotEvent → Option Slots
  | .create a => match s.queues a with
    | none   => some { s with queues := Function.update s.queues a (some {}) }
    | some _ => none
  | .destroy a => match s.queues a with
    | none   => none
    | some _ => some { s with queues := Function.update s.queues a none }
  | .enqueue t a => match s.queues a with
    | none   => none
    | some q => match acquireSlot maxProducers (s.caches t) a q.slotsUsed with
      | none => none
      | some (slot, cache, slotsUsed) =>
          some { queues := Function.update s.queues a
                   (some { slotsUsed := slotsUsed, users := q.users.insert (t, slot) })
                 caches := Function.update s.caches t cache }

/-- No slot of the queue is in use by two threads, and those in use are below `slots_used_`. -/
def Exclusive (s : Slots) : Prop :=
  ∀ a q, s.queues a = some q →
    (∀ t t' i, (t, i) ∈ q.users → (t', i) ∈ q.users → t = t') ∧ ∀ t i, (t, i) ∈ q.users → i < q.slotsUsed

/-- A thread that enqueues has no slot in its cache for this address, or one of the queue that lives there
    now. -/
def Current (s : Slots) : SlotEvent → Prop
  | .enqueue t a => ∀ q ∈ s.queues a, ∀ i ∈ (s.caches t).lookup a, (t, i) ∈ q.users
  | _ => True

instance (s : Slots) : (e : SlotEvent) → Decidable (s.Current e)
  | .enqueue t a => inferInstanceAs (Decidable (∀ q ∈ s.queues a, ∀ i ∈ (s.caches t).lookup a, _))
  | .create _ | .destroy _ => isTrue trivial

/-- The users of a live queue remember their slots, and every slot handed out has a user. -/
def Tracked (s : Slots) : Prop :=
  ∀ a q, s.queues a = some q →
    (∀ t i, (t, i) ∈ q.users → (s.caches t).lookup a = some i) ∧
      ∀ i < q.slotsUsed, ∃ t, (t, i) ∈ q.users

section Steps

variable {maxProducers : ℕ} {s s' : Slots} {e : SlotEvent}

theorem acquireSlot_cases {cache cache' : List (ℕ × ℕ)} {a n slot n' : ℕ}
    (h : acquireSlot maxProducers cache a n = some (slot, cache', n')) :
    (cache.lookup a = some slot ∧ cache' = cache ∧ n' = n) ∨
      (cache.lookup a = none ∧ slot = n ∧ cache' = cache ++ [(a, n)] ∧ n' = n + 1) := by
  unfold acquireSlot at h
  cases hl : cache.lookup a with
  | some i =>
      rw [hl] at h
      cases h
      exact .inl ⟨rfl, rfl, rfl⟩
  | none =>
      rw [hl] at h
      simp only at h
      split at h
      · cases h
        exact .inr ⟨rfl, rfl, rfl, rfl⟩
      · cases h

/-- **What a step can do**: the queue at one address changes, and the others stay. An enqueueing thread uses
    the slot in its cache, or takes the next one of the counter and remembers it. -/
theorem step_cases (hs : step maxProducers s e = some s') :
    (∃ a, e = .create a ∧ s.queues a = none ∧
      s' = { s with queues := Function.update s.queues a (some {}) }) ∨
    (∃ a q, e = .destroy a ∧ s.queues a = some q ∧
      s' = { s with queues := Function.update s.queues a none }) ∨
    (∃ t a q slot, e = .enqueue t a ∧ s.queues a = some q ∧ (s.caches t).lookup a = some slot ∧
      s'.queues = Function.update s.queues a (some { q with users := q.users.insert (t, slot) }) ∧
      s'.caches = s.caches) ∨
    ∃ t a q, e = .enqueue t a ∧ s.queues a = some q ∧ (s.caches t).lookup a = none ∧
      s'.queues = Function.update s.queues a
        (some { slotsUsed := q.slotsUsed + 1, users := q.users.insert (t, q.slotsUsed) }) ∧
      s'.caches = Function.update s.caches t (s.caches t ++ [(a, q.slotsUsed)]) := by
  cases e with
  | create a =>
      simp only [step] at hs
      split at hs
      next hq => exact .inl ⟨a, rfl, hq, (Option.some.inj hs).symm⟩
      next => cases hs
  | destroy a =>
      simp only [step] at hs
      split at hs
      next => cases hs
      next q hq => exact .inr (.inl ⟨a, q, rfl, hq, (Option.some.inj hs).symm⟩)
  | enqueue t a =>
      simp only [step] at hs
      split at hs
      next => cases hs
      next q hq =>
        split at hs
        next => cases hs
        next slot cache n hacq =>
          cases hs
          obtain ⟨hl, rfl, rfl⟩ | ⟨hl, rfl, rfl, rfl⟩ := acquireSlot_cases hacq
          · exact .inr (.inr (.inl ⟨t, a, q, slot, rfl, hq, hl, rfl, Function.update_eq_self t s.caches⟩))
          · exact .inr (.inr (.inr ⟨t, a, q, rfl, hq, hl, rfl, rfl⟩))

/-- A slot in the cache stays in it. -/
theorem lookup_append_of_some {cache : List (ℕ × ℕ)} {a i : ℕ} (h : cache.lookup a = some i) (p : ℕ × ℕ) :
    (cache ++ [p]).lookup a = some i := by
  rw [List.lookup_append, h]
  rfl

theorem lookup_append_of_none {cache : List (ℕ × ℕ)} {a : ℕ} (h : cache.lookup a = none) (i : ℕ) :
    (cache ++ [(a, i)]).lookup a = some i := by
  rw [List.lookup_append, h]
  simp

/-- **One step keeps the books**: users remember their slots, and what has been handed out is in use. -/
theorem tracked_step (h : s.Tracked) (hs : step maxProducers s e = some s') : s'.Tracked := by
  obtain ⟨a, rfl, _, rfl⟩ | ⟨a, q, rfl, hq, rfl⟩ | ⟨t, a, q, slot, rfl, hq, hl, hqueues, hcaches⟩ |
    ⟨t, a, q, rfl, hq, hl, hqueues, hcaches⟩ := step_cases hs
  · intro b q hb
    simp only [Function.update_apply] at hb
    split_ifs at hb with hba
    · cases hb
      exact ⟨fun t i hti => absurd hti List.not_mem_nil, fun i hi => absurd hi (Nat.not_lt_zero i)⟩
    · exact h b q hb
  · intro b r hb
    simp only [Function.update_apply] at hb
    split_ifs at hb with hba
    exact h b r hb
  · intro b r hb
    rw [hqueues, Function.update_apply] at hb
    rw [hcaches]
    split_ifs at hb with hba
    · subst hba
      cases hb
      obtain ⟨husers, hhanded⟩ := h b q hq
      constructor
      · intro t' i hti
        rcases List.mem_insert_iff.mp hti with heq | hmem
        · cases heq
          exact hl
        · exact husers t' i hmem
      · intro i hi
        obtain ⟨t', ht'⟩ := hhanded i hi
        exact ⟨t', List.mem_insert_of_mem ht'⟩
    · exact h b r hb
  · -- the thread's cache grows by the slot of this queue, and keeps what it had
    have hkept : ∀ t' b i, (s.caches t').lookup b = some i → (s'.caches t').lookup b = some i := by
      intro t' b i hi
      rw [hcaches, Function.update_apply]
      split_ifs with ht
      · subst ht
        exact lookup_append_of_some hi _
      · exact hi
    intro b r hb
    rw [hqueues, Function.update_apply] at hb
    split_ifs at hb with hba
    · subst hba
      cases hb
      obtain ⟨husers, hhanded⟩ := h b q hq
      constructor
      · intro t' i hti
        rcases List.mem_insert_iff.mp hti with heq | hmem
        · cases heq
          rw [hcaches, Function.update_self]
          exact lookup_append_of_none hl _
        · exact hkept t' b i (husers t' i hmem)
      · intro i hi
        rcases Nat.lt_succ_iff_lt_or_eq.mp hi with hlt | rfl
        · obtain ⟨t', ht'⟩ := hhanded i hlt
          exact ⟨t', List.mem_insert_of_mem ht'⟩
        · exact ⟨t, List.mem_insert_self⟩
    · exact ⟨fun t' i hti => hkept t' b i ((h b r hb).1 t' i hti), (h b r hb).2⟩

/-- **One step stays exclusive exactly when it is current.** A slot of an earlier queue is either past the
    counter, or has been handed out again to another thread. -/
theorem exclusive_step_iff (h : s.Tracked) (hx : s.Exclusive) (hs : step maxProducers s e = some s') :
    s'.Exclusive ↔ s.Current e := by
  obtain ⟨a, rfl, _, rfl⟩ | ⟨a, q, rfl, hq, rfl⟩ | ⟨t, a, q, slot, rfl, hq, hl, hqueues, hcaches⟩ |
    ⟨t, a, q, rfl, hq, hl, hqueues, hcaches⟩ := step_cases hs
  · refine iff_of_true ?_ trivial
    intro b q hb
    simp only [Function.update_apply] at hb
    split_ifs at hb with hba
    · cases hb
      exact ⟨fun t _ i hti => absurd hti List.not_mem_nil, fun t i hti => absurd hti List.not_mem_nil⟩
    · exact hx b q hb
  · refine iff_of_true ?_ trivial
    intro b r hb
    simp only [Function.update_apply] at hb
    split_ifs at hb with hba
    exact hx b r hb
  · have hcurrent : s.Current (.enqueue t a) ↔ (t, slot) ∈ q.users := by
      simp [Current, hq, hl]
    rw [hcurrent]
    constructor
    · intro hx'
      obtain ⟨hshared, hbelow⟩ := hx' a { q with users := q.users.insert (t, slot) }
        (by rw [hqueues, Function.update_self])
      obtain ⟨t', ht'⟩ := (h a q hq).2 slot (hbelow t slot List.mem_insert_self)
      have heq : t = t' := hshared t t' slot List.mem_insert_self (List.mem_insert_of_mem ht')
      rw [heq]
      exact ht'
    · intro hmem b r hb
      rw [hqueues, Function.update_apply] at hb
      split_ifs at hb with hba
      · subst hba
        rw [List.insert_of_mem hmem] at hb
        cases hb
        exact hx b q hq
      · exact hx b r hb
  · refine iff_of_true ?_ (by simp [Current, hl])
    intro b r hb
    rw [hqueues, Function.update_apply] at hb
    split_ifs at hb with hba
    · subst hba
      cases hb
      obtain ⟨hshared, hbelow⟩ := hx b q hq
      constructor
      · intro t₁ t₂ i h₁ h₂
        rcases List.mem_insert_iff.mp h₁ with heq₁ | hmem₁ <;> rcases List.mem_insert_iff.mp h₂ with heq₂ | hmem₂
        · cases heq₁
          cases heq₂
          rfl
        · cases heq₁
          exact absurd (hbelow _ _ hmem₂) (Nat.lt_irrefl _)
        · cases heq₂
          exact absurd (hbelow _ _ hmem₁) (Nat.lt_irrefl _)
        · exact hshared t₁ t₂ i hmem₁ hmem₂
      · intro t' i hti
        rcases List.mem_insert_iff.mp hti with heq | hmem
        · cases heq
          exact Nat.lt_succ_self _
        · exact Nat.lt_succ_of_lt (hbelow t' i hmem)
    · exact hx b r hb

end Steps

/-- **Hazard slots are exclusive and visible** in every state a run of queue lifetimes and enqueues goes
    through, exactly when no thread ever enqueues with a slot that its cache kept from an earlier queue at
    the same address. -/
theorem slots_exclusive {maxProducers : ℕ} {es : List SlotEvent} {s : Slots}
    (hr : Machine.run (step maxProducers) {} es = some s) :
    Machine.Along (step maxProducers) Current {} es ↔
      ∀ k t, Machine.run (step maxProducers) {} (es.take k) = some t → t.Exclusive := by
  refine Machine.along_iff_invariant (J := Tracked) ?_ ?_ ?_ hr
  · intro s e s' htracked hx hs
    exact ⟨tracked_step htracked hs, exclusive_step_iff htracked hx hs⟩
  · intro a q hq
    cases hq
  · intro a q hq
    cases hq

/-- Two queues at different addresses and two threads. -/
def distinctAddresses : List SlotEvent :=
  [.create 0, .enqueue 1 0, .enqueue 2 0, .create 8, .enqueue 2 8, .destroy 0, .enqueue 1 8]

theorem slots_exclusive_distinct : ∃ s, Machine.run (step 64) {} distinctAddresses = some s ∧ s.Exclusive := by
  have hrun : (Machine.run (step 64) {} distinctAddresses).isSome := by decide
  refine ⟨_, (Option.some_get hrun).symm, ?_⟩
  exact (slots_exclusive (Option.some_get hrun).symm).mp (by decide) 7 _ (Option.some_get hrun).symm

/-- A queue is destroyed and another one built at its address. -/
def reusedAddress : List SlotEvent :=
  [.create 0, .enqueue 1 0, .destroy 0, .create 0, .enqueue 2 0, .enqueue 1 0]

/-- **Reuse of an address shares a slot.** Thread 1 enqueues into the second queue with the slot it has kept
    from the first one, and thread 2 holds the same slot there. Without the enqueue of thread 2 the slot
    of thread 1 is not even below `slots_used_`. -/
theorem reused_address :
    (∃ s q, Machine.run (step 64) {} reusedAddress = some s ∧ s.queues 0 = some q ∧
      (1, 0) ∈ q.users ∧ (2, 0) ∈ q.users ∧ ¬ s.Exclusive) ∧
    ∃ s q, Machine.run (step 64) {} [.create 0, .enqueue 1 0, .destroy 0, .create 0, .enqueue 1 0] = some s ∧
      s.queues 0 = some q ∧ (1, 0) ∈ q.users ∧ q.slotsUsed = 0 := by
  constructor
  · refine ⟨_, { slotsUsed := 1, users := [(1, 0), (2, 0)] }, rfl, rfl, by decide, by decide, ?_⟩
    intro hx
    exact absurd ((hx 0 _ rfl).1 1 2 0 (by decide) (by decide)) (by decide)
  · exact ⟨_, { slotsUsed := 0, users := [(1, 0)] }, rfl, rfl, by decide, rfl⟩

end Slots

end CollabEditor
