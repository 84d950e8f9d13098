import CollabEditor.Core.MPSCInvariant

/-!
# `Core.MPSCRuns` — the queue is a queue

Every step of every thread keeps the invariant, so it holds in every state that any interleaving of any number
of producers and the consumer reaches. What the callers of the queue want is read off it: order, no loss and no
duplication, a tail that the consumer can reach, and no access to a deleted node.

## Contents
- **Steps.** `linkStep_inv`, `producerStep_inv`, `reclaimStep_inv`, `consumerStep_inv`; `step_inv`.
- **Deletions.** `step_deletes`: only a sweep deletes.
- **Runs.** `queue_correct`.
-/

namespace CollabEditor

namespace MPSCQueue

variable {α : Type} {maxProducers : ℕ} {q q' : MPSCQueue α} {rest todo kept : List ℕ}

/-! ## Steps -/

/-- A compare-exchange of the tail with the successor of a node. -/
theorem Inv.tail_exchange (h : q.Inv maxProducers rest todo kept) {t n : ℕ} (hn : Next q.heap t n) :
    (q.exchangeTail t n).tail ∈ q.head :: rest ∧
      (q.tail = t ∨ q.tail ≠ q.head → (q.exchangeTail t n).tail ≠ q.head) := by
  show (if q.tail = t then n else q.tail) ∈ _ ∧ (_ → (if q.tail = t then n else q.tail) ≠ _)
  split_ifs with ht
  · have hmem := h.next_live (ht ▸ h.tail) hn
    refine ⟨List.mem_cons_of_mem _ hmem, fun _ hhead => ?_⟩
    exact h.head_notMem (hhead ▸ hmem)
  · exact ⟨h.tail, fun hor => hor.resolve_left ht⟩

/-- A store to the producer's own hazard slot is none to another's. -/
theorem Inv.hazards_other (h : q.Inv maxProducers rest todo kept) {p i : ℕ} {value : Option ℕ}
    (hi : q.slots p = some i) (r j : ℕ) (hr : r ≠ p) (hj : q.slots r = some j) :
    Function.update q.hazards i value j = q.hazards j := by
  refine Function.update_of_ne ?_ _ _
  rintro rfl
  exact hr (h.exclusive r p j hj hi)

theorem linkStep_inv (h : q.Inv maxProducers rest todo kept) {p node : ℕ} {stage : LinkStage}
    (hpc : q.producers p = .linking node stage) (hs : q.linkStep maxProducers p node stage = some q') :
    ∃ rest', q'.Inv maxProducers rest' todo kept := by
  have hnode : ∀ stage', (ProducerPc.linking node stage').node? = (q.producers p).node? := by
    intro stage'
    rw [hpc]
    rfl
  have hcall := h.calls p
  rw [hpc] at hcall
  cases stage with
  | acquireSlot =>
      unfold linkStep at hs
      cases hslot : q.slots p with
      | some i =>
          rw [hslot] at hs
          cases hs
          exact ⟨rest, h.advance h.tail id (fun _ _ _ _ => rfl) (hnode _) nofun nofun nofun⟩
      | none =>
          rw [hslot] at hs
          dsimp only at hs
          split_ifs at hs with hused
          cases hs
          exact ⟨rest, (h.acquire hslot hused).advance h.tail id (fun _ _ _ _ => rfl) (hnode _) nofun nofun nofun⟩
  | loadTail =>
      cases hs
      exact ⟨rest, h.advance h.tail id (fun _ _ _ _ => rfl) (hnode _) nofun nofun nofun⟩
  | storeHazard t =>
      obtain ⟨i, hi, hs⟩ := Option.bind_eq_some_iff.mp hs
      cases hs
      refine ⟨rest, h.advance h.tail id (h.hazards_other hi) (hnode _) (fun t' ht' => ?_) nofun nofun⟩
      cases ht'
      exact ⟨i, hi, Function.update_self ..⟩
  | validate t =>
      cases hs
      by_cases ht : t = q.tail
      · rw [if_pos ht]
        refine ⟨rest, h.advance h.tail id (fun _ _ _ _ => rfl) (hnode _) hcall.published (fun t' ht' => ?_) nofun⟩
        -- the second load has found `t` at the tail, so it is a live node now
        cases ht'
        exact .inr (ht ▸ h.tail)
      · rw [if_neg ht]
        exact ⟨rest, h.advance h.tail id (fun _ _ _ _ => rfl) (hnode _) nofun nofun nofun⟩
  | loadNext t =>
      obtain ⟨n, hn, hs⟩ := Option.bind_eq_some_iff.mp hs
      have hholds : (q.producers p).holds = some t := by rw [hpc]; rfl
      cases hnext : n.next with
      | some tNext =>
          rw [hnext] at hs
          cases hs
          refine ⟨rest, h.advance h.tail id (fun _ _ _ _ => rfl) (hnode _) hcall.published
            (fun t' ht' => .inl (hholds.trans ht')) fun t' n' hexp => ?_⟩
          cases hexp
          unfold Next
          rw [hn, Option.bind_some, hnext]
      | none =>
          rw [hnext] at hs
          cases hs
          exact ⟨rest, h.advance h.tail id (fun _ _ _ _ => rfl) (hnode _) hcall.published
            (fun t' ht' => .inl (hholds.trans ht')) nofun⟩
  | helpTail t tNext =>
      cases hs
      -- another producer has linked its node and not moved the tail yet
      obtain ⟨htail, hmoved⟩ := h.tail_exchange (hcall.expects t tNext rfl)
      exact ⟨rest, h.advance htail (fun hne => hmoved (.inr hne)) (fun _ _ _ _ => rfl) (hnode _) nofun nofun nofun⟩
  | exchangeNext t =>
      obtain ⟨n, hn, hs⟩ := Option.bind_eq_some_iff.mp hs
      obtain ⟨own, hown, hs⟩ := Option.bind_eq_some_iff.mp hs
      cases hnext : n.next with
      | none =>
          rw [hnext] at hs
          cases hs
          exact ⟨rest ++ [node], h.link hpc hn hnext hown⟩
      | some tNext =>
          rw [hnext] at hs
          cases hs
          exact ⟨rest, h.advance h.tail id (fun _ _ _ _ => rfl) (hnode _) nofun nofun nofun⟩

theorem producerStep_inv (h : q.Inv maxProducers rest todo kept) {p : ℕ}
    (hs : q.producerStep maxProducers p = some q') : ∃ rest', q'.Inv maxProducers rest' todo kept := by
  unfold producerStep at hs
  have hcall := h.calls p
  cases hpc : q.producers p with
  | idle =>
      rw [hpc] at hs
      cases hs
  | linking node stage =>
      rw [hpc] at hs
      exact linkStep_inv h hpc hs
  | swingTail node t =>
      rw [hpc] at hs hcall
      cases hs
      obtain ⟨htail, hmoved⟩ := h.tail_exchange (hcall.expects t node rfl)
      exact ⟨rest, h.advance htail (fun hne => hmoved (.inr hne)) (fun _ _ _ _ => rfl) (by rw [hpc]; rfl)
        nofun nofun nofun⟩
  | clearHazard =>
      rw [hpc] at hs
      obtain ⟨i, hi, hs⟩ := Option.bind_eq_some_iff.mp hs
      cases hs
      exact ⟨rest, h.advance h.tail id (h.hazards_other hi) (by rw [hpc]; rfl) nofun nofun nofun⟩

/-- While the consumer scans and sweeps, `retired_head_` stays. -/
theorem reclaimStep_inv (h : q.Inv maxProducers rest todo kept) {value : α} {stage : ReclaimStage}
    (hpc : q.consumer = .reclaim value stage) (hs : q.reclaimStep maxProducers value stage = some q') :
    ∃ todo' kept', q'.Inv maxProducers rest todo' kept' := by
  have hguarded := h.guarded
  unfold Guarded at hguarded
  rw [hpc] at hguarded
  cases stage with
  | loadUsed =>
      cases hs
      refine ⟨todo, kept, h.consume h.tail nofun nofun ?_ ?_ (by rw [hpc]; rfl) fun p t ht hmem => ?_⟩
      · rw [cur, cur, hpc]
      · rw [survivors, survivors, hpc]
      · -- whoever holds a node has a slot, and the scan will come to it
        obtain ⟨j, hj, -⟩ := (h.calls p).published t (ProducerPc.published_of_holds ht)
        have hlt := h.slots p j hj
        have hmax := h.slotsUsed
        exact ⟨j, hj, by omega, .inl (Nat.zero_le j)⟩
  | scan used i snapshot =>
      unfold reclaimStep at hs
      dsimp only at hs
      split_ifs at hs with hi
      · cases hs
        refine ⟨todo, kept, h.consume h.tail nofun nofun ?_ ?_ (by rw [hpc]; rfl) fun p t ht hmem => ?_⟩
        · rw [cur, cur, hpc]
        · rw [survivors, survivors, hpc]
        · obtain ⟨j, hj, hlt, hseen⟩ := hguarded p t ht hmem
          refine ⟨j, hj, hlt, ?_⟩
          rcases hseen with hle | hmem
          · rcases Nat.eq_or_lt_of_le hle with rfl | hlt
            · -- this is the slot, and the node is in it
              obtain ⟨j', hj', hhazard⟩ := (h.calls p).published t (ProducerPc.published_of_holds ht)
              rw [hj] at hj'
              cases hj'
              rw [hhazard]
              exact .inr (List.mem_append_right _ (List.mem_singleton.mpr rfl))
            · exact .inl hlt
          · exact .inr (List.mem_append_left _ hmem)
      · cases hs
        refine ⟨todo, kept, h.consume h.tail nofun nofun ?_ ?_ (by rw [hpc]; rfl) fun p t ht hmem => ?_⟩
        · rw [cur, cur, hpc]
        · rw [survivors, survivors, hpc]
        · obtain ⟨j, -, hlt, hseen⟩ := hguarded p t ht hmem
          exact hseen.resolve_left (by omega)
  | sweep snapshot cur survivors count =>
      cases cur with
      | none =>
          cases hs
          exact ⟨kept, [], h.sweepEnd hpc⟩
      | some c =>
          obtain ⟨n, hn, hs⟩ := Option.bind_eq_some_iff.mp hs
          by_cases hc : c ∈ snapshot
          · rw [if_pos hc] at hs
            cases hs
            obtain ⟨todo', hinv⟩ := h.keep hpc hn
            exact ⟨todo', c :: kept, hinv⟩
          · rw [if_neg hc] at hs
            cases hs
            obtain ⟨todo', hinv⟩ := h.delete hpc hn hc
            exact ⟨todo', kept, hinv⟩

theorem takeStep_inv (h : q.Inv maxProducers rest todo kept) {next : ℕ} (hpc : q.consumer = .take next)
    (hs : q.takeStep maxProducers next = some q') :
    ∃ rest', q'.Inv maxProducers rest' (q.head :: todo) kept := by
  obtain ⟨n, hn, hs⟩ := Option.bind_eq_some_iff.mp hs
  obtain ⟨old, hold, hs⟩ := Option.bind_eq_some_iff.mp hs
  dsimp only at hs
  split_ifs at hs
  · cases hs
    exact h.take hpc hn hold rfl (fun q' hc => by rw [cur, hc]) (fun q' hc => by rw [survivors, hc])
      (fun q' hc _ => by rw [Guarded, hc]; trivial) rfl
  · cases hs
    exact h.take hpc hn hold rfl (fun q' hc => by rw [cur, hc]) (fun q' hc => by rw [survivors, hc])
      (fun q' hc _ => by rw [Guarded, hc]; trivial) (List.append_nil _)

theorem consumerStep_inv (h : q.Inv maxProducers rest todo kept) (hs : q.consumerStep maxProducers = some q') :
    ∃ rest' todo' kept', q'.Inv maxProducers rest' todo' kept' := by
  unfold consumerStep at hs
  cases hpc : q.consumer with
  | idle =>
      rw [hpc] at hs
      cases hs
  | loadTail next =>
      rw [hpc] at hs
      cases hs
      have hnext := h.next next (by rw [hpc]; rfl)
      by_cases ht : q.tail = q.head
      · rw [if_pos ht]
        refine ⟨rest, todo, kept, h.consume h.tail nofun (fun next' hn => ?_) ?_ ?_ (by rw [hpc]; rfl) trivial⟩
        · cases hn
          exact hnext
        · rw [cur, cur, hpc]
        · rw [survivors, survivors, hpc]
      · rw [if_neg ht]
        refine ⟨rest, todo, kept, h.consume h.tail (fun _ _ => ht) (fun next' hn => ?_) ?_ ?_ (by rw [hpc]; rfl)
          trivial⟩
        · cases hn
          exact hnext
        · rw [cur, cur, hpc]
        · rw [survivors, survivors, hpc]
  | exchangeTail next =>
      rw [hpc] at hs
      cases hs
      have hnext := h.next next (by rw [hpc]; rfl)
      obtain ⟨htail, hmoved⟩ := h.tail_exchange hnext
      refine ⟨rest, todo, kept, h.consume htail (fun _ _ => hmoved (Decidable.em _)) (fun next' hn => ?_) ?_ ?_
        (by rw [hpc]; rfl) trivial⟩
      · cases hn
        exact hnext
      · rw [cur, cur, hpc]
      · rw [survivors, survivors, hpc]
  | take next =>
      rw [hpc] at hs
      obtain ⟨rest', hinv⟩ := takeStep_inv h hpc hs
      exact ⟨rest', q.head :: todo, kept, hinv⟩
  | reclaim value stage =>
      rw [hpc] at hs
      obtain ⟨todo', kept', hinv⟩ := reclaimStep_inv h hpc hs
      exact ⟨rest, todo', kept', hinv⟩

/-- **One step** of any thread keeps the invariant. -/
theorem step_inv {e : Event α} (h : ∃ rest todo kept, q.Inv maxProducers rest todo kept)
    (hs : step maxProducers q e = some q') : ∃ rest todo kept, q'.Inv maxProducers rest todo kept := by
  obtain ⟨rest, todo, kept, h⟩ := h
  cases e with
  | enqueue p value address =>
      change q.callEnqueue p value address = some q' at hs
      unfold callEnqueue at hs
      split_ifs at hs with hcall
      cases hs
      exact ⟨rest, todo, kept, h.call hcall.1 (Option.isNone_iff_eq_none.mp hcall.2)⟩
  | producer p =>
      obtain ⟨rest', hinv⟩ := producerStep_inv h hs
      exact ⟨rest', todo, kept, hinv⟩
  | tryDequeue =>
      change q.callTryDequeue = some q' at hs
      unfold callTryDequeue at hs
      cases hpc : q.consumer with
      | idle =>
          rw [hpc] at hs
          obtain ⟨n, hn, hs⟩ := Option.bind_eq_some_iff.mp hs
          cases hnext : n.next with
          | none =>
              rw [hnext] at hs
              cases hs
              exact ⟨rest, todo, kept, h⟩
          | some next =>
              rw [hnext] at hs
              cases hs
              refine ⟨rest, todo, kept, h.consume h.tail nofun (fun next' hn' => ?_) ?_ ?_ (by rw [hpc]; rfl) trivial⟩
              · cases hn'
                unfold Next
                rw [hn, Option.bind_some, hnext]
              · rw [cur, cur, hpc]
              · rw [survivors, survivors, hpc]
      | loadTail _ | exchangeTail _ | take _ | reclaim _ _ =>
          rw [hpc] at hs
          cases hs
  | consumer => exact consumerStep_inv h hs

/-- The queue begins with its sentinel. -/
theorem new_inv [Inhabited α] (maxProducers sentinel : ℕ) :
    (new sentinel : MPSCQueue α).Inv maxProducers [] [] [] where
  liveChain := ⟨rfl, { data := default }, by simp [new], rfl⟩
  todoChain := rfl
  keptChain := rfl
  nodup := List.pairwise_singleton _ sentinel
  tail := List.mem_singleton.mpr rfl
  retired := nofun
  slotsUsed := Nat.zero_le _
  slots := nofun
  exclusive := nofun
  calls _ := ⟨nofun, nofun, nofun, nofun, fun _ => rfl⟩
  owners := nofun
  next := nofun
  moved := nofun
  guarded := trivial
  values := ⟨[], rfl, rfl⟩

/-! ## Deletions -/

/-- A step that writes at most one node. -/
def Writes (q q' : MPSCQueue α) : Prop :=
  q'.heap = q.heap ∨ ∃ x n, q'.heap = Function.update q.heap x (some n)

theorem Writes.isSome (h : Writes q q') {c : ℕ} (hc : (q.heap c).isSome) : (q'.heap c).isSome := by
  rcases h with hsame | ⟨x, n, hwrite⟩
  · rwa [hsame]
  · rw [hwrite]
    by_cases hx : c = x
    · rw [hx, Function.update_self]
      rfl
    · rwa [Function.update_of_ne hx]

theorem producerStep_writes {p : ℕ} (hs : q.producerStep maxProducers p = some q') : Writes q q' := by
  unfold producerStep at hs
  cases hpc : q.producers p with
  | idle =>
      rw [hpc] at hs
      cases hs
  | linking node stage =>
      rw [hpc] at hs
      dsimp only at hs
      cases stage with
      | acquireSlot =>
          unfold linkStep at hs
          cases hslot : q.slots p with
          | some i =>
              rw [hslot] at hs
              cases hs
              exact .inl rfl
          | none =>
              rw [hslot] at hs
              dsimp only at hs
              split_ifs at hs
              cases hs
              exact .inl rfl
      | loadTail | validate t | helpTail t tNext =>
          cases hs
          exact .inl rfl
      | storeHazard t =>
          obtain ⟨i, -, hs⟩ := Option.bind_eq_some_iff.mp hs
          cases hs
          exact .inl rfl
      | loadNext t =>
          obtain ⟨n, -, hs⟩ := Option.bind_eq_some_iff.mp hs
          split at hs <;> (cases hs; exact .inl rfl)
      | exchangeNext t =>
          obtain ⟨n, -, hs⟩ := Option.bind_eq_some_iff.mp hs
          obtain ⟨own, -, hs⟩ := Option.bind_eq_some_iff.mp hs
          split at hs
          · cases hs
            exact .inr ⟨t, _, rfl⟩
          · cases hs
            exact .inl rfl
  | swingTail node t =>
      rw [hpc] at hs
      cases hs
      exact .inl rfl
  | clearHazard =>
      rw [hpc] at hs
      obtain ⟨i, -, hs⟩ := Option.bind_eq_some_iff.mp hs
      cases hs
      exact .inl rfl

/-- The sweep is at a node that the scan has not seen. -/
def Sweeps (q : MPSCQueue α) (c : ℕ) : Prop :=
  ∃ value snapshot keptFrom count,
    q.consumer = .reclaim value (.sweep snapshot (some c) keptFrom count) ∧ c ∉ snapshot

theorem consumerStep_writes (hs : q.consumerStep maxProducers = some q') :
    Writes q q' ∨ ∃ c, q.Sweeps c ∧ q'.heap = Function.update q.heap c none := by
  unfold consumerStep at hs
  cases hpc : q.consumer with
  | idle =>
      rw [hpc] at hs
      cases hs
  | loadTail next | exchangeTail next =>
      rw [hpc] at hs
      cases hs
      exact .inl (.inl rfl)
  | take next =>
      rw [hpc] at hs
      obtain ⟨n, -, hs⟩ := Option.bind_eq_some_iff.mp hs
      obtain ⟨old, -, hs⟩ := Option.bind_eq_some_iff.mp hs
      dsimp only at hs
      split_ifs at hs <;> (cases hs; exact .inl (.inr ⟨q.head, _, rfl⟩))
  | reclaim value stage =>
      rw [hpc] at hs
      dsimp only at hs
      cases stage with
      | loadUsed =>
          cases hs
          exact .inl (.inl rfl)
      | scan used i snapshot =>
          unfold reclaimStep at hs
          dsimp only at hs
          split_ifs at hs <;> (cases hs; exact .inl (.inl rfl))
      | sweep snapshot cur keptFrom count =>
          cases cur with
          | none =>
              cases hs
              exact .inl (.inl rfl)
          | some c =>
              obtain ⟨n, -, hs⟩ := Option.bind_eq_some_iff.mp hs
              by_cases hc : c ∈ snapshot
              · rw [if_pos hc] at hs
                cases hs
                exact .inl (.inr ⟨c, _, rfl⟩)
              · rw [if_neg hc] at hs
                cases hs
                exact .inr ⟨c, ⟨value, snapshot, keptFrom, count, hpc, hc⟩, rfl⟩

/-- **Only a sweep deletes**, and only a node that the scan has not seen. -/
theorem step_deletes {e : Event α} {c : ℕ} (hs : step maxProducers q e = some q') (hc : (q.heap c).isSome)
    (hc' : q'.heap c = none) : q.Sweeps c := by
  have hwrites : ¬ Writes q q' := by
    intro hw
    have hsome := hw.isSome hc
    rw [hc'] at hsome
    cases hsome
  cases e with
  | enqueue p value address =>
      change q.callEnqueue p value address = some q' at hs
      unfold callEnqueue at hs
      split_ifs at hs
      cases hs
      exact absurd (.inr ⟨address, _, rfl⟩) hwrites
  | producer p => exact absurd (producerStep_writes hs) hwrites
  | tryDequeue =>
      refine absurd (.inl ?_) hwrites
      change q.callTryDequeue = some q' at hs
      unfold callTryDequeue at hs
      split at hs
      · obtain ⟨n, -, hs⟩ := Option.bind_eq_some_iff.mp hs
        split at hs <;> (cases hs; rfl)
      · cases hs
  | consumer =>
      obtain ⟨d, hsweeps, hheap⟩ := (consumerStep_writes hs).resolve_left hwrites
      by_cases hcd : c = d
      · rwa [hcd]
      · rw [hheap, Function.update_of_ne hcd] at hc'
        rw [hc'] at hc
        cases hc

/-! ## Runs -/

theorem holds_of_accesses {pc : ProducerPc} {t : ℕ} (h : accesses pc = some t) : pc.holds = some t := by
  unfold accesses at h
  split at h <;> first | exact h | cases h

/-- **The queue is a queue.** In every state that an interleaving of producers and the consumer reaches: what has
    been returned is a prefix of what has been linked; what a producer has linked is a prefix of what it has
    enqueued, and all of it when it is in no call; the tail is reachable from the head; a node whose link a
    producer is about to access is allocated; and no step deletes such a node. -/
theorem queue_correct [Inhabited α] {sentinel : ℕ} {es : List (Event α)}
    (hr : Machine.run (step maxProducers) (new sentinel) es = some q) :
    q.returned <+: q.linked.map Prod.snd ∧
      (∀ p, q.linkedBy p <+: q.enqueued p ∧ (q.producers p = .idle → q.linkedBy p = q.enqueued p)) ∧
      Reachable q.heap q.head q.tail ∧
      (∀ p t, accesses (q.producers p) = some t → (q.heap t).isSome) ∧
      ∀ e q' c, step maxProducers q e = some q' → (q.heap c).isSome → q'.heap c = none →
        ∀ p, accesses (q.producers p) ≠ some c := by
  obtain ⟨rest, todo, kept, h⟩ := Machine.run_preserves
    (fun s e s' hinv hs => step_inv hinv hs) ⟨[], [], [], new_inv maxProducers sentinel⟩ hr
  refine ⟨?_, fun p => ?_, h.liveChain.reachable h.tail, fun p t ht => ?_, fun e q' c hs hc hc' p hp => ?_⟩
  · obtain ⟨vals, -, hall⟩ := h.values
    rw [hall, List.append_assoc]
    exact List.prefix_append _ _
  · constructor
    · cases hnode : (q.producers p).node? with
      | none => exact (h.calls p).linked hnode ▸ List.prefix_refl _
      | some node =>
          obtain ⟨-, v, -, hvalues⟩ := (h.calls p).own node hnode
          rw [hvalues]
          exact List.prefix_append _ _
    · intro hidle
      exact ((h.calls p).linked (by rw [hidle]; rfl)).symm
  · obtain ⟨n, hn⟩ := h.allocated ((h.calls p).holds t (holds_of_accesses ht))
    rw [hn]
    rfl
  · obtain ⟨value, snapshot, keptFrom, count, hpc, hnotMem⟩ := step_deletes hs hc hc'
    exact h.not_held hpc hnotMem p (holds_of_accesses hp)

/-- Two producers; the second links its node and stops, so that the first one moves the tail for it. The fourth
    `try_dequeue` deletes three of the retired nodes and keeps the one that the second producer holds in its
    next call, and the address of a deleted node is used again. -/
def reusedNode : List (Event ℕ) :=
  .enqueue 0 10 1 :: List.replicate 8 (.producer 0) ++
  .enqueue 1 20 2 :: List.replicate 6 (.producer 1) ++
  .enqueue 0 30 3 :: List.replicate 13 (.producer 0) ++ List.replicate 2 (.producer 1) ++
  .enqueue 1 50 5 :: List.replicate 4 (.producer 1) ++
  .enqueue 0 40 4 :: List.replicate 8 (.producer 0) ++
  (List.replicate 4 [.tryDequeue, .consumer, .consumer]).flatten ++ List.replicate 9 .consumer ++
  .enqueue 0 60 1 :: List.replicate 8 (.producer 0) ++ List.replicate 9 (.producer 1) ++
  (List.replicate 2 [.tryDequeue, .consumer, .consumer]).flatten

theorem queue_correct_reusedNode :
    ∃ q, Machine.run (step 2) (new 0) reusedNode = some q ∧ q.returned = [10, 20, 30, 40, 60, 50] ∧
      q.returned <+: q.linked.map Prod.snd ∧ Reachable q.heap q.head q.tail := by
  have hrun : (Machine.run (step 2) (new 0) reusedNode).isSome := by decide +kernel
  have hcorrect := queue_correct (Option.some_get hrun).symm
  refine ⟨_, (Option.some_get hrun).symm, ?_, hcorrect.1, hcorrect.2.2.1⟩
  clear hcorrect
  decide +kernel +revert

end MPSCQueue

end CollabEditor
