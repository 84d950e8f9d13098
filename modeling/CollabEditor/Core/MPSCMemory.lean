import CollabEditor.Core.MPSCAtomic
import Mathlib.Data.List.Perm.Subperm

/-!
# `Core.MPSCMemory` — the nodes of the queue are all accounted for

Every node that is allocated is in one place: in the list from `head_` on, among the retired ones, or in the hands
of the producer whose call of `enqueue` has created it. The retired ones are few: when there are `2 * MaxProducers`
of them a sweep begins, and it keeps at most those that were in the hazard slots. So a queue needs no more nodes
than its values, the calls under way and this bound, and its destructor, which runs when no call is under way,
deletes every node once.

## Contents
- **Accounts.** `Owned`, `Counted`, `Memory`; the lists of the invariant are those of the heap, `Inv.lists_eq`.
- **Steps.** `producerStep_cases`, `sweep_memory`, `consumer_memory`, `step_memory`.
- **Runs.** `memory_bounded`.
- **The destructor.** `drain`, `deleteRetired`, `destroy`; `drain_ends`, `deleteRetired_frees`, `destroy_frees`.
-/

namespace CollabEditor

variable {α : Type}

namespace MPSCQueue

/-! ## Accounts -/

/-- A node that is allocated belongs to the queue, or to the producer that has still to link it. -/
def Owned (q : MPSCQueue α) (nodes : List ℕ) : Prop :=
  ∀ a, (q.heap a).isSome → a ∈ nodes ∨ ∃ p, (q.producers p).node? = some a

/-- What the consumer has counted. -/
def Counted (maxProducers : ℕ) (q : MPSCQueue α) (todo kept : List ℕ) : Prop :=
  match q.consumer with
  | .reclaim _ .loadUsed => todo.length ≤ 2 * maxProducers
  | .reclaim _ (.scan used i snapshot) =>
      used ≤ maxProducers ∧ i ≤ used ∧ snapshot.length ≤ i ∧ todo.length ≤ 2 * maxProducers
  | .reclaim _ (.sweep snapshot _ _ count) =>
      snapshot.length ≤ maxProducers ∧ (∀ a ∈ kept, a ∈ snapshot) ∧ count = kept.length ∧
        todo.length + kept.length ≤ 2 * maxProducers
  | _ => q.retiredCount = todo.length ∧ todo.length < 2 * maxProducers

structure Memory (maxProducers : ℕ) (q : MPSCQueue α) (rest todo kept : List ℕ) : Prop where
  inv     : q.Inv maxProducers rest todo kept
  owned   : q.Owned (q.nodes rest todo kept)
  counted : q.Counted maxProducers todo kept

section

variable {maxProducers : ℕ} {q q' : MPSCQueue α} {rest todo kept rest' todo' kept' : List ℕ}

/-- **The lists are those of the heap**: a step that leaves it, and where they begin, leaves them. -/
theorem Inv.lists_eq (h : q.Inv maxProducers rest todo kept) (h' : q'.Inv maxProducers rest' todo' kept')
    (hheap : q'.heap = q.heap) (hhead : q'.head = q.head) (hcur : q'.cur = q.cur)
    (hsurvivors : q'.survivors = q.survivors) : rest' = rest ∧ todo' = todo ∧ kept' = kept := by
  have hlive := h'.liveChain
  have htodo := h'.todoChain
  have hkept := h'.keptChain
  rw [hheap, hhead] at hlive
  rw [hheap, hcur] at htodo
  rw [hheap, hsurvivors] at hkept
  exact ⟨(List.cons.inj (hlive.unique h.liveChain)).2, htodo.unique h.todoChain, hkept.unique h.keptChain⟩

/-- Nothing is kept but in a sweep. -/
theorem Inv.kept_nil (h : q.Inv maxProducers rest todo kept) (hnone : q.survivors = none) : kept = [] := by
  have hchain := h.keptChain
  rw [hnone] at hchain
  cases kept with
  | nil => rfl
  | cons a as => cases hchain.1

/-- A step that leaves the heap, and does not take a node out of a producer's hands. -/
theorem Owned.frame (h : q.Owned (q.nodes rest todo kept)) (hheap : q'.heap = q.heap) (hhead : q'.head = q.head)
    (hnode : ∀ r, (q'.producers r).node? = (q.producers r).node?) : q'.Owned (q'.nodes rest todo kept) := by
  intro a ha
  rw [hheap] at ha
  rcases h a ha with hmem | ⟨r, hr⟩
  · refine .inl ?_
    unfold nodes
    rw [hhead]
    exact hmem
  · exact .inr ⟨r, (hnode r).trans hr⟩

/-! ## Producers -/

/-- **What a producer does**: it links its node, or leaves the nodes as they are. -/
theorem producerStep_cases {p : ℕ} (hs : q.producerStep maxProducers p = some q') :
    (∃ tail slotsUsed slots hazards pc, pc.node? = (q.producers p).node? ∧ q' =
      { q with tail := tail, slotsUsed := slotsUsed, slots := slots, hazards := hazards }.goto p pc) ∨
    ∃ node t n own, q.producers p = .linking node (.exchangeNext t) ∧ q.heap t = some n ∧ q.heap node = some own ∧
      n.next = none ∧ q' = { q with
        heap := Function.update q.heap t (some { n with next := some node })
        linked := q.linked ++ [(p, own.data)] }.goto p (.swingTail node t) := by
  unfold producerStep at hs
  cases hpc : q.producers p with
  | idle =>
      rw [hpc] at hs
      cases hs
  | linking node stage =>
      rw [hpc] at hs
      rcases linkStep_cases hs with ⟨tail, slotsUsed, slots, hazards, stage', hq'⟩ |
        ⟨t, n, own, rfl, hn, hown, hnext, hq'⟩
      · exact .inl ⟨tail, slotsUsed, slots, hazards, .linking node stage', rfl, hq'⟩
      · exact .inr ⟨node, t, n, own, rfl, hn, hown, hnext, hq'⟩
  | swingTail node t =>
      rw [hpc] at hs
      cases hs
      exact .inl ⟨_, _, _, _, .clearHazard, rfl, rfl⟩
  | clearHazard =>
      rw [hpc] at hs
      obtain ⟨i, -, hs⟩ := Option.bind_eq_some_iff.mp hs
      cases hs
      exact .inl ⟨_, _, _, _, .idle, rfl, rfl⟩

theorem producer_memory (h : q.Memory maxProducers rest todo kept) {p : ℕ}
    (hs : q.producerStep maxProducers p = some q') : ∃ rest', q'.Memory maxProducers rest' todo kept := by
  obtain ⟨rest', hinv⟩ := producerStep_inv h.inv hs
  rcases producerStep_cases hs with ⟨tail, slotsUsed, slots, hazards, pc, hnode, hq'⟩ |
    ⟨node, t, n, own, hpc, hn, hown, hnext, hq'⟩
  · obtain ⟨hrest, -, -⟩ := h.inv.lists_eq hinv (by rw [hq']; rfl) (by rw [hq']; rfl) (by rw [hq']; rfl)
      (by rw [hq']; rfl)
    rw [hrest] at hinv
    refine ⟨rest, hinv, h.owned.frame (by rw [hq']; rfl) (by rw [hq']; rfl) fun r => ?_, ?_⟩
    · rw [hq']
      by_cases hr : r = p
      · rw [hr, goto_self]
        exact hnode
      · rw [goto_of_ne hr]
    · have hcounted := h.counted
      rw [hq']
      exact hcounted
  · -- the node goes from the producer to the queue
    have hlink := h.inv.link hpc hn hnext hown
    rw [← hq'] at hlink
    refine ⟨rest ++ [node], hlink, fun a ha => ?_, ?_⟩
    · have hperm : a ∈ q'.nodes (rest ++ [node]) todo kept ↔ a = node ∨ a ∈ q.nodes rest todo kept := by
        rw [hq']
        simp only [nodes, goto, List.mem_append, List.mem_cons, List.not_mem_nil, or_false]
        tauto
      have hold : (q.heap a).isSome := by
        rw [hq'] at ha
        by_cases hat : a = t
        · rw [hat, hn]
          rfl
        · change (Function.update q.heap t _ a).isSome at ha
          rwa [Function.update_of_ne hat] at ha
      rcases h.owned a hold with hmem | ⟨r, hr⟩
      · exact .inl (hperm.mpr (.inr hmem))
      · by_cases hrp : r = p
        · rw [hrp, hpc] at hr
          cases hr
          exact .inl (hperm.mpr (.inl rfl))
        · refine .inr ⟨r, ?_⟩
          rw [hq', goto_of_ne hrp]
          exact hr
    · have hcounted := h.counted
      rw [hq']
      exact hcounted

theorem enqueue_memory (h : q.Memory maxProducers rest todo kept) {p address : ℕ} {value : α}
    (hs : q.callEnqueue p value address = some q') : q'.Memory maxProducers rest todo kept := by
  unfold callEnqueue at hs
  split_ifs at hs with hcall
  have hq' := (Option.some.inj hs).symm
  have hinv : q'.Inv maxProducers rest todo kept := by
    rw [hq']
    exact h.inv.call hcall.1 (Option.isNone_iff_eq_none.mp hcall.2)
  refine ⟨hinv, fun a ha => ?_, ?_⟩
  · by_cases haddress : a = address
    · refine .inr ⟨p, ?_⟩
      rw [hq', goto_self, haddress]
      rfl
    · rw [hq'] at ha
      change (Function.update q.heap address _ a).isSome at ha
      rw [Function.update_of_ne haddress] at ha
      rcases h.owned a ha with hmem | ⟨r, hr⟩
      · rw [hq']
        exact .inl hmem
      · refine .inr ⟨r, ?_⟩
        have hne : r ≠ p := by
          rintro rfl
          rw [hcall.1] at hr
          cases hr
        rw [hq', goto_of_ne hne]
        exact hr
  · have hcounted := h.counted
    rw [hq']
    exact hcounted

/-! ## The consumer -/

/-- A step that leaves the nodes as they are. -/
theorem Memory.same (h : q.Memory maxProducers rest todo kept)
    (hinv : ∃ rest' todo' kept', q'.Inv maxProducers rest' todo' kept') (hheap : q'.heap = q.heap)
    (hhead : q'.head = q.head) (hcur : q'.cur = q.cur) (hsurvivors : q'.survivors = q.survivors)
    (hproducers : q'.producers = q.producers) (hcounted : q'.Counted maxProducers todo kept) :
    q'.Memory maxProducers rest todo kept := by
  obtain ⟨rest', todo', kept', hinv⟩ := hinv
  obtain ⟨rfl, rfl, rfl⟩ := h.inv.lists_eq hinv hheap hhead hcur hsurvivors
  exact ⟨hinv, h.owned.frame hheap hhead fun r => by rw [hproducers], hcounted⟩

/-- The number of steps that the consumer still needs, where each value in the queue stands for a call of
    `try_dequeue` with a reclamation. -/
def rank (maxProducers : ℕ) (q : MPSCQueue α) (todo : List ℕ) : ℕ :=
  match q.consumer with
  | .idle                          => 3
  | .loadTail _                    => 2
  | .exchangeTail _                => 1
  | .take _                        => 0
  | .reclaim _ .loadUsed           => maxProducers + todo.length + 6
  | .reclaim _ (.scan used i _)    => used - i + todo.length + 5
  | .reclaim _ (.sweep _ _ _ _)    => todo.length + 4

def weight (maxProducers : ℕ) (q : MPSCQueue α) (rest todo : List ℕ) : ℕ :=
  rest.length * (3 * maxProducers + 7) + q.rank maxProducers todo

/-- What the sweep is at, and what comes after it. -/
theorem Inv.sweep_cons (h : q.Inv maxProducers rest todo kept) {value : α} {snapshot : List ℕ} {c count : ℕ}
    {keptFrom : Option ℕ} {n : Node α}
    (hpc : q.consumer = .reclaim value (.sweep snapshot (some c) keptFrom count)) (hn : q.heap c = some n) :
    ∃ after, todo = c :: after ∧ Chain Node.retiredNext q.heap n.retiredNext after ∧ c ∉ after := by
  obtain ⟨hchain, -, -⟩ := h.sweeping hpc
  cases todo with
  | nil => cases hchain
  | cons c' after =>
      obtain ⟨hc, n', hn', hafter⟩ := hchain
      cases hc
      rw [hn] at hn'
      cases hn'
      have hretired : (c :: (after ++ kept)).Nodup := (List.nodup_append.mp h.nodup).2.1
      exact ⟨after, rfl, hafter, fun hmem => (List.nodup_cons.mp hretired).1 (List.mem_append_left _ hmem)⟩

/-- **A step of `try_reclaim_`.** -/
theorem reclaim_memory (h : q.Memory maxProducers rest todo kept) (hpos : 0 < maxProducers) {value : α}
    {stage : ReclaimStage} (hpc : q.consumer = .reclaim value stage)
    (hs : q.reclaimStep maxProducers value stage = some q') :
    ∃ todo' kept', q'.Memory maxProducers rest todo' kept' ∧ q'.rank maxProducers todo' < q.rank maxProducers todo := by
  obtain ⟨todo₁, kept₁, hinv⟩ := reclaimStep_inv h.inv hpc hs
  have hcounted := h.counted
  unfold Counted at hcounted
  rw [hpc] at hcounted
  have hslots := h.inv.slotsUsed
  cases stage with
  | loadUsed =>
      cases hs
      refine ⟨todo, kept, h.same ⟨_, _, _, hinv⟩ rfl rfl ?_ ?_ rfl ?_, ?_⟩
      · rw [cur, cur, hpc]
      · rw [survivors, survivors, hpc]
      · exact ⟨Nat.min_le_right _ _, Nat.zero_le _, Nat.le_refl 0, hcounted⟩
      · rw [rank, rank, hpc]
        dsimp only
        omega
  | scan used i snapshot =>
      obtain ⟨hused, hi, hsnapshot, htodo⟩ := hcounted
      have hkept := h.inv.kept_nil (by rw [survivors, hpc])
      unfold reclaimStep at hs
      dsimp only at hs
      split_ifs at hs with hlt
      · cases hs
        refine ⟨todo, kept, h.same ⟨_, _, _, hinv⟩ rfl rfl ?_ ?_ rfl ?_, ?_⟩
        · rw [cur, cur, hpc]
        · rw [survivors, survivors, hpc]
        · -- a slot gives the snapshot one address at most
          have hone : (q.hazards i).toList.length ≤ 1 := by cases q.hazards i <;> simp
          refine ⟨hused, hlt, ?_, htodo⟩
          rw [List.length_append]
          omega
        · rw [rank, rank, hpc]
          dsimp only
          omega
      · cases hs
        refine ⟨todo, kept, h.same ⟨_, _, _, hinv⟩ rfl rfl ?_ ?_ rfl ?_, ?_⟩
        · rw [cur, cur, hpc]
        · rw [survivors, survivors, hpc]
        · rw [hkept]
          refine ⟨by omega, fun a ha => absurd ha List.not_mem_nil, rfl, ?_⟩
          simpa using htodo
        · rw [rank, rank, hpc]
          dsimp only
          omega
  | sweep snapshot cur keptFrom count =>
      obtain ⟨hsnapshot, hseen, hcount, hall⟩ := hcounted
      cases cur with
      | none =>
          have htodo : todo = [] := by
            obtain ⟨hchain, -, -⟩ := h.inv.sweeping hpc
            cases todo with
            | nil => rfl
            | cons a as => cases hchain.1
          cases hs
          refine ⟨kept, [], ⟨h.inv.sweepEnd hpc, ?_, ?_⟩, ?_⟩
          · have howned := h.owned
            rw [htodo] at howned
            intro a ha
            refine (howned a ha).imp_left fun hmem => ?_
            simpa [nodes, finish] using hmem
          · -- what is kept was in the snapshot, and no node is kept twice
            have hnodup : kept.Nodup := (List.nodup_append.mp (List.nodup_append.mp h.inv.nodup).2.1).2.1
            have hle : kept.length ≤ snapshot.length :=
              (List.subperm_of_subset hnodup fun a ha => hseen a ha).length_le
            exact ⟨hcount, by omega⟩
          · rw [rank, rank, hpc]
            show 3 < todo.length + 4
            omega
      | some c =>
          obtain ⟨n, hn, hs⟩ := Option.bind_eq_some_iff.mp hs
          obtain ⟨after, htodo, hafter, hnotMem⟩ := h.inv.sweep_cons hpc hn
          have hnodes : ∀ a, a ∈ q.nodes rest todo kept ↔ a = c ∨ a ∈ q.nodes rest after kept := by
            intro a
            rw [htodo]
            simp only [nodes, List.mem_append, List.mem_cons]
            tauto
          by_cases hc : c ∈ snapshot
          · rw [if_pos hc] at hs
            cases hs
            obtain ⟨todo', hkeep⟩ := h.inv.keep hpc hn
            have htodo' : todo' = after := hkeep.todoChain.unique (hafter.update fun hmem => absurd hmem hnotMem)
            rw [htodo'] at hkeep
            refine ⟨after, c :: kept, ⟨hkeep, fun a ha => ?_, ?_⟩, ?_⟩
            · have hold : (q.heap a).isSome := by
                by_cases hac : a = c
                · rw [hac, hn]
                  rfl
                · change (Function.update q.heap c _ a).isSome at ha
                  rwa [Function.update_of_ne hac] at ha
              refine (h.owned a hold).imp_left fun hmem => ?_
              have hmem' := (hnodes a).mp hmem
              simp only [nodes, List.mem_append, List.mem_cons] at hmem' ⊢
              tauto
            · refine ⟨hsnapshot, ?_, by rw [hcount]; rfl, ?_⟩
              · intro a ha
                rcases List.mem_cons.mp ha with rfl | hmem
                · exact hc
                · exact hseen a hmem
              · rw [htodo] at hall
                simp only [List.length_cons] at hall ⊢
                omega
            · rw [rank, rank, hpc, htodo]
              simp
          · rw [if_neg hc] at hs
            cases hs
            obtain ⟨todo', hdelete⟩ := h.inv.delete hpc hn hc
            have htodo' : todo' = after := hdelete.todoChain.unique (hafter.update fun hmem => absurd hmem hnotMem)
            rw [htodo'] at hdelete
            refine ⟨after, kept, ⟨hdelete, fun a ha => ?_, ?_⟩, ?_⟩
            · -- the node that is deleted is the one that goes from the lists
              have hac : a ≠ c := by
                rintro rfl
                change (Function.update q.heap a none a).isSome at ha
                rw [Function.update_self] at ha
                cases ha
              change (Function.update q.heap c none a).isSome at ha
              rw [Function.update_of_ne hac] at ha
              exact (h.owned a ha).imp_left fun hmem => ((hnodes a).mp hmem).resolve_left hac
            · refine ⟨hsnapshot, hseen, hcount, ?_⟩
              rw [htodo, List.length_cons] at hall
              omega
            · rw [rank, rank, hpc, htodo]
              simp

/-- **The move of `head_`** makes the old head a retired node. -/
theorem take_memory (h : q.Memory maxProducers rest todo kept) (hpos : 0 < maxProducers) {next : ℕ}
    (hpc : q.consumer = .take next) (hs : q.takeStep maxProducers next = some q') :
    ∃ rest', q'.Memory maxProducers rest' (q.head :: todo) kept ∧ q'.producers = q.producers ∧
      q'.weight maxProducers rest' (q.head :: todo) < q.weight maxProducers rest todo := by
  obtain ⟨rest', hinv⟩ := takeStep_inv h.inv hpc hs
  have hcounted := h.counted
  unfold Counted at hcounted
  rw [hpc] at hcounted
  obtain ⟨hcount, hlt⟩ := hcounted
  obtain ⟨n, hn, hs⟩ := Option.bind_eq_some_iff.mp hs
  obtain ⟨old, hold, hs⟩ := Option.bind_eq_some_iff.mp hs
  have hheap : q'.heap = Function.update q.heap q.head (some { old with retiredNext := q.retiredHead }) := by
    dsimp only at hs
    split_ifs at hs <;> (cases hs; rfl)
  have hhead : q'.head = next := by
    dsimp only at hs
    split_ifs at hs <;> (cases hs; rfl)
  have hproducers : q'.producers = q.producers := by
    dsimp only at hs
    split_ifs at hs <;> (cases hs; rfl)
  -- the live nodes are the old head and those that are live now
  have hrest : rest = next :: rest' := by
    obtain ⟨-, n₀, hn₀, hchain⟩ := h.inv.liveChain
    have hnext := h.inv.next next (by rw [hpc]; rfl)
    unfold Next at hnext
    rw [hn₀, Option.bind_some] at hnext
    rw [hnext] at hchain
    have hlive := hinv.liveChain
    rw [hheap, hhead] at hlive
    exact (hchain.update fun hmem => absurd hmem h.inv.head_notMem).unique hlive
  refine ⟨rest', ⟨hinv, fun a ha => ?_, ?_⟩, hproducers, ?_⟩
  · have hallocated : (q.heap a).isSome := by
      rw [hheap] at ha
      by_cases hah : a = q.head
      · rw [hah, hold]
        rfl
      · rwa [Function.update_of_ne hah] at ha
    rw [hproducers]
    refine (h.owned a hallocated).imp_left fun hmem => ?_
    rw [hrest] at hmem
    simp only [nodes, hhead, List.mem_append, List.mem_cons] at hmem ⊢
    tauto
  · dsimp only at hs
    split_ifs at hs with hthreshold
    · cases hs
      exact Nat.succ_le_of_lt hlt
    · cases hs
      refine ⟨?_, ?_⟩
      · show q.retiredCount + 1 = todo.length + 1
        rw [hcount]
      · show todo.length + 1 < 2 * maxProducers
        omega
  · have hrank : q'.rank maxProducers (q.head :: todo) < 3 * maxProducers + 7 := by
      dsimp only at hs
      split_ifs at hs with hthreshold
      · cases hs
        show maxProducers + (todo.length + 1) + 6 < 3 * maxProducers + 7
        omega
      · cases hs
        show 3 < 3 * maxProducers + 7
        omega
    have hlen : rest.length * (3 * maxProducers + 7) =
        rest'.length * (3 * maxProducers + 7) + (3 * maxProducers + 7) := by
      rw [hrest, List.length_cons, Nat.succ_mul]
    unfold weight
    omega

theorem consumer_memory (h : q.Memory maxProducers rest todo kept) (hpos : 0 < maxProducers)
    (hs : q.consumerStep maxProducers = some q') :
    ∃ rest' todo' kept', q'.Memory maxProducers rest' todo' kept' ∧ q'.producers = q.producers ∧
      q'.weight maxProducers rest' todo' < q.weight maxProducers rest todo := by
  have hinv := consumerStep_inv h.inv hs
  have hcounted := h.counted
  unfold Counted at hcounted
  unfold consumerStep at hs
  cases hpc : q.consumer with
  | idle =>
      rw [hpc] at hs
      cases hs
  | loadTail next =>
      rw [hpc] at hs hcounted
      cases hs
      refine ⟨rest, todo, kept, h.same hinv rfl rfl ?_ ?_ rfl ?_, rfl, ?_⟩
      · unfold cur
        rw [hpc]
        dsimp only
        split_ifs <;> rfl
      · unfold survivors
        rw [hpc]
        dsimp only
        split_ifs <;> rfl
      · unfold Counted
        dsimp only
        split_ifs <;> exact hcounted
      · unfold weight rank
        rw [hpc]
        refine Nat.add_lt_add_left ?_ _
        split_ifs
        · exact Nat.lt_succ_self 1
        · exact Nat.zero_lt_two
  | exchangeTail next =>
      rw [hpc] at hs hcounted
      cases hs
      refine ⟨rest, todo, kept, h.same hinv rfl rfl ?_ ?_ rfl hcounted, rfl, ?_⟩
      · rw [cur, cur, hpc]
        rfl
      · rw [survivors, survivors, hpc]
      · rw [weight, weight, rank, rank, hpc]
        dsimp only
        omega
  | take next =>
      rw [hpc] at hs
      obtain ⟨rest', hmemory, hproducers, hlt⟩ := take_memory h hpos hpc hs
      exact ⟨rest', _, kept, hmemory, hproducers, hlt⟩
  | reclaim value stage =>
      rw [hpc] at hs
      obtain ⟨todo', kept', hmemory, hlt⟩ := reclaim_memory h hpos hpc hs
      obtain ⟨-, -, hproducers, -⟩ := reclaimStep_cases hs
      exact ⟨rest, todo', kept', hmemory, hproducers, Nat.add_lt_add_left hlt _⟩

/-- **A call of `try_dequeue`** leaves the nodes as they are. -/
theorem tryDequeue_memory (h : q.Memory maxProducers rest todo kept) (hs : q.callTryDequeue = some q') :
    q'.Memory maxProducers rest todo kept ∧ q'.producers = q.producers ∧
      (q' = q ∧ rest = [] ∨
        (∃ next, q'.consumer = .loadTail next) ∧ q'.weight maxProducers rest todo < q.weight maxProducers rest todo) := by
  have hinv : ∃ rest' todo' kept', q'.Inv maxProducers rest' todo' kept' :=
    step_inv (e := .tryDequeue) ⟨rest, todo, kept, h.inv⟩ hs
  have hcounted := h.counted
  unfold Counted at hcounted
  unfold callTryDequeue at hs
  cases hpc : q.consumer with
  | idle =>
      rw [hpc] at hs hcounted
      obtain ⟨n, hn, hs⟩ := Option.bind_eq_some_iff.mp hs
      obtain ⟨-, n', hn', hchain⟩ := h.inv.liveChain
      rw [hn] at hn'
      cases hn'
      cases hnext : n.next with
      | none =>
          rw [hnext] at hs hchain
          cases hs
          refine ⟨h, rfl, .inl ⟨rfl, ?_⟩⟩
          cases rest with
          | nil => rfl
          | cons a as => cases hchain.1
      | some next =>
          rw [hnext] at hs
          cases hs
          refine ⟨h.same hinv rfl rfl ?_ ?_ rfl hcounted, rfl, .inr ⟨⟨next, rfl⟩, ?_⟩⟩
          · rw [cur, cur, hpc]
          · rw [survivors, survivors, hpc]
          · rw [weight, weight, rank, rank, hpc]
            dsimp only
            omega
  | loadTail _ | exchangeTail _ | take _ | reclaim _ _ =>
      rw [hpc] at hs
      cases hs

/-- **One step** of any thread keeps the accounts. -/
theorem step_memory (hpos : 0 < maxProducers) {e : Event α}
    (h : ∃ rest todo kept, q.Memory maxProducers rest todo kept) (hs : step maxProducers q e = some q') :
    ∃ rest todo kept, q'.Memory maxProducers rest todo kept := by
  obtain ⟨rest, todo, kept, h⟩ := h
  cases e with
  | enqueue p value address => exact ⟨rest, todo, kept, enqueue_memory h hs⟩
  | producer p =>
      obtain ⟨rest', hmemory⟩ := producer_memory h hs
      exact ⟨rest', todo, kept, hmemory⟩
  | tryDequeue => exact ⟨rest, todo, kept, (tryDequeue_memory h hs).1⟩
  | consumer =>
      obtain ⟨rest', todo', kept', hmemory, -⟩ := consumer_memory h hpos hs
      exact ⟨rest', todo', kept', hmemory⟩

/-! ## Runs -/

theorem new_memory [Inhabited α] (hpos : 0 < maxProducers) (sentinel : ℕ) :
    (new sentinel : MPSCQueue α).Memory maxProducers [] [] [] where
  inv := new_inv maxProducers sentinel
  owned := by
    intro a ha
    refine .inl ?_
    by_cases hsentinel : a = sentinel
    · rw [hsentinel]
      exact List.mem_singleton.mpr rfl
    · change (Function.update (fun _ => none) sentinel _ a : Option (Node α)).isSome at ha
      rw [Function.update_of_ne hsentinel] at ha
      cases ha
  counted := ⟨rfl, by show 0 < _; omega⟩

theorem run_memory [Inhabited α] (hpos : 0 < maxProducers) {sentinel : ℕ} {es : List (Event α)}
    (hr : Machine.run (step maxProducers) (new sentinel) es = some q) :
    ∃ rest todo kept, q.Memory maxProducers rest todo kept :=
  Machine.run_preserves (fun _ _ _ h hs => step_memory hpos h hs) ⟨[], [], [], new_memory hpos sentinel⟩ hr

theorem Memory.retired_le (h : q.Memory maxProducers rest todo kept) :
    (todo ++ kept).length ≤ 2 * maxProducers := by
  have hcounted := h.counted
  have hkept := h.inv.kept_nil
  unfold Counted at hcounted
  unfold survivors at hkept
  rw [List.length_append]
  split at hcounted
  · rw [hkept (by simp [*])]
    exact hcounted
  · rw [hkept (by simp [*])]
    exact hcounted.2.2.2
  · exact hcounted.2.2.2
  · rename_i hloadUsed hscan hsweep
    have hnil : kept = [] := by
      refine hkept ?_
      split
      · rename_i value snapshot cur keptFrom count hpc
        exact absurd hpc (hsweep value snapshot cur keptFrom count)
      · rfl
    rw [hnil]
    exact Nat.le_of_lt hcounted.2

/-- **The memory of a queue.** In every state that any interleaving reaches there are as many live nodes as there
    are values in the queue, and the sentinel; at most `2 * MaxProducers` nodes are retired, those that a sweep has
    still to look at and those that it has kept; and the nodes that are allocated are these, each once, and those
    that producers have still to link, each in the hands of one. -/
theorem memory_bounded [Inhabited α] (hpos : 0 < maxProducers) {sentinel : ℕ} {es : List (Event α)}
    (hr : Machine.run (step maxProducers) (new sentinel) es = some q) :
    ∃ live todo kept, Chain Node.next q.heap (some q.head) live ∧ Chain Node.retiredNext q.heap q.cur todo ∧
      Chain Node.retiredNext q.heap q.survivors kept ∧ (live ++ (todo ++ kept)).Nodup ∧
      live.length = q.contents.length + 1 ∧ (todo ++ kept).length ≤ 2 * maxProducers ∧
      (∀ a, (q.heap a).isSome ↔ a ∈ live ++ (todo ++ kept) ∨ ∃ p, (q.producers p).node? = some a) ∧
      ∀ p a, (q.producers p).node? = some a → a ∉ live ++ (todo ++ kept) ∧
        ∀ p', (q.producers p').node? = some a → p' = p := by
  obtain ⟨rest, todo, kept, h⟩ := run_memory hpos hr
  refine ⟨q.head :: rest, todo, kept, h.inv.liveChain, h.inv.todoChain, h.inv.keptChain, h.inv.nodup, ?_,
    h.retired_le, fun a => ⟨h.owned a, ?_⟩,
    fun p a hp => ⟨((h.inv.calls p).own a hp).1, fun p' hp' => h.inv.owners p' p a hp' hp⟩⟩
  · have hlen := congrArg List.length h.inv.contents_eq
    simp only [List.length_map] at hlen
    rw [List.length_cons, hlen]
  · rintro (hmem | ⟨p, hp⟩)
    · obtain ⟨n, hn⟩ := h.inv.allocated hmem
      rw [hn]
      rfl
    · obtain ⟨-, v, hv, -⟩ := (h.inv.calls p).own a hp
      rw [hv]
      rfl

/-- A producer is in its second call when its first value has been taken: the queue is empty, and the first
    sentinel is retired. -/
theorem memory_bounded_midway :
    let es : List (Event ℕ) := List.flatten [[.enqueue 0 10 1], List.replicate 8 (.producer 0),
      [.tryDequeue, .consumer, .consumer, .enqueue 0 20 2]]
    ∃ q, Machine.run (step 1) (new 0) es = some q ∧ q.returned = [10] ∧ q.contents = [] ∧ q.retiredHead = some 0 ∧
      ∃ live todo kept, Chain Node.next q.heap (some q.head) live ∧ Chain Node.retiredNext q.heap q.cur todo ∧
        Chain Node.retiredNext q.heap q.survivors kept ∧ (live ++ (todo ++ kept)).Nodup ∧
        live.length = q.contents.length + 1 ∧ (todo ++ kept).length ≤ 2 * 1 ∧
        (∀ a, (q.heap a).isSome ↔ a ∈ live ++ (todo ++ kept) ∨ ∃ p, (q.producers p).node? = some a) ∧
        ∀ p a, (q.producers p).node? = some a → a ∉ live ++ (todo ++ kept) ∧
          ∀ p', (q.producers p').node? = some a → p' = p := by
  intro es
  have hrun : (Machine.run (step 1) (new 0) es).isSome := by decide
  refine ⟨_, (Option.some_get hrun).symm, ?_, ?_, ?_, memory_bounded (by decide) (Option.some_get hrun).symm⟩
  · decide +revert
  · decide +revert
  · decide +revert

/-! ## The destructor -/

/-- `while (try_dequeue()) {}`, in at most `fuel` steps. -/
def drain (maxProducers : ℕ) : ℕ → MPSCQueue α → Option (MPSCQueue α)
  | 0, _ => none
  | fuel + 1, q => match q.consumer with
      | .idle => do
          let q' ← q.callTryDequeue
          match q'.consumer with
          | .idle => return q'
          | _ => drain maxProducers fuel q'
      | _ => do
          let q' ← q.consumerStep maxProducers
          drain maxProducers fuel q'

/-- `while (cur) { nx = cur->retired_next; delete cur; cur = nx; }`, in at most `fuel` rounds. -/
def deleteRetired : ℕ → (ℕ → Option (Node α)) → Option ℕ → Option (ℕ → Option (Node α))
  | _, heap, none => some heap
  | 0, _, some _ => none
  | fuel + 1, heap, some cur => do
      let n ← heap cur
      deleteRetired fuel (Function.update heap cur none) n.retiredNext

/-- `~MPSCQueue`, with what it leaves in memory. To delete a node that is not there is no step. -/
def destroy (maxProducers fuel : ℕ) (q : MPSCQueue α) : Option (ℕ → Option (Node α)) := do
  let q ← q.drain maxProducers fuel
  let heap ← deleteRetired fuel q.heap q.retiredHead
  let _ ← heap q.head
  return Function.update heap q.head none

theorem tryDequeue_goes_on (h : q.Inv maxProducers rest todo kept) (hidle : q.consumer = .idle) :
    ∃ q', q.callTryDequeue = some q' := by
  obtain ⟨n, hn⟩ := h.allocated (List.mem_append_left _ List.mem_cons_self)
  simp only [callTryDequeue, hidle, hn, Option.bind_eq_bind, Option.bind_some]
  cases n.next <;> exact ⟨_, rfl⟩

/-- In a call, the consumer always has a next step. -/
theorem consumer_goes_on (h : q.Inv maxProducers rest todo kept) (hcall : q.consumer ≠ .idle) :
    ∃ q', q.consumerStep maxProducers = some q' := by
  obtain ⟨old, hold⟩ := h.allocated (List.mem_append_left _ List.mem_cons_self)
  unfold consumerStep
  cases hpc : q.consumer with
  | idle => exact absurd hpc hcall
  | loadTail next | exchangeTail next => exact ⟨_, rfl⟩
  | take next =>
      have hnext := h.next_live List.mem_cons_self (h.next next (by rw [hpc]; rfl))
      obtain ⟨n, hn⟩ := h.allocated (List.mem_append_left _ (List.mem_cons_of_mem _ hnext))
      simp only [takeStep, hn, hold, Option.bind_eq_bind, Option.bind_some]
      split_ifs <;> exact ⟨_, rfl⟩
  | reclaim value stage =>
      cases stage with
      | loadUsed => exact ⟨_, rfl⟩
      | scan used i snapshot =>
          simp only [reclaimStep]
          split_ifs <;> exact ⟨_, rfl⟩
      | sweep snapshot cur keptFrom count =>
          cases cur with
          | none => exact ⟨_, rfl⟩
          | some c =>
              obtain ⟨hchain, -, -⟩ := h.sweeping hpc
              cases todo with
              | nil => cases hchain
              | cons c' after =>
                  obtain ⟨hc, n, hn, -⟩ := hchain
                  cases hc
                  simp only [reclaimStep, hn, Option.bind_eq_bind, Option.bind_some]
                  split_ifs <;> exact ⟨_, rfl⟩

/-- **The queue is emptied**, when no producer is left to fill it. -/
theorem drain_ends (hpos : 0 < maxProducers) (h : q.Memory maxProducers rest todo kept) :
    ∃ n q' todo', (∀ fuel, n ≤ fuel → q.drain maxProducers fuel = some q') ∧ q'.Memory maxProducers [] todo' [] ∧
      q'.producers = q.producers ∧ q'.consumer = .idle := by
  induction hw : q.weight maxProducers rest todo using Nat.strongRecOn generalizing q rest todo kept with
  | _ w ih =>
      by_cases hpc : q.consumer = .idle
      · obtain ⟨q', hq'⟩ := tryDequeue_goes_on h.inv hpc
        obtain ⟨hmemory, hproducers, ⟨rfl, rfl⟩ | ⟨⟨next, hnext⟩, hlt⟩⟩ := tryDequeue_memory h hq'
        · -- nothing is returned, so the loop ends
          have hkept := h.inv.kept_nil (by rw [survivors, hpc])
          rw [hkept] at hmemory
          refine ⟨1, q', todo, fun fuel hfuel => ?_, hmemory, rfl, hpc⟩
          obtain ⟨k, rfl⟩ := Nat.exists_eq_add_of_le' hfuel
          simp [drain, hpc, hq']
        · obtain ⟨n, q'', todo', hdrain, hmemory', hproducers', hidle⟩ := ih _ (hw ▸ hlt) hmemory rfl
          refine ⟨n + 1, q'', todo', fun fuel hfuel => ?_, hmemory', hproducers'.trans hproducers, hidle⟩
          obtain ⟨k, rfl⟩ := Nat.exists_eq_add_of_le' hfuel
          rw [← Nat.add_assoc]
          simp [drain, hpc, hq', hnext, hdrain (k + n) (Nat.le_add_left n k)]
      · obtain ⟨q', hq'⟩ := consumer_goes_on h.inv hpc
        obtain ⟨rest', todo₁, kept', hmemory, hproducers, hlt⟩ := consumer_memory h hpos hq'
        obtain ⟨n, q'', todo', hdrain, hmemory', hproducers', hidle⟩ := ih _ (hw ▸ hlt) hmemory rfl
        refine ⟨n + 1, q'', todo', fun fuel hfuel => ?_, hmemory', hproducers'.trans hproducers, hidle⟩
        obtain ⟨k, rfl⟩ := Nat.exists_eq_add_of_le' hfuel
        rw [← Nat.add_assoc]
        unfold drain
        split
        · exact absurd ‹_› hpc
        · rw [hq']
          exact hdrain (k + n) (Nat.le_add_left n k)

/-- **Deleting a list** deletes its nodes and no others. -/
theorem deleteRetired_frees {heap : ℕ → Option (Node α)} {p : Option ℕ} {as : List ℕ}
    (hchain : Chain Node.retiredNext heap p as) (hnodup : as.Nodup) {fuel : ℕ} (hfuel : as.length ≤ fuel) :
    deleteRetired fuel heap p = some fun a => if a ∈ as then none else heap a := by
  induction as generalizing heap p fuel with
  | nil =>
      have hnone : p = none := hchain
      rw [hnone]
      simp [deleteRetired]
  | cons c as ih =>
      obtain ⟨rfl, n, hn, hrest⟩ := hchain
      obtain ⟨hnotMem, hnodup'⟩ := List.nodup_cons.mp hnodup
      obtain ⟨k, rfl⟩ := Nat.exists_eq_add_of_le' hfuel
      rw [List.length_cons, ← Nat.add_assoc]
      simp only [deleteRetired, hn, Option.bind_eq_bind, Option.bind_some]
      rw [ih (hrest.update fun hmem => absurd hmem hnotMem) hnodup' (Nat.le_add_left _ k)]
      congr 1
      funext a
      by_cases hac : a = c
      · simp [hac]
      · simp [hac]

/-- **The destructor frees every node once.** Whatever the queue has been used for, and whatever is left in it,
    when no thread is in a call any more the destructor comes to its end and nothing is left of the queue. -/
theorem destroy_frees [Inhabited α] (hpos : 0 < maxProducers) {sentinel : ℕ} {es : List (Event α)}
    (hr : Machine.run (step maxProducers) (new sentinel) es = some q) (hidle : ∀ p, q.producers p = .idle) :
    ∃ n, ∀ fuel, n ≤ fuel → q.destroy maxProducers fuel = some fun _ => none := by
  obtain ⟨rest, todo, kept, h⟩ := run_memory hpos hr
  obtain ⟨n, q', todo', hdrain, h', hproducers, hpc⟩ := drain_ends hpos h
  refine ⟨n + todo'.length, fun fuel hfuel => ?_⟩
  have hchain := h'.inv.todoChain
  rw [cur, hpc] at hchain
  -- the head and the retired nodes are what is left
  have hnodup : (q'.head :: todo').Nodup := by
    have hnodup := h'.inv.nodup
    simpa [nodes] using hnodup
  obtain ⟨hhead, htodo⟩ := List.nodup_cons.mp hnodup
  obtain ⟨n₀, hn₀⟩ := h'.inv.allocated (List.mem_append_left _ List.mem_cons_self)
  have hfrees : deleteRetired fuel q'.heap _ = _ := deleteRetired_frees hchain htodo (by omega)
  have hleft : ∀ a, a ≠ q'.head → a ∉ todo' → q'.heap a = none := by
    intro a hne hnotMem
    by_contra hsome
    rcases h'.owned a (Option.isSome_iff_ne_none.mpr hsome) with hmem | ⟨p, hp⟩
    · simp [nodes, hne, hnotMem] at hmem
    · rw [hproducers, hidle p] at hp
      cases hp
  unfold destroy
  rw [hdrain fuel (by omega)]
  simp only [Option.bind_eq_bind, Option.bind_some]
  rw [hfrees]
  simp only [Option.bind_some, if_neg hhead, hn₀]
  congr 1
  funext a
  by_cases hne : a = q'.head
  · rw [hne, Function.update_self]
  · rw [Function.update_of_ne hne]
    split_ifs with hmem
    · rfl
    · exact hleft a hne hmem

/-- Two values are in the queue, and a third one has been taken. -/
theorem destroy_frees_three :
    let es : List (Event ℕ) := List.flatten [[.enqueue 0 10 1], List.replicate 8 (.producer 0), [.enqueue 0 20 2],
      List.replicate 8 (.producer 0), [.enqueue 0 30 3], List.replicate 8 (.producer 0),
      [.tryDequeue, .consumer, .consumer]]
    ∃ q, Machine.run (step 1) (new 0) es = some q ∧
      ∃ n, ∀ fuel, n ≤ fuel → q.destroy 1 fuel = some fun _ => none := by
  intro es
  have hrun : (Machine.run (step 1) (new 0) es).isSome := by decide
  have hidle : ∀ p, ((Machine.run (step 1) (new 0) es).get hrun).producers p = .idle := by
    intro p
    cases p with
    | zero => decide +revert
    | succ p => rfl
  exact ⟨_, (Option.some_get hrun).symm, destroy_frees (by decide) (Option.some_get hrun).symm hidle⟩

end

end MPSCQueue

end CollabEditor
