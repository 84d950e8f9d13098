import CollabEditor.Core.MPSCQueue

/-!
# `Core.MPSCInvariant` — what holds of the queue between any two steps

At every moment the nodes that the queue has are those of three lists: the live ones from `head_` on, the
retired ones that the consumer has still to look at, and those that a sweep has kept. The invariant says that
the lists are what the fields of the nodes say, that `tail_` is at a live node, and what every thread may rely
on. Two facts carry it. The link of a node is written once, so what a producer has read of a node that it holds
stays true. And a node that a producer holds is published in its hazard slot from before it is retired, so the
scan that precedes a sweep has seen it.

## Contents
- **Threads.** `published`, `holds`, `expects`, `node?`: what the program counter of a producer says.
- **The invariant.** `CallOk` for a producer, `Guarded` for the consumer, `Inv`.
- **Producers.** `Inv.advance`, `Inv.call`, `Inv.link`.
- **The consumer.** `Inv.take`, `Inv.keep`, `Inv.delete`.
-/

namespace CollabEditor

variable {α : Type}

/-! ## Threads -/

namespace ProducerPc

/-- The address in the producer's hazard slot. -/
def published : ProducerPc → Option ℕ
  | .linking _ (.validate t) | .linking _ (.loadNext t) | .linking _ (.helpTail t _)
  | .linking _ (.exchangeNext t) | .swingTail _ t => some t
  | _ => none

/-- The node that the producer has found at `tail_` after it was published. -/
def holds : ProducerPc → Option ℕ
  | .linking _ (.loadNext t) | .linking _ (.helpTail t _) | .linking _ (.exchangeNext t) | .swingTail _ t => some t
  | _ => none

/-- A node that the producer holds, and the successor it has read or given it. -/
def expects : ProducerPc → Option (ℕ × ℕ)
  | .linking _ (.helpTail t tNext) => some (t, tNext)
  | .swingTail node t => some (t, node)
  | _ => none

/-- The node that the producer has not linked yet. -/
def node? : ProducerPc → Option ℕ
  | .linking node _ => some node
  | _ => none

theorem published_of_holds {pc : ProducerPc} {t : ℕ} (h : pc.holds = some t) : pc.published = some t := by
  unfold holds at h
  split at h <;> first | exact h | cases h

theorem holds_of_expects {pc : ProducerPc} {t n : ℕ} (h : pc.expects = some (t, n)) : pc.holds = some t := by
  unfold expects at h
  split at h <;> first | (cases h; rfl) | cases h

end ProducerPc

/-- The successor of `head_` that a call of `try_dequeue` has read. -/
def ConsumerPc.next? : ConsumerPc α → Option ℕ
  | .loadTail next | .exchangeTail next | .take next => some next
  | _ => none

/-- The value that a call of `try_dequeue` has taken but not returned. -/
def ConsumerPc.inHand : ConsumerPc α → List α
  | .reclaim value _ => [value]
  | _ => []

namespace MPSCQueue

/-- Where the retired nodes start that no sweep has looked at. -/
def cur (q : MPSCQueue α) : Option ℕ := match q.consumer with
  | .reclaim _ (.sweep _ cur _ _) => cur
  | _ => q.retiredHead

/-- Where those start that the sweep has kept. -/
def survivors (q : MPSCQueue α) : Option ℕ := match q.consumer with
  | .reclaim _ (.sweep _ _ survivors _) => survivors
  | _ => none

/-- The values that `p` has linked. -/
def linkedBy (q : MPSCQueue α) (p : ℕ) : List α := (q.linked.filter (·.1 = p)).map Prod.snd

/-! ## The invariant -/

/-- What the producer `p` may rely on at `pc`, where `nodes` are the nodes of the queue. -/
structure CallOk (q : MPSCQueue α) (nodes : List ℕ) (p : ℕ) (pc : ProducerPc) : Prop where
  published : ∀ t, pc.published = some t → ∃ i, q.slots p = some i ∧ q.hazards i = some t
  holds     : ∀ t, pc.holds = some t → t ∈ nodes
  expects   : ∀ t n, pc.expects = some (t, n) → Next q.heap t n
  own       : ∀ node, pc.node? = some node →
    node ∉ nodes ∧ ∃ v, q.heap node = some { data := v } ∧ q.enqueued p = q.linkedBy p ++ [v]
  linked    : pc.node? = none → q.enqueued p = q.linkedBy p

/-- What the scan has still to see, or has seen: a retired node that a producer holds. -/
def Guarded (q : MPSCQueue α) (todo : List ℕ) : Prop :=
  match q.consumer with
  | .reclaim _ (.scan used i snapshot) => ∀ p t, (q.producers p).holds = some t → t ∈ todo →
      ∃ j, q.slots p = some j ∧ j < used ∧ (i ≤ j ∨ t ∈ snapshot)
  | .reclaim _ (.sweep snapshot _ _ _) => ∀ p t, (q.producers p).holds = some t → t ∈ todo → t ∈ snapshot
  | _ => True

/-- The nodes of the queue. -/
def nodes (q : MPSCQueue α) (rest todo kept : List ℕ) : List ℕ := (q.head :: rest) ++ (todo ++ kept)

/-- The invariant, with the live nodes after `head_` and the retired ones. -/
structure Inv (maxProducers : ℕ) (q : MPSCQueue α) (rest todo kept : List ℕ) : Prop where
  liveChain : Chain Node.next q.heap (some q.head) (q.head :: rest)
  todoChain : Chain Node.retiredNext q.heap q.cur todo
  keptChain : Chain Node.retiredNext q.heap q.survivors kept
  nodup     : (q.nodes rest todo kept).Nodup
  tail      : q.tail ∈ q.head :: rest
  retired   : ∀ r ∈ todo ++ kept, ∃ b, Next q.heap r b
  slotsUsed : q.slotsUsed ≤ maxProducers
  slots     : ∀ p i, q.slots p = some i → i < q.slotsUsed
  exclusive : ∀ p p' i, q.slots p = some i → q.slots p' = some i → p = p'
  calls     : ∀ p, q.CallOk (q.nodes rest todo kept) p (q.producers p)
  owners    : ∀ p p' node, (q.producers p).node? = some node → (q.producers p').node? = some node → p = p'
  next      : ∀ next, q.consumer.next? = some next → Next q.heap q.head next
  moved     : ∀ next, q.consumer = .take next → q.tail ≠ q.head
  guarded   : q.Guarded todo
  values    : ∃ vals, rest.map (fun a => (q.heap a).map Node.data) = vals.map some ∧
    q.linked.map Prod.snd = q.returned ++ q.consumer.inHand ++ vals

section

variable {maxProducers : ℕ} {q : MPSCQueue α} {rest todo kept : List ℕ}

@[simp] theorem goto_self (q : MPSCQueue α) (p : ℕ) (pc : ProducerPc) : (q.goto p pc).producers p = pc :=
  Function.update_self ..

theorem goto_of_ne {p r : ℕ} {pc : ProducerPc} (hr : r ≠ p) : (q.goto p pc).producers r = q.producers r :=
  Function.update_of_ne hr ..

theorem Next.update {heap : ℕ → Option (Node α)} {x a b : ℕ} {v : Option (Node α)} (h : Next heap a b)
    (hx : a = x → v.bind Node.next = some b) : Next (Function.update heap x v) a b := by
  unfold Next
  by_cases hax : a = x
  · rw [hax, Function.update_self]
    exact hx hax
  · rw [Function.update_of_ne hax]
    exact h

theorem Next.allocated {heap : ℕ → Option (Node α)} {a b : ℕ} (h : Next heap a b) : ∃ n, heap a = some n :=
  let ⟨n, hn, _⟩ := Option.bind_eq_some_iff.mp h
  ⟨n, hn⟩

/-- A write that leaves the value of a node, or is to another node. -/
theorem map_data_update {heap : ℕ → Option (Node α)} {as : List ℕ} {x : ℕ} {v : Option (Node α)}
    (hx : x ∈ as → v.map Node.data = (heap x).map Node.data) :
    as.map (fun a => (Function.update heap x v a).map Node.data) = as.map fun a => (heap a).map Node.data := by
  refine List.map_congr_left fun a ha => ?_
  by_cases hax : a = x
  · rw [hax, Function.update_self]
    exact hx (hax ▸ ha)
  · rw [Function.update_of_ne hax]

theorem linkedBy_append_self (q : MPSCQueue α) (p : ℕ) (v : α) :
    { q with linked := q.linked ++ [(p, v)] }.linkedBy p = q.linkedBy p ++ [v] := by
  simp [linkedBy, List.filter_append]

theorem linkedBy_append_of_ne {p r : ℕ} (hr : r ≠ p) (v : α) :
    { q with linked := q.linked ++ [(p, v)] }.linkedBy r = q.linkedBy r := by
  simp [linkedBy, List.filter_append, hr.symm]

/-- A producer relies on its slot, on the nodes of the queue and on the links of the one it holds. -/
theorem CallOk.frame {q' : MPSCQueue α} {nodes nodes' : List ℕ} {p : ℕ} {pc : ProducerPc}
    (h : q.CallOk nodes p pc) (hslots : q'.slots = q.slots) (hhazards : q'.hazards = q.hazards)
    (henqueued : q'.enqueued = q.enqueued) (hlinked : q'.linked = q.linked)
    (hholds : ∀ t, pc.holds = some t → t ∈ nodes → t ∈ nodes')
    (hnext : ∀ t n, pc.holds = some t → Next q.heap t n → Next q'.heap t n)
    (hown : ∀ node, node ∉ nodes → node ∉ nodes' ∧ q'.heap node = q.heap node) : q'.CallOk nodes' p pc := by
  have hby : q'.linkedBy p = q.linkedBy p := by
    unfold linkedBy
    rw [hlinked]
  refine ⟨fun t ht => ?_, fun t ht => hholds t ht (h.holds t ht), fun t n hexp => ?_, fun node hn => ?_, fun hn => ?_⟩
  · rw [hslots, hhazards]
    exact h.published t ht
  · exact hnext t n (ProducerPc.holds_of_expects hexp) (h.expects t n hexp)
  · obtain ⟨hnotMem, v, hv, hvalues⟩ := h.own node hn
    obtain ⟨hnotMem', hsame⟩ := hown node hnotMem
    exact ⟨hnotMem', v, hsame.trans hv, by rw [henqueued, hby]; exact hvalues⟩
  · rw [henqueued, hby]
    exact h.linked hn

theorem Guarded.mono {q' : MPSCQueue α} {todo' : List ℕ} (h : q.Guarded todo) (hc : q'.consumer = q.consumer)
    (hp : ∀ p t, (q'.producers p).holds = some t → t ∈ todo' →
      (q.producers p).holds = some t ∧ t ∈ todo ∧ ∀ j, q.slots p = some j → q'.slots p = some j) :
    q'.Guarded todo' := by
  unfold Guarded at h ⊢
  rw [hc]
  split at h
  · intro p t ht hmem
    obtain ⟨hold, hmem', hslot⟩ := hp p t ht hmem
    obtain ⟨j, hj, hseen⟩ := h p t hold hmem'
    exact ⟨j, hslot j hj, hseen⟩
  · intro p t ht hmem
    obtain ⟨hold, hmem', -⟩ := hp p t ht hmem
    exact h p t hold hmem'
  · trivial

namespace Inv

/-- Every node of the queue is allocated. -/
theorem allocated (h : q.Inv maxProducers rest todo kept) {a : ℕ} (ha : a ∈ q.nodes rest todo kept) :
    ∃ n, q.heap a = some n := by
  rcases List.mem_append.mp ha with hlive | hretired
  · exact h.liveChain.allocated hlive
  · obtain ⟨b, hb⟩ := h.retired a hretired
    exact hb.allocated

theorem notMem_of_free (h : q.Inv maxProducers rest todo kept) {a : ℕ} (ha : q.heap a = none) :
    a ∉ q.nodes rest todo kept := by
  intro hmem
  obtain ⟨n, hn⟩ := h.allocated hmem
  rw [ha] at hn
  cases hn

/-- The successor of a live node is a live one after `head_`. -/
theorem next_live (h : q.Inv maxProducers rest todo kept) {a b : ℕ} (ha : a ∈ q.head :: rest)
    (hb : Next q.heap a b) : b ∈ rest := h.liveChain.next_mem ha hb

theorem head_notMem (h : q.Inv maxProducers rest todo kept) : q.head ∉ rest :=
  (List.nodup_cons.mp (List.nodup_append.mp h.nodup).1).1

theorem live_notMem_retired (h : q.Inv maxProducers rest todo kept) {a : ℕ} (ha : a ∈ q.head :: rest) :
    a ∉ todo ++ kept := fun hr => (List.nodup_append.mp h.nodup).2.2 a ha a hr rfl

/-! ## Producers -/

/-- A producer goes on where the others rely on nothing new. -/
theorem advance (h : q.Inv maxProducers rest todo kept) {p tail : ℕ} {pc : ProducerPc} {hazards : ℕ → Option ℕ}
    (htail : tail ∈ q.head :: rest) (hmoved : q.tail ≠ q.head → tail ≠ q.head)
    (hother : ∀ r i, r ≠ p → q.slots r = some i → hazards i = q.hazards i)
    (hnode : pc.node? = (q.producers p).node?)
    (hpublished : ∀ t, pc.published = some t → ∃ i, q.slots p = some i ∧ hazards i = some t)
    (hholds : ∀ t, pc.holds = some t → (q.producers p).holds = some t ∨ t ∈ q.head :: rest)
    (hexpects : ∀ t n, pc.expects = some (t, n) → Next q.heap t n) :
    ({ q with tail := tail, hazards := hazards }.goto p pc).Inv maxProducers rest todo kept := by
  have hnodes : ∀ r, (Function.update q.producers p pc r).node? = (q.producers r).node? := by
    rw [Function.forall_update_iff q.producers fun r pc' => pc'.node? = (q.producers r).node?]
    exact ⟨hnode, fun r _ => rfl⟩
  exact {
    liveChain := h.liveChain
    todoChain := h.todoChain
    keptChain := h.keptChain
    nodup := h.nodup
    tail := htail
    retired := h.retired
    slotsUsed := h.slotsUsed
    slots := h.slots
    exclusive := h.exclusive
    calls := by
      refine (Function.forall_update_iff q.producers _).mpr ⟨?_, fun r hr => ?_⟩
      · have hcall := h.calls p
        refine ⟨hpublished, fun t ht => ?_, hexpects, fun node hn => hcall.own node (hnode ▸ hn),
          fun hn => hcall.linked (hnode ▸ hn)⟩
        rcases hholds t ht with hold | hlive
        · exact hcall.holds t hold
        · exact List.mem_append_left _ hlive
      · have hcall := h.calls r
        refine { hcall with published := fun t ht => ?_ }
        obtain ⟨i, hi, hhazard⟩ := hcall.published t ht
        exact ⟨i, hi, (hother r i hr hi).trans hhazard⟩
    owners := by
      intro r r' node hr hr'
      exact h.owners r r' node ((hnodes r).symm.trans hr) ((hnodes r').symm.trans hr')
    next := h.next
    moved := fun next hc => hmoved (h.moved next hc)
    guarded := by
      refine h.guarded.mono rfl fun r t ht hmem => ⟨?_, hmem, fun j hj => hj⟩
      by_cases hr : r = p
      · -- what the producer holds now and did not hold before is live
        rw [hr, goto_self] at ht
        rw [hr]
        refine (hholds t ht).resolve_right fun hlive => ?_
        exact h.live_notMem_retired hlive (List.mem_append_left _ hmem)
      · rwa [goto_of_ne hr] at ht
    values := h.values }

/-- A producer without a slot takes the next one. -/
theorem acquire (h : q.Inv maxProducers rest todo kept) {p : ℕ} (hp : q.slots p = none)
    (hused : q.slotsUsed < maxProducers) :
    { q with
      slotsUsed := q.slotsUsed + 1
      slots := Function.update q.slots p (some q.slotsUsed) }.Inv maxProducers rest todo kept := by
  have hslot : ∀ r i, Function.update q.slots p (some q.slotsUsed) r = some i →
      (r = p ∧ i = q.slotsUsed) ∨ (q.slots r = some i ∧ i < q.slotsUsed) := by
    intro r i hi
    by_cases hr : r = p
    · rw [hr, Function.update_self] at hi
      exact .inl ⟨hr, (Option.some.inj hi).symm⟩
    · rw [Function.update_of_ne hr] at hi
      exact .inr ⟨hi, h.slots r i hi⟩
  have hkept : ∀ r i, q.slots r = some i → Function.update q.slots p (some q.slotsUsed) r = some i := by
    intro r i hi
    rw [Function.update_of_ne]
    · exact hi
    · rintro rfl
      rw [hp] at hi
      cases hi
  exact {
    liveChain := h.liveChain
    todoChain := h.todoChain
    keptChain := h.keptChain
    nodup := h.nodup
    tail := h.tail
    retired := h.retired
    slotsUsed := hused
    slots := by
      intro r i hi
      rcases hslot r i hi with ⟨-, rfl⟩ | ⟨-, hlt⟩
      · exact Nat.lt_succ_self _
      · exact Nat.lt_succ_of_lt hlt
    exclusive := by
      intro r r' i hi hi'
      rcases hslot r i hi with ⟨rfl, rfl⟩ | ⟨hr, hlt⟩
      · rcases hslot r' _ hi' with ⟨rfl, -⟩ | ⟨-, hlt⟩
        · rfl
        · exact absurd hlt (Nat.lt_irrefl _)
      · rcases hslot r' i hi' with ⟨rfl, rfl⟩ | ⟨hr', -⟩
        · exact absurd hlt (Nat.lt_irrefl _)
        · exact h.exclusive r r' i hr hr'
    calls := by
      intro r
      refine { h.calls r with published := fun t ht => ?_ }
      obtain ⟨i, hi, hhazard⟩ := (h.calls r).published t ht
      exact ⟨i, hkept r i hi, hhazard⟩
    owners := h.owners
    next := h.next
    moved := h.moved
    guarded := h.guarded.mono rfl fun r t ht hmem => ⟨ht, hmem, hkept r⟩
    values := h.values }

/-- **A call of `enqueue`** gets a node that nobody knows. -/
theorem call (h : q.Inv maxProducers rest todo kept) {p address : ℕ} {value : α} (hidle : q.producers p = .idle)
    (hfree : q.heap address = none) :
    ({ q with
      heap := Function.update q.heap address (some { data := value })
      enqueued := Function.update q.enqueued p (q.enqueued p ++ [value]) }.goto p
        (.linking address .acquireSlot)).Inv maxProducers rest todo kept := by
  have hnew := h.notMem_of_free hfree
  have hnext : ∀ {a b}, Next q.heap a b → Next (Function.update q.heap address (some { data := value })) a b := by
    intro a b hab
    refine hab.update fun ha => ?_
    obtain ⟨n, hn⟩ := hab.allocated
    rw [ha, hfree] at hn
    cases hn
  have hsame : ∀ {a}, a ∈ q.nodes rest todo kept →
      Function.update q.heap address (some { data := value }) a = q.heap a := by
    intro a ha
    refine Function.update_of_ne ?_ _ _
    rintro rfl
    exact hnew ha
  -- what a producer has in its hands is allocated, so it is another node
  have howned : ∀ r node, (q.producers r).node? = some node → node ≠ address := by
    rintro r node hr rfl
    obtain ⟨-, v, hv, -⟩ := (h.calls r).own node hr
    rw [hfree] at hv
    cases hv
  exact {
    liveChain := h.liveChain.update fun ha => absurd (List.mem_append_left _ ha) hnew
    todoChain := h.todoChain.update fun ha => absurd (List.mem_append_right _ (List.mem_append_left _ ha)) hnew
    keptChain := h.keptChain.update fun ha => absurd (List.mem_append_right _ (List.mem_append_right _ ha)) hnew
    nodup := h.nodup
    tail := h.tail
    retired := fun r hr => let ⟨b, hb⟩ := h.retired r hr; ⟨b, hnext hb⟩
    slotsUsed := h.slotsUsed
    slots := h.slots
    exclusive := h.exclusive
    calls := by
      refine (Function.forall_update_iff q.producers _).mpr ⟨?_, fun r hr => ?_⟩
      · -- the new node belongs to `p`, and the queue does not reach it
        refine ⟨fun t ht => absurd ht nofun, fun t ht => absurd ht nofun, fun t n ht => absurd ht nofun, ?_,
          fun hn => absurd hn nofun⟩
        rintro node hn
        cases hn
        have hlinked := (h.calls p).linked (by rw [hidle]; rfl)
        refine ⟨hnew, value, Function.update_self .., ?_⟩
        show Function.update q.enqueued p (q.enqueued p ++ [value]) p = q.linkedBy p ++ [value]
        rw [Function.update_self, hlinked]
      · have hcall := h.calls r
        have henq : Function.update q.enqueued p (q.enqueued p ++ [value]) r = q.enqueued r :=
          Function.update_of_ne hr _ _
        refine ⟨hcall.published, hcall.holds, fun t n ht => hnext (hcall.expects t n ht), fun node hn => ?_,
          fun hn => henq.trans (hcall.linked hn)⟩
        obtain ⟨hnotMem, v, hv, hvalues⟩ := hcall.own node hn
        exact ⟨hnotMem, v, (Function.update_of_ne (howned r node hn) _ _).trans hv, henq.trans hvalues⟩
    owners := by
      intro r r' node hr hr'
      by_cases hrp : r = p
      · by_cases hrp' : r' = p
        · rw [hrp, hrp']
        · rw [hrp, goto_self] at hr
          rw [goto_of_ne hrp'] at hr'
          cases hr
          exact absurd rfl (howned r' _ hr')
      · rw [goto_of_ne hrp] at hr
        by_cases hrp' : r' = p
        · rw [hrp', goto_self] at hr'
          cases hr'
          exact absurd rfl (howned r _ hr)
        · rw [goto_of_ne hrp'] at hr'
          exact h.owners r r' node hr hr'
    next := fun next hn => hnext (h.next next hn)
    moved := h.moved
    guarded := by
      refine h.guarded.mono rfl fun r t ht hmem => ⟨?_, hmem, fun j hj => hj⟩
      by_cases hr : r = p
      · rw [hr, goto_self] at ht
        cases ht
      · rwa [goto_of_ne hr] at ht
    values := by
      obtain ⟨vals, hdata, hvalues⟩ := h.values
      refine ⟨vals, (map_data_update fun ha => ?_).trans hdata, hvalues⟩
      exact absurd (List.mem_append_left _ (List.mem_cons_of_mem _ ha)) hnew }

/-- **A node is linked** behind the last one. The producer holds the last node, so it is not one that was
    retired and whose address is in use again. -/
theorem link (h : q.Inv maxProducers rest todo kept) {p node t : ℕ} {n own : Node α}
    (hpc : q.producers p = .linking node (.exchangeNext t)) (hn : q.heap t = some n) (hnull : n.next = none)
    (hown : q.heap node = some own) :
    ({ q with
      heap := Function.update q.heap t (some { n with next := some node })
      linked := q.linked ++ [(p, own.data)] }.goto p (.swingTail node t)).Inv maxProducers (rest ++ [node]) todo
        kept := by
  have hcallp := h.calls p
  rw [hpc] at hcallp
  obtain ⟨hnew, v, hv, hvalues⟩ := hcallp.own node rfl
  have ht : t ∈ q.nodes rest todo kept := hcallp.holds t rfl
  rw [hown] at hv
  cases hv
  have hne : t ≠ node := by
    rintro rfl
    exact hnew ht
  have hlast : ∀ {b}, ¬ Next q.heap t b := by
    intro b hb
    unfold Next at hb
    rw [hn, Option.bind_some, hnull] at hb
    cases hb
  -- a retired node has a successor, and this one has none
  have hlive : t ∈ q.head :: rest := by
    refine (List.mem_append.mp ht).resolve_right fun hr => ?_
    obtain ⟨b, hb⟩ := h.retired t hr
    exact hlast hb
  have hnext : ∀ {a b}, Next q.heap a b → Next (Function.update q.heap t (some { n with next := some node })) a b := by
    intro a b hab
    exact hab.update fun ha => absurd (ha ▸ hab) hlast
  -- the node joins the live ones
  have hperm : (q.nodes (rest ++ [node]) todo kept).Perm (node :: q.nodes rest todo kept) := by
    unfold nodes
    rw [← List.cons_append, List.append_assoc, List.singleton_append]
    exact List.perm_middle
  -- without a successor it is the end of the chain
  obtain ⟨front, hfront⟩ := h.liveChain.last hlive hn hnull
  have hnodup : (front ++ [t]).Nodup := hfront ▸ (List.nodup_append.mp h.nodup).1
  exact {
    liveChain := by
      have hchain := h.liveChain
      show Chain _ _ (some q.head) (q.head :: (rest ++ [node]))
      rw [← List.cons_append]
      rw [hfront] at hchain ⊢
      exact hchain.snoc (fun hf => (List.nodup_append.mp hnodup).2.2 t hf t (List.mem_singleton.mpr rfl) rfl) hne rfl
        hown rfl
    todoChain := h.todoChain.update fun _ => by rw [hn]; rfl
    keptChain := h.keptChain.update fun _ => by rw [hn]; rfl
    nodup := hperm.nodup_iff.mpr (List.nodup_cons.mpr ⟨hnew, h.nodup⟩)
    tail := List.mem_append_left [node] h.tail
    retired := fun r hr => let ⟨b, hb⟩ := h.retired r hr; ⟨b, hnext hb⟩
    slotsUsed := h.slotsUsed
    slots := h.slots
    exclusive := h.exclusive
    calls := by
      refine (Function.forall_update_iff q.producers _).mpr ⟨?_, fun r hr => ?_⟩
      · refine ⟨hcallp.published, fun t' ht' => ?_, ?_, fun node' hn' => absurd hn' nofun, fun _ => ?_⟩
        · exact hperm.mem_iff.mpr (List.mem_cons_of_mem _ (hcallp.holds t' ht'))
        · intro t' n' hexp
          cases hexp
          show Option.bind (Function.update q.heap t _ t) Node.next = some node
          rw [Function.update_self]
          rfl
        · exact hvalues.trans (linkedBy_append_self ..).symm
      · have hcall := h.calls r
        have hby := linkedBy_append_of_ne (q := q) hr v
        refine ⟨hcall.published, fun t' ht' => hperm.mem_iff.mpr (List.mem_cons_of_mem _ (hcall.holds t' ht')),
          fun t' n' hexp => hnext (hcall.expects t' n' hexp), fun node' hn' => ?_,
          fun hn' => (hcall.linked hn').trans hby.symm⟩
        obtain ⟨hnotMem, v', hv', hvalues'⟩ := hcall.own node' hn'
        refine ⟨fun hmem => ?_, v', ?_, hvalues'.trans (by rw [← hby]; rfl)⟩
        · rcases List.mem_cons.mp (hperm.mem_iff.mp hmem) with rfl | hold
          · exact hr (h.owners r p node' hn' (by rw [hpc]; rfl))
          · exact hnotMem hold
        · refine (Function.update_of_ne ?_ _ _).trans hv'
          rintro rfl
          exact hnotMem ht
    owners := by
      intro r r' node' hr hr'
      by_cases hrp : r = p
      · rw [hrp, goto_self] at hr
        cases hr
      · by_cases hrp' : r' = p
        · rw [hrp', goto_self] at hr'
          cases hr'
        · rw [goto_of_ne hrp] at hr
          rw [goto_of_ne hrp'] at hr'
          exact h.owners r r' node' hr hr'
    next := fun next hc => hnext (h.next next hc)
    moved := h.moved
    guarded := by
      refine h.guarded.mono rfl fun r t' ht' hmem => ⟨?_, hmem, fun j hj => hj⟩
      by_cases hr : r = p
      · rw [hr, goto_self] at ht'
        rw [hr, hpc]
        exact ht'
      · rwa [goto_of_ne hr] at ht'
    values := by
      obtain ⟨vals, hdata, hall⟩ := h.values
      refine ⟨vals ++ [v], ?_, ?_⟩
      · show List.map (fun a => (Function.update q.heap t _ a).map Node.data) (rest ++ [node]) = _
        rw [map_data_update (fun _ => by rw [hn]; rfl), List.map_append, hdata, List.map_append, List.map_singleton,
          hown]
        rfl
      · show (q.linked ++ [(p, v)]).map Prod.snd = _
        rw [List.map_append, hall, List.append_assoc]
        rfl }

/-! ## The consumer -/

/-- The consumer goes on, and at most moves `tail_`. -/
theorem consume (h : q.Inv maxProducers rest todo kept) {tail : ℕ} {c : ConsumerPc α}
    (htail : tail ∈ q.head :: rest) (hmoved : ∀ next, c = .take next → tail ≠ q.head)
    (hnext : ∀ next, c.next? = some next → Next q.heap q.head next)
    (hcur : { q with consumer := c }.cur = q.cur) (hsurvivors : { q with consumer := c }.survivors = q.survivors)
    (hhand : c.inHand = q.consumer.inHand) (hguarded : { q with consumer := c }.Guarded todo) :
    { q with tail := tail, consumer := c }.Inv maxProducers rest todo kept where
  liveChain := h.liveChain
  todoChain := hcur ▸ h.todoChain
  keptChain := hsurvivors ▸ h.keptChain
  nodup := h.nodup
  tail := htail
  retired := h.retired
  slotsUsed := h.slotsUsed
  slots := h.slots
  exclusive := h.exclusive
  calls p := (h.calls p).frame rfl rfl rfl rfl (fun _ _ ht => ht) (fun _ _ _ hn => hn) fun _ hn => ⟨hn, rfl⟩
  owners := h.owners
  next := hnext
  moved := hmoved
  guarded := hguarded
  values := by
    obtain ⟨vals, hdata, hall⟩ := h.values
    refine ⟨vals, hdata, ?_⟩
    show _ = q.returned ++ c.inHand ++ vals
    rw [hhand]
    exact hall

/-- **The head moves on.** The node it leaves is retired, and is not the one at `tail_`. -/
theorem take (h : q.Inv maxProducers rest todo kept) {next count : ℕ} {n old : Node α} {c : ConsumerPc α}
    {returned : List α} (hpc : q.consumer = .take next) (hn : q.heap next = some n) (hold : q.heap q.head = some old)
    (hnext : c.next? = none) (hcur : ∀ q' : MPSCQueue α, q'.consumer = c → q'.cur = q'.retiredHead)
    (hsurvivors : ∀ q' : MPSCQueue α, q'.consumer = c → q'.survivors = none)
    (hguarded : ∀ q' : MPSCQueue α, q'.consumer = c → ∀ todo', q'.Guarded todo')
    (hreturned : returned ++ c.inHand = q.returned ++ [n.data]) :
    ∃ rest', { q with
      head := next
      heap := Function.update q.heap q.head (some { old with retiredNext := q.retiredHead })
      retiredHead := some q.head
      retiredCount := count
      consumer := c
      returned := returned }.Inv maxProducers rest' (q.head :: todo) kept := by
  have hsucc : Next q.heap q.head next := h.next next (by rw [hpc]; rfl)
  -- the chain goes on from the head to the node that is taken
  obtain ⟨rest', rfl⟩ : ∃ rest', rest = next :: rest' := by
    obtain ⟨-, n₀, hn₀, hrest⟩ := h.liveChain
    unfold Next at hsucc
    rw [hn₀, Option.bind_some] at hsucc
    rw [hsucc] at hrest
    cases rest with
    | nil => cases hrest
    | cons a rest' =>
        cases hrest.1
        exact ⟨rest', rfl⟩
  -- retiring a node does not touch its link
  have hsame : ∀ {a b}, Next q.heap a b →
      Next (Function.update q.heap q.head (some { old with retiredNext := q.retiredHead })) a b := by
    intro a b hab
    refine hab.update fun ha => ?_
    unfold Next at hab
    rw [ha, hold] at hab
    exact hab
  -- the old head goes from the live nodes to the retired ones
  have hperm : ((next :: rest') ++ ((q.head :: todo) ++ kept)).Perm (q.nodes (next :: rest') todo kept) := by
    show List.Perm ((next :: rest') ++ q.head :: (todo ++ kept)) (q.head :: ((next :: rest') ++ (todo ++ kept)))
    exact List.perm_middle
  have hheadNodes : q.head ∈ q.nodes (next :: rest') todo kept := List.mem_append_left _ List.mem_cons_self
  have hretired := h.live_notMem_retired (List.mem_cons_self (a := q.head) (l := next :: rest'))
  refine ⟨rest', ?_⟩
  exact {
    liveChain := by
      obtain ⟨-, n₀, hn₀, hrest⟩ := h.liveChain
      unfold Next at hsucc
      rw [hn₀, Option.bind_some] at hsucc
      rw [hsucc] at hrest
      exact hrest.update fun hmem => absurd hmem h.head_notMem
    todoChain := by
      have hchain := h.todoChain
      have hold' : q.cur = q.retiredHead := by
        unfold cur
        rw [hpc]
      rw [hold'] at hchain
      rw [hcur _ rfl]
      refine ⟨rfl, _, Function.update_self .., hchain.update fun hmem => ?_⟩
      exact absurd (List.mem_append_left _ hmem) hretired
    keptChain := by
      have hchain := h.keptChain
      have hold' : q.survivors = none := by
        unfold survivors
        rw [hpc]
      rw [hold'] at hchain
      rw [hsurvivors _ rfl]
      exact hchain.update fun hmem => absurd (List.mem_append_right _ hmem) hretired
    nodup := hperm.nodup_iff.mpr h.nodup
    tail := (List.mem_cons.mp h.tail).resolve_left (h.moved next hpc)
    retired := by
      intro r hr
      rcases List.mem_cons.mp hr with rfl | hmem
      · exact ⟨next, hsame hsucc⟩
      · obtain ⟨b, hb⟩ := h.retired r hmem
        exact ⟨b, hsame hb⟩
    slotsUsed := h.slotsUsed
    slots := h.slots
    exclusive := h.exclusive
    calls := fun p => (h.calls p).frame rfl rfl rfl rfl (fun t _ ht => hperm.mem_iff.mpr ht)
      (fun t b _ hb => hsame hb) fun node hnode => ⟨fun hmem => hnode (hperm.mem_iff.mp hmem),
        Function.update_of_ne (by rintro rfl; exact hnode hheadNodes) _ _⟩
    owners := h.owners
    next := by
      intro next' hc
      change c.next? = some next' at hc
      rw [hnext] at hc
      cases hc
    moved := by
      intro next' hc
      change c = .take next' at hc
      rw [hc] at hnext
      cases hnext
    guarded := hguarded _ rfl _
    values := by
      obtain ⟨vals, hdata, hall⟩ := h.values
      cases vals with
      | nil => cases hdata
      | cons v vals =>
          rw [List.map_cons, List.map_cons, hn] at hdata
          obtain ⟨hv, hrest⟩ := List.cons.inj hdata
          cases hv
          refine ⟨vals, (map_data_update fun hmem => ?_).trans hrest, ?_⟩
          · exact absurd (List.mem_cons_of_mem _ hmem) h.head_notMem
          · show _ = returned ++ c.inHand ++ vals
            rw [hreturned, hall, hpc]
            simp [ConsumerPc.inHand] }

/-- What the sweep has before it and behind it. What is before it and held is in the snapshot. -/
theorem sweeping (h : q.Inv maxProducers rest todo kept) {value : α} {snapshot : List ℕ} {count : ℕ}
    {from? keptFrom : Option ℕ} (hpc : q.consumer = .reclaim value (.sweep snapshot from? keptFrom count)) :
    Chain Node.retiredNext q.heap from? todo ∧ Chain Node.retiredNext q.heap keptFrom kept ∧
      ∀ p t, (q.producers p).holds = some t → t ∈ todo → t ∈ snapshot := by
  have htodo := h.todoChain
  have hkept := h.keptChain
  have hguarded := h.guarded
  unfold cur at htodo
  unfold survivors at hkept
  unfold Guarded at hguarded
  rw [hpc] at htodo hkept hguarded
  exact ⟨htodo, hkept, hguarded⟩

/-- **A retired node is kept**, because the scan has seen it in a hazard slot. -/
theorem keep (h : q.Inv maxProducers rest todo kept) {value : α} {snapshot : List ℕ} {c count : ℕ}
    {keptFrom : Option ℕ} {n : Node α}
    (hpc : q.consumer = .reclaim value (.sweep snapshot (some c) keptFrom count)) (hn : q.heap c = some n) :
    ∃ todo', { q with
      heap := Function.update q.heap c (some { n with retiredNext := keptFrom })
      consumer := .reclaim value (.sweep snapshot n.retiredNext (some c) (count + 1)) }.Inv maxProducers rest todo'
        (c :: kept) := by
  obtain ⟨htodo, hkept, hguarded⟩ := h.sweeping hpc
  cases todo with
  | nil => cases htodo
  | cons c' todo' =>
      obtain ⟨hc, n', hn', hrest⟩ := htodo
      cases hc
      rw [hn] at hn'
      cases hn'
      -- the node goes from what is before the sweep to what it has kept
      have hperm : (q.nodes rest todo' (c :: kept)).Perm (q.nodes rest (c :: todo') kept) :=
        List.Perm.append_left _ List.perm_middle
      have hretired : (c :: (todo' ++ kept)).Nodup := (List.nodup_append.mp h.nodup).2.1
      have hnotMem := (List.nodup_cons.mp hretired).1
      have hcNodes : c ∈ q.nodes rest (c :: todo') kept := List.mem_append_right _ List.mem_cons_self
      have hsame : ∀ {a b}, Next q.heap a b →
          Next (Function.update q.heap c (some { n with retiredNext := keptFrom })) a b := by
        intro a b hab
        refine hab.update fun ha => ?_
        unfold Next at hab
        rw [ha, hn] at hab
        exact hab
      refine ⟨todo', ?_⟩
      exact {
        liveChain := h.liveChain.update fun _ => by rw [hn]; rfl
        todoChain := hrest.update fun hmem => absurd (List.mem_append_left _ hmem) hnotMem
        keptChain := ⟨rfl, _, Function.update_self ..,
          hkept.update fun hmem => absurd (List.mem_append_right _ hmem) hnotMem⟩
        nodup := hperm.nodup_iff.mpr h.nodup
        tail := h.tail
        retired := by
          intro r hr
          obtain ⟨b, hb⟩ := h.retired r (List.perm_middle.mem_iff.mp hr)
          exact ⟨b, hsame hb⟩
        slotsUsed := h.slotsUsed
        slots := h.slots
        exclusive := h.exclusive
        calls := fun p => (h.calls p).frame rfl rfl rfl rfl (fun t _ ht => hperm.mem_iff.mpr ht)
          (fun t b _ hb => hsame hb) fun node hnode => ⟨fun hmem => hnode (hperm.mem_iff.mp hmem),
            Function.update_of_ne (by rintro rfl; exact hnode hcNodes) _ _⟩
        owners := h.owners
        next := nofun
        moved := nofun
        guarded := fun p t ht hmem => hguarded p t ht (List.mem_cons_of_mem _ hmem)
        values := by
          obtain ⟨vals, hdata, hall⟩ := h.values
          rw [hpc] at hall
          exact ⟨vals, (map_data_update fun _ => by rw [hn]; rfl).trans hdata, hall⟩ }

/-- A retired node that the sweep has not seen in a hazard slot is held by no producer. -/
theorem not_held (h : q.Inv maxProducers rest todo kept) {value : α} {snapshot : List ℕ} {c count : ℕ}
    {keptFrom : Option ℕ} (hpc : q.consumer = .reclaim value (.sweep snapshot (some c) keptFrom count))
    (hc : c ∉ snapshot) (p : ℕ) : (q.producers p).holds ≠ some c := by
  intro hholds
  obtain ⟨htodo, -, hguarded⟩ := h.sweeping hpc
  cases todo with
  | nil => cases htodo
  | cons c' todo' =>
      cases htodo.1
      exact hc (hguarded p c hholds List.mem_cons_self)

/-- **A retired node is deleted.** -/
theorem delete (h : q.Inv maxProducers rest todo kept) {value : α} {snapshot : List ℕ} {c count : ℕ}
    {keptFrom : Option ℕ} {n : Node α}
    (hpc : q.consumer = .reclaim value (.sweep snapshot (some c) keptFrom count)) (hn : q.heap c = some n)
    (hc : c ∉ snapshot) :
    ∃ todo', { q with
      heap := Function.update q.heap c none
      consumer := .reclaim value (.sweep snapshot n.retiredNext keptFrom count) }.Inv maxProducers rest todo'
        kept := by
  -- no producer can come upon it any more
  have hfree := h.not_held hpc hc
  obtain ⟨htodo, hkept, hguarded⟩ := h.sweeping hpc
  cases todo with
  | nil => cases htodo
  | cons c' todo' =>
      obtain ⟨hc', n', hn', hrest⟩ := htodo
      cases hc'
      rw [hn] at hn'
      cases hn'
      -- the node is no longer one of the queue's
      have hperm : (q.nodes rest (c :: todo') kept).Perm (c :: q.nodes rest todo' kept) := List.perm_middle
      have hnodup := hperm.nodup_iff.mp h.nodup
      have hnotMem := (List.nodup_cons.mp hnodup).1
      have hcNodes : c ∈ q.nodes rest (c :: todo') kept := List.mem_append_right _ List.mem_cons_self
      have hsame : ∀ {a b}, a ≠ c → Next q.heap a b → Next (Function.update q.heap c none) a b :=
        fun hne hab => hab.update fun ha => absurd ha hne
      refine ⟨todo', ?_⟩
      exact {
        liveChain := h.liveChain.update fun hmem => absurd (List.mem_append_left _ hmem) hnotMem
        todoChain := hrest.update fun hmem => absurd (List.mem_append_right _ (List.mem_append_left _ hmem)) hnotMem
        keptChain := hkept.update fun hmem =>
          absurd (List.mem_append_right _ (List.mem_append_right _ hmem)) hnotMem
        nodup := (List.nodup_cons.mp hnodup).2
        tail := h.tail
        retired := by
          intro r hr
          obtain ⟨b, hb⟩ := h.retired r (List.mem_cons_of_mem _ hr)
          refine ⟨b, hsame ?_ hb⟩
          rintro rfl
          exact hnotMem (List.mem_append_right _ hr)
        slotsUsed := h.slotsUsed
        slots := h.slots
        exclusive := h.exclusive
        calls := by
          intro p
          refine (h.calls p).frame rfl rfl rfl rfl (fun t ht hmem => ?_) (fun t b ht hb => hsame ?_ hb) fun node hnode =>
            ⟨fun hmem => hnode (hperm.mem_iff.mpr (List.mem_cons_of_mem _ hmem)),
              Function.update_of_ne (by rintro rfl; exact hnode hcNodes) _ _⟩
          · refine (List.mem_cons.mp (hperm.mem_iff.mp hmem)).resolve_left ?_
            rintro rfl
            exact hfree p ht
          · rintro rfl
            exact hfree p ht
        owners := h.owners
        next := nofun
        moved := nofun
        guarded := fun p t ht hmem => hguarded p t ht (List.mem_cons_of_mem _ hmem)
        values := by
          obtain ⟨vals, hdata, hall⟩ := h.values
          rw [hpc] at hall
          refine ⟨vals, (map_data_update fun hmem => ?_).trans hdata, hall⟩
          exact absurd (List.mem_append_left _ (List.mem_cons_of_mem _ hmem)) hnotMem }

/-- The sweep is over: what it has kept is what is retired. -/
theorem sweepEnd (h : q.Inv maxProducers rest todo kept) {value : α} {snapshot : List ℕ} {count : ℕ}
    {keptFrom : Option ℕ} (hpc : q.consumer = .reclaim value (.sweep snapshot none keptFrom count)) :
    ({ q with retiredHead := keptFrom, retiredCount := count }.finish value).Inv maxProducers rest kept [] := by
  obtain ⟨htodo, hkept, hguarded⟩ := h.sweeping hpc
  cases todo with
  | cons c todo' => cases htodo.1
  | nil =>
      have hnodes : q.nodes rest kept [] = q.nodes rest [] kept := by
        unfold nodes
        rw [List.append_nil, List.nil_append]
      exact {
        liveChain := h.liveChain
        todoChain := hkept
        keptChain := rfl
        nodup := by
          show (q.nodes rest kept []).Nodup
          rw [hnodes]
          exact h.nodup
        tail := h.tail
        retired := by
          rw [List.append_nil]
          exact h.retired
        slotsUsed := h.slotsUsed
        slots := h.slots
        exclusive := h.exclusive
        calls := fun p => (h.calls p).frame rfl rfl rfl rfl (fun t _ ht => by
          show t ∈ q.nodes rest kept []
          rwa [hnodes]) (fun _ _ _ hb => hb) fun node hnode => ⟨by
            show node ∉ q.nodes rest kept []
            rwa [hnodes], rfl⟩
        owners := h.owners
        next := nofun
        moved := nofun
        guarded := trivial
        values := by
          obtain ⟨vals, hdata, hall⟩ := h.values
          refine ⟨vals, hdata, ?_⟩
          show q.linked.map Prod.snd = (q.returned ++ [value]) ++ [] ++ vals
          rw [hall, hpc]
          simp [ConsumerPc.inHand] }

end Inv

end

end MPSCQueue

end CollabEditor
