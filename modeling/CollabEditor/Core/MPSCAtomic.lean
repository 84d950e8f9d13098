import CollabEditor.Core.MPSCRuns
import CollabEditor.Lib.Atomic

/-!
# `Core.MPSCAtomic` — the lock-free queue is a queue at every moment

`MPSCQueue` is linearizable: its callers cannot tell it from a list that `enqueue` appends to and `try_dequeue`
takes the first value of, each at one moment between its call and its return. For `enqueue` that is the
compare-exchange which links its node, and for `try_dequeue` the move of `head_`; where it returns nothing, there
was nothing in the queue when it looked. So a value whose `enqueue` has returned is before every value enqueued
later, whichever producers the two are of, and it is not missed by a `try_dequeue` that begins afterwards.

## Contents
- **The list.** `perform`, `Call`, `Answer`, `Party`.
- **The abstraction.** `contents`, `abstract`, and the calls and returns that a step shows, `shows`.
- **One lemma per step**: `producer_refines`, `consumer_refines`, `step_refines`.
- **Runs.** `queue_linearizable`.
-/

namespace CollabEditor

variable {α : Type}

namespace MPSCQueue

/-! ## The list -/

inductive Call (α : Type) where
  | enqueue (value : α)
  | tryDequeue
  deriving DecidableEq, Repr

inductive Answer (α : Type) where
  | enqueued
  | dequeued (value : Option α)
  deriving DecidableEq, Repr

/-- The threads that use a queue. -/
inductive Party where
  | producer (p : ℕ)
  | consumer
  deriving DecidableEq, Repr

/-- A queue is a list. -/
def perform (values : List α) : Call α → List α × Answer α
  | .enqueue value => (values ++ [value], .enqueued)
  | .tryDequeue => match values with
      | [] => ([], .dequeued none)
      | value :: rest => (rest, .dequeued (some value))

/-! ## The abstraction -/

/-- What is in the queue: the values linked and not taken yet. -/
def contents (q : MPSCQueue α) : List α :=
  (q.linked.map Prod.snd).drop (q.returned.length + q.consumer.inHand.length)

/-- What a producer has called `enqueue` with and not linked yet. -/
def unlinked (q : MPSCQueue α) (p : ℕ) : Option α := ((q.enqueued p).drop (q.linkedBy p).length).head?

/-- How far a producer is with its call. -/
inductive Progress where
  | idle
  | before
  | after
  deriving DecidableEq

def progress : ProducerPc → Progress
  | .idle => .idle
  | .linking _ _ => .before
  | .swingTail _ _ | .clearHazard => .after

def producerStatus (q : MPSCQueue α) (p : ℕ) : Atomic.Status (Call α) (Answer α) :=
  match progress (q.producers p) with
  | .idle => .idle
  | .before => match q.unlinked p with
      | some value => .called (.enqueue value)
      | none => .idle
  | .after => .done .enqueued

def consumerStatus : ConsumerPc α → Atomic.Status (Call α) (Answer α)
  | .idle => .idle
  | .loadTail _ | .exchangeTail _ | .take _ => .called .tryDequeue
  | .reclaim value _ => .done (.dequeued (some value))

/-- The list that the queue stands for, and where its threads are. -/
def abstract (q : MPSCQueue α) : Atomic.State Party (List α) (Call α) (Answer α) where
  object := q.contents
  status := fun party => match party with
    | .producer p => q.producerStatus p
    | .consumer => consumerStatus q.consumer

/-- The calls and returns in a step. -/
def shows (q : MPSCQueue α) (e : Event α) (q' : MPSCQueue α) : List (Atomic.Event Party (Call α) (Answer α)) :=
  match e with
  | .enqueue p value _ => [.call (.producer p) (.enqueue value)]
  | .producer p => match q.producers p, q'.producers p with
      | .clearHazard, .idle => [.ret (.producer p) .enqueued]
      | _, _ => []
  | .tryDequeue => .call .consumer .tryDequeue :: match q'.consumer with
      | .idle => [.ret .consumer (.dequeued none)]
      | _ => []
  | .consumer => match q'.consumer with
      | .idle => [.ret .consumer (.dequeued (q'.returned.getLast?))]
      | _ => []

section

variable {maxProducers : ℕ} {q q' : MPSCQueue α} {rest todo kept : List ℕ}

/-- The queue's values are the data of its live nodes. -/
theorem Inv.contents_eq (h : q.Inv maxProducers rest todo kept) :
    rest.map (fun a => (q.heap a).map Node.data) = q.contents.map some := by
  obtain ⟨vals, hdata, hall⟩ := h.values
  have hvals : q.contents = vals := by
    unfold contents
    rw [hall, ← List.length_append, List.drop_left]
  rw [hvals, hdata]

/-- A producer that has not linked its node holds the value it was called with. -/
theorem Inv.unlinked_eq (h : q.Inv maxProducers rest todo kept) {p node : ℕ}
    (hnode : (q.producers p).node? = some node) :
    ∃ v, q.heap node = some { data := v } ∧ q.unlinked p = some v := by
  obtain ⟨-, v, hv, hvalues⟩ := (h.calls p).own node hnode
  refine ⟨v, hv, ?_⟩
  unfold unlinked
  rw [hvalues, List.drop_left]
  rfl

/-- What a thread sees of the queue depends on the values and on where the threads are. -/
theorem abstract_congr (q q' : MPSCQueue α) (hlinked : q'.linked = q.linked) (henqueued : q'.enqueued = q.enqueued)
    (hreturned : q'.returned = q.returned) (hconsumer : consumerStatus q'.consumer = consumerStatus q.consumer)
    (hinHand : q'.consumer.inHand = q.consumer.inHand)
    (hproducers : ∀ r, progress (q'.producers r) = progress (q.producers r)) : q'.abstract = q.abstract := by
  have hcontents : q'.contents = q.contents := by
    unfold contents
    rw [hlinked, hreturned, hinHand]
  have hstatus : ∀ r, q'.producerStatus r = q.producerStatus r := by
    intro r
    unfold producerStatus unlinked linkedBy
    rw [hproducers, henqueued, hlinked]
  unfold abstract
  rw [hcontents]
  congr 1
  funext party
  cases party with
  | producer r => exact hstatus r
  | consumer => exact hconsumer

/-! ## Producers -/

/-- **A step before the link** leaves the nodes as they are, but the compare-exchange that links the new one. -/
theorem linkStep_cases {p node : ℕ} {stage : LinkStage} (hs : q.linkStep maxProducers p node stage = some q') :
    (∃ tail slotsUsed slots hazards stage', q' =
      { q with tail := tail, slotsUsed := slotsUsed, slots := slots, hazards := hazards }.goto p
        (.linking node stage')) ∨
    ∃ t n own, stage = .exchangeNext t ∧ q.heap t = some n ∧ q.heap node = some own ∧ n.next = none ∧ q' = { q with
      heap := Function.update q.heap t (some { n with next := some node })
      linked := q.linked ++ [(p, own.data)] }.goto p (.swingTail node t) := by
  cases stage with
  | acquireSlot =>
      unfold linkStep at hs
      cases hslot : q.slots p with
      | some i =>
          rw [hslot] at hs
          cases hs
          exact .inl ⟨_, _, _, _, _, rfl⟩
      | none =>
          rw [hslot] at hs
          dsimp only at hs
          split_ifs at hs
          cases hs
          exact .inl ⟨_, _, _, _, _, rfl⟩
  | loadTail | validate _ | helpTail _ _ =>
      cases hs
      exact .inl ⟨_, _, _, _, _, rfl⟩
  | storeHazard t =>
      obtain ⟨i, -, hs⟩ := Option.bind_eq_some_iff.mp hs
      cases hs
      exact .inl ⟨_, _, _, _, _, rfl⟩
  | loadNext t =>
      obtain ⟨n, -, hs⟩ := Option.bind_eq_some_iff.mp hs
      split at hs <;> (cases hs; exact .inl ⟨_, _, _, _, _, rfl⟩)
  | exchangeNext t =>
      obtain ⟨n, hn, hs⟩ := Option.bind_eq_some_iff.mp hs
      obtain ⟨own, hown, hs⟩ := Option.bind_eq_some_iff.mp hs
      cases hnext : n.next with
      | none =>
          rw [hnext] at hs
          cases hs
          exact .inr ⟨t, n, own, rfl, hn, hown, hnext, rfl⟩
      | some tNext =>
          rw [hnext] at hs
          cases hs
          exact .inl ⟨_, _, _, _, _, rfl⟩

/-- The steps of one producer leave what is seen of the others. -/
theorem abstract_update (q q' : MPSCQueue α) {p : ℕ} (pc : ProducerPc) {status : Atomic.Status (Call α) (Answer α)}
    (hcontents : q'.contents = q.contents) (hproducers : q'.producers = Function.update q.producers p pc)
    (hconsumer : q'.consumer = q.consumer) (hothers : ∀ r, r ≠ p → q'.unlinked r = q.unlinked r)
    (hp : q'.producerStatus p = status) :
    q'.abstract = { q.abstract with status := Function.update q.abstract.status (.producer p) status } := by
  unfold abstract
  rw [hcontents]
  congr 1
  funext party
  cases party with
  | producer r =>
      by_cases hr : r = p
      · subst hr
        rw [Function.update_self]
        exact hp
      · have hne : Party.producer r ≠ Party.producer p := fun h => hr (Party.producer.inj h)
        rw [Function.update_of_ne hne]
        show q'.producerStatus r = q.producerStatus r
        unfold producerStatus
        rw [hproducers, Function.update_of_ne hr, hothers r hr]
  | consumer =>
      have hne : Party.consumer ≠ Party.producer p := Party.noConfusion
      rw [Function.update_of_ne hne, hconsumer]

theorem unlinked_append_of_ne {p r : ℕ} (hr : r ≠ p) (v : α) :
    { q with linked := q.linked ++ [(p, v)] }.unlinked r = q.unlinked r := by
  unfold unlinked
  rw [linkedBy_append_of_ne hr]

/-- **The compare-exchange that links a node** is the moment at which its value enters the queue. -/
theorem link_refines (h : q.Inv maxProducers rest todo kept) {p node t : ℕ} {stage : LinkStage} {n own : Node α}
    (hpc : q.producers p = .linking node stage) (hown : q.heap node = some own)
    (hq' : q' = { q with
      heap := Function.update q.heap t (some { n with next := some node })
      linked := q.linked ++ [(p, own.data)] }.goto p (.swingTail node t)) :
    Atomic.Step perform q.abstract (.effect (.producer p)) q'.abstract := by
  have hnode : (q.producers p).node? = some node := by rw [hpc]; rfl
  obtain ⟨v, hv, hunlinked⟩ := h.unlinked_eq hnode
  rw [hown] at hv
  cases hv
  have hcalled : q.abstract.status (.producer p) = .called (.enqueue v) := by
    show q.producerStatus p = _
    unfold producerStatus
    rw [hpc, hunlinked]
    rfl
  -- the new value is behind those that nobody has taken
  have hcontents : q'.contents = q.contents ++ [v] := by
    obtain ⟨vals, -, hall⟩ := h.values
    rw [hq']
    unfold contents
    show ((q.linked ++ [(p, v)]).map Prod.snd).drop _ = _
    rw [List.map_append, List.drop_append_of_le_length]
    · rfl
    · rw [hall, List.length_append, List.length_append]
      exact Nat.le_add_right _ _
  have hstep : Atomic.Step perform q.abstract (.effect (.producer p)) _ := .effect hcalled
  have heq : q'.abstract = {
      object := q.contents ++ [v]
      status := Function.update q.abstract.status (.producer p) (.done .enqueued) } := by
    unfold abstract
    rw [hcontents]
    congr 1
    funext party
    cases party with
    | producer r =>
        by_cases hr : r = p
        · subst hr
          rw [Function.update_self]
          show q'.producerStatus r = .done .enqueued
          unfold producerStatus
          rw [hq', goto_self]
          rfl
        · have hne : Party.producer r ≠ Party.producer p := fun h => hr (Party.producer.inj h)
          rw [Function.update_of_ne hne]
          show q'.producerStatus r = q.producerStatus r
          unfold producerStatus
          rw [hq', goto_of_ne hr]
          have hother := unlinked_append_of_ne (q := q) hr v
          simp only [unlinked, linkedBy, goto] at hother ⊢
          rw [hother]
    | consumer =>
        have hne : Party.consumer ≠ Party.producer p := Party.noConfusion
        rw [Function.update_of_ne hne, hq']
        rfl
  rw [heq]
  exact hstep

theorem linkStep_refines (h : q.Inv maxProducers rest todo kept) {p node : ℕ} {stage : LinkStage}
    (hpc : q.producers p = .linking node stage) (hs : q.linkStep maxProducers p node stage = some q') :
    ∃ es, Atomic.Steps perform q.abstract es q'.abstract ∧ es.filter Atomic.Event.visible = [] := by
  rcases linkStep_cases hs with ⟨tail, slotsUsed, slots, hazards, stage', hq'⟩ |
    ⟨t, n, own, -, -, hown, -, hq'⟩
  · refine ⟨[], ?_, rfl⟩
    have hprogress : ∀ r, progress (q'.producers r) = progress (q.producers r) := by
      intro r
      rw [hq']
      by_cases hr : r = p
      · subst hr
        rw [goto_self, hpc]
        rfl
      · rw [goto_of_ne hr]
    rw [abstract_congr q q' (by rw [hq']; rfl) (by rw [hq']; rfl) (by rw [hq']; rfl)
      (by rw [hq']; rfl) (by rw [hq']; rfl) hprogress]
    exact .nil _
  · exact ⟨[.effect (.producer p)], .single (link_refines h hpc hown hq'), rfl⟩

/-- **A step of a producer.** -/
theorem producer_refines (h : q.Inv maxProducers rest todo kept) {p : ℕ}
    (hs : q.producerStep maxProducers p = some q') :
    ∃ es, Atomic.Steps perform q.abstract es q'.abstract ∧
      es.filter Atomic.Event.visible = q.shows (.producer p) q' := by
  unfold producerStep at hs
  cases hpc : q.producers p with
  | idle =>
      rw [hpc] at hs
      cases hs
  | linking node stage =>
      rw [hpc] at hs
      obtain ⟨es, hes, hvisible⟩ := linkStep_refines h hpc hs
      exact ⟨es, hes, by rw [hvisible, shows, hpc]⟩
  | swingTail node t =>
      rw [hpc] at hs
      have hq' : q' = (q.exchangeTail t node).goto p .clearHazard := (Option.some.inj hs).symm
      refine ⟨[], ?_, by rw [shows, hpc]; rfl⟩
      have hprogress : ∀ r, progress (q'.producers r) = progress (q.producers r) := by
        intro r
        rw [hq']
        by_cases hr : r = p
        · subst hr
          rw [goto_self, hpc]
          rfl
        · rw [goto_of_ne hr]
          rfl
      rw [abstract_congr q q' (by rw [hq']; rfl) (by rw [hq']; rfl) (by rw [hq']; rfl)
        (by rw [hq']; rfl) (by rw [hq']; rfl) hprogress]
      exact .nil _
  | clearHazard =>
      rw [hpc] at hs
      obtain ⟨i, -, hs⟩ := Option.bind_eq_some_iff.mp hs
      have hq' : q' = (q.storeHazard i none).goto p .idle := (Option.some.inj hs).symm
      have hdone : q.abstract.status (.producer p) = .done .enqueued := by
        show q.producerStatus p = _
        unfold producerStatus
        rw [hpc]
        rfl
      have hpc' : q'.producers p = .idle := by rw [hq', goto_self]
      refine ⟨[.ret (.producer p) .enqueued], ?_, by rw [shows, hpc, hpc']; rfl⟩
      rw [abstract_update q q' (p := p) .idle (by rw [hq']; rfl)
        (by rw [hq']; rfl) (by rw [hq']; rfl) (fun _ _ => by rw [hq']; rfl)
        (by unfold producerStatus; rw [hpc'])]
      exact .single (.ret hdone)

/-- **A call of `enqueue`.** -/
theorem enqueue_refines (h : q.Inv maxProducers rest todo kept) {p address : ℕ} {value : α}
    (hs : q.callEnqueue p value address = some q') :
    ∃ es, Atomic.Steps perform q.abstract es q'.abstract ∧
      es.filter Atomic.Event.visible = q.shows (.enqueue p value address) q' := by
  unfold callEnqueue at hs
  split_ifs at hs with hcall
  have hq' := (Option.some.inj hs).symm
  have hidle : q.abstract.status (.producer p) = .idle := by
    show q.producerStatus p = _
    unfold producerStatus
    rw [hcall.1]
    rfl
  -- everything that the producer has enqueued before is linked
  have hall := (h.calls p).linked (by rw [hcall.1]; rfl)
  have henqueued : q'.enqueued p = q.linkedBy p ++ [value] := by
    rw [hq']
    show Function.update q.enqueued p (q.enqueued p ++ [value]) p = _
    rw [Function.update_self, hall]
  have hlinked : ∀ r, q'.linkedBy r = q.linkedBy r := fun r => by rw [hq']; rfl
  have hothers : ∀ r, r ≠ p → q'.unlinked r = q.unlinked r := by
    intro r hr
    unfold unlinked
    rw [hlinked, hq']
    show ((Function.update q.enqueued p (q.enqueued p ++ [value]) r).drop _).head? = _
    rw [Function.update_of_ne hr]
  have hcalled : q'.producerStatus p = .called (.enqueue value) := by
    have hpc' : q'.producers p = .linking address .acquireSlot := by rw [hq', goto_self]
    unfold producerStatus unlinked
    rw [hpc', hlinked, henqueued, List.drop_left]
    rfl
  refine ⟨[.call (.producer p) (.enqueue value)], ?_, rfl⟩
  rw [abstract_update q q' (p := p) _ (by rw [hq']; rfl) (by rw [hq']; rfl) (by rw [hq']; rfl) hothers
    hcalled]
  exact .single (.call _ hidle)

/-! ## The consumer -/

/-- The steps of the consumer leave what is seen of the producers. -/
theorem abstract_consume (q q' : MPSCQueue α) (hlinked : q'.linked = q.linked)
    (henqueued : q'.enqueued = q.enqueued) (hproducers : q'.producers = q.producers) : q'.abstract = {
      object := q'.contents
      status := Function.update q.abstract.status .consumer (consumerStatus q'.consumer) } := by
  unfold abstract
  congr 1
  funext party
  cases party with
  | producer r =>
      have hne : Party.producer r ≠ Party.consumer := Party.noConfusion
      rw [Function.update_of_ne hne]
      show q'.producerStatus r = q.producerStatus r
      unfold producerStatus unlinked linkedBy
      rw [hlinked, henqueued, hproducers]
  | consumer => rw [Function.update_self]

/-- **A call of `try_dequeue`** finds the queue empty, or is under way. -/
theorem tryDequeue_refines (h : q.Inv maxProducers rest todo kept) (hs : q.callTryDequeue = some q') :
    ∃ es, Atomic.Steps perform q.abstract es q'.abstract ∧ es.filter Atomic.Event.visible = q.shows .tryDequeue q' := by
  unfold callTryDequeue at hs
  cases hpc : q.consumer with
  | loadTail _ | exchangeTail _ | take _ | reclaim _ _ =>
      rw [hpc] at hs
      cases hs
  | idle =>
      rw [hpc] at hs
      have hidle : q.abstract.status .consumer = .idle := by
        show consumerStatus q.consumer = _
        rw [hpc]
        rfl
      obtain ⟨n, hn, hs⟩ := Option.bind_eq_some_iff.mp hs
      cases hnext : n.next with
      | none =>
          rw [hnext] at hs
          cases hs
          -- the head has no successor, so there is nothing in the queue at this moment
          have hempty : q.contents = [] := by
            obtain ⟨-, n', hn', hrest⟩ := h.liveChain
            rw [hn] at hn'
            cases hn'
            rw [hnext] at hrest
            have hnil : rest = [] := by
              cases rest with
              | nil => rfl
              | cons a as => cases hrest.1
            have hcontents := h.contents_eq
            rw [hnil, List.map_nil] at hcontents
            exact List.map_eq_nil_iff.mp hcontents.symm
          have hwhole := Atomic.Steps.whole perform Call.tryDequeue hidle
          have hperform : perform q.abstract.object .tryDequeue = (q.abstract.object, .dequeued none) := by
            show perform q.contents .tryDequeue = (q.contents, _)
            rw [hempty]
            rfl
          rw [hperform] at hwhole
          refine ⟨_, hwhole, ?_⟩
          rw [shows, hpc]
          rfl
      | some next =>
          rw [hnext] at hs
          have hq' : q' = { q with consumer := .loadTail next } := (Option.some.inj hs).symm
          refine ⟨[.call .consumer .tryDequeue], ?_, by rw [shows, hq']; rfl⟩
          rw [abstract_consume q q' (by rw [hq']) (by rw [hq']) (by rw [hq'])]
          have hcontents : q'.contents = q.abstract.object := by
            show q'.contents = q.contents
            rw [hq']
            unfold contents
            rw [hpc]
            rfl
          rw [hcontents, hq']
          exact .single (.call _ hidle)

/-- **The move of `head_`** is the moment at which a value leaves the queue. -/
theorem take_refines (h : q.Inv maxProducers rest todo kept) {next : ℕ} (hpc : q.consumer = .take next)
    (hs : q.takeStep maxProducers next = some q') :
    ∃ es, Atomic.Steps perform q.abstract es q'.abstract ∧ es.filter Atomic.Event.visible = q.shows .consumer q' := by
  obtain ⟨n, hn, hs⟩ := Option.bind_eq_some_iff.mp hs
  obtain ⟨old, -, hs⟩ := Option.bind_eq_some_iff.mp hs
  have hcalled : q.abstract.status .consumer = .called .tryDequeue := by
    show consumerStatus q.consumer = _
    rw [hpc]
    rfl
  -- the node that the consumer moves to is the first one behind `head_`
  have hcontents : q.contents = n.data :: q.contents.tail := by
    obtain ⟨-, n', hn', hrest⟩ := h.liveChain
    have hnext := h.next next (by rw [hpc]; rfl)
    unfold Next at hnext
    rw [hn', Option.bind_some] at hnext
    rw [hnext] at hrest
    cases rest with
    | nil => cases hrest
    | cons a as =>
        cases hrest.1
        have hdata := h.contents_eq
        rw [List.map_cons, hn] at hdata
        cases hvals : q.contents with
        | nil =>
            rw [hvals] at hdata
            cases hdata
        | cons v vs =>
            rw [hvals, List.map_cons] at hdata
            injection hdata with hv _
            cases hv
            rfl
  have htail : ∀ (r : MPSCQueue α), r.linked = q.linked →
      r.returned.length + r.consumer.inHand.length = q.returned.length + 1 → r.contents = q.contents.tail := by
    intro r hlinked hlen
    unfold contents
    rw [hlinked, hlen, hpc, List.tail_drop]
    rfl
  have hperform : perform q.abstract.object .tryDequeue = (q.contents.tail, .dequeued (some n.data)) := by
    show perform q.contents .tryDequeue = _
    rw [hcontents]
    rfl
  dsimp only at hs
  split_ifs at hs
  · -- the value is returned after a reclamation
    have heffect : Atomic.Step perform q.abstract (.effect .consumer) _ := .effect hcalled
    rw [hperform] at heffect
    have hq' := (Option.some.inj hs).symm
    refine ⟨[.effect .consumer], ?_, by rw [shows, hq']; rfl⟩
    rw [abstract_consume q q' (by rw [hq']) (by rw [hq']) (by rw [hq']),
      htail q' (by rw [hq']) (by rw [hq']; rfl), hq']
    exact .single heffect
  · have hanswer := Atomic.Steps.answer perform hcalled
    rw [hperform] at hanswer
    have hq' := (Option.some.inj hs).symm
    refine ⟨[.effect .consumer, .ret .consumer (.dequeued (some n.data))], ?_, ?_⟩
    · rw [abstract_consume q q' (by rw [hq']; rfl) (by rw [hq']; rfl) (by rw [hq']; rfl),
        htail q' (by rw [hq']; rfl) (by rw [hq']; exact List.length_append), hq']
      exact hanswer
    · rw [shows, hq']
      show [_] = [Atomic.Event.ret Party.consumer (Answer.dequeued (q.returned ++ [n.data]).getLast?)]
      rw [List.getLast?_concat]

/-- **A step of `try_reclaim_`** is not seen, until the call returns the value it has taken. -/
theorem reclaimStep_cases {value : α} {stage : ReclaimStage} (hs : q.reclaimStep maxProducers value stage = some q') :
    q'.linked = q.linked ∧ q'.enqueued = q.enqueued ∧ q'.producers = q.producers ∧
      ((q'.returned = q.returned ∧ ∃ stage', q'.consumer = .reclaim value stage') ∨
        (q'.returned = q.returned ++ [value] ∧ q'.consumer = .idle)) := by
  cases stage with
  | loadUsed =>
      cases hs
      exact ⟨rfl, rfl, rfl, .inl ⟨rfl, _, rfl⟩⟩
  | scan used i snapshot =>
      unfold reclaimStep at hs
      dsimp only at hs
      split_ifs at hs <;> (cases hs; exact ⟨rfl, rfl, rfl, .inl ⟨rfl, _, rfl⟩⟩)
  | sweep snapshot cur survivors kept =>
      cases cur with
      | none =>
          cases hs
          exact ⟨rfl, rfl, rfl, .inr ⟨rfl, rfl⟩⟩
      | some c =>
          obtain ⟨n, -, hs⟩ := Option.bind_eq_some_iff.mp hs
          split_ifs at hs <;> (cases hs; exact ⟨rfl, rfl, rfl, .inl ⟨rfl, _, rfl⟩⟩)

theorem reclaim_refines {value : α} {stage : ReclaimStage} (hpc : q.consumer = .reclaim value stage)
    (hs : q.reclaimStep maxProducers value stage = some q') :
    ∃ es, Atomic.Steps perform q.abstract es q'.abstract ∧ es.filter Atomic.Event.visible = q.shows .consumer q' := by
  obtain ⟨hlinked, henqueued, hproducers, ⟨hreturned, stage', hpc'⟩ | ⟨hreturned, hpc'⟩⟩ := reclaimStep_cases hs
  · refine ⟨[], ?_, by rw [shows, hpc']; rfl⟩
    rw [abstract_congr q q' hlinked henqueued hreturned (by rw [hpc', hpc]; rfl) (by rw [hpc', hpc]; rfl)
      fun r => by rw [hproducers]]
    exact .nil _
  · have hdone : q.abstract.status .consumer = .done (.dequeued (some value)) := by
      show consumerStatus q.consumer = _
      rw [hpc]
      rfl
    have hcontents : q'.contents = q.abstract.object := by
      show q'.contents = q.contents
      unfold contents
      rw [hlinked, hreturned, hpc', hpc, List.length_append]
      rfl
    refine ⟨[.ret .consumer (.dequeued (some value))], ?_, ?_⟩
    · rw [abstract_consume q q' hlinked henqueued hproducers, hcontents, hpc']
      exact .single (.ret hdone)
    · rw [shows, hpc', hreturned]
      show [_] = [Atomic.Event.ret Party.consumer (Answer.dequeued (q.returned ++ [value]).getLast?)]
      rw [List.getLast?_concat]

theorem consumer_refines (h : q.Inv maxProducers rest todo kept) (hs : q.consumerStep maxProducers = some q') :
    ∃ es, Atomic.Steps perform q.abstract es q'.abstract ∧ es.filter Atomic.Event.visible = q.shows .consumer q' := by
  unfold consumerStep at hs
  cases hpc : q.consumer with
  | idle =>
      rw [hpc] at hs
      cases hs
  | loadTail next =>
      rw [hpc] at hs
      have hq' := (Option.some.inj hs).symm
      have hpc' : q'.consumer = .exchangeTail next ∨ q'.consumer = .take next := by
        rw [hq']
        dsimp only
        split_ifs
        · exact .inl rfl
        · exact .inr rfl
      have hstatus : consumerStatus q'.consumer = consumerStatus q.consumer ∧
          q'.consumer.inHand = q.consumer.inHand := by
        rcases hpc' with h | h <;> (rw [h, hpc]; exact ⟨rfl, rfl⟩)
      refine ⟨[], ?_, ?_⟩
      · rw [abstract_congr q q' (by rw [hq']) (by rw [hq']) (by rw [hq']) hstatus.1 hstatus.2
          fun r => by rw [hq']]
        exact .nil _
      · rcases hpc' with h | h <;> (rw [shows, h]; rfl)
  | exchangeTail next =>
      rw [hpc] at hs
      have hq' := (Option.some.inj hs).symm
      refine ⟨[], ?_, by rw [shows, hq']; rfl⟩
      rw [abstract_congr q q' (by rw [hq']; rfl) (by rw [hq']; rfl) (by rw [hq']; rfl)
        (by rw [hq', hpc]; rfl) (by rw [hq', hpc]; rfl) fun r => by rw [hq']; rfl]
      exact .nil _
  | take next =>
      rw [hpc] at hs
      exact take_refines h hpc hs
  | reclaim value stage =>
      rw [hpc] at hs
      exact reclaim_refines hpc hs

/-! ## Runs -/

/-- **Every step is a step of the list**, or one that is not seen. -/
theorem step_refines {e : Event α} (h : ∃ rest todo kept, q.Inv maxProducers rest todo kept)
    (hs : step maxProducers q e = some q') :
    ∃ es, Atomic.Steps perform q.abstract es q'.abstract ∧ es.filter Atomic.Event.visible = q.shows e q' := by
  obtain ⟨rest, todo, kept, h⟩ := h
  cases e with
  | enqueue p value address => exact enqueue_refines h hs
  | producer p => exact producer_refines h hs
  | tryDequeue => exact tryDequeue_refines h hs
  | consumer => exact consumer_refines h hs

/-- **The queue is linearizable.** In every run of any interleaving of producers and the consumer, the calls and
    returns are those of a list that each call of `enqueue` appends to, and each call of `try_dequeue` takes the
    first value of, at one moment between its call and its return. -/
theorem queue_linearizable [Inhabited α] {sentinel : ℕ} {es : List (Event α)}
    (hr : Machine.run (step maxProducers) (new sentinel) es = some q) :
    Atomic.Linearizable perform { object := [], status := fun _ => .idle }
      (Machine.trace (step maxProducers) shows (new sentinel) es) := by
  have hlinear := Atomic.linearizable_of_refinement abstract
    (fun _ _ _ h hs => step_inv h hs) (fun _ _ _ h hs => step_refines h hs)
    ⟨[], [], [], new_inv maxProducers sentinel⟩ hr
  have hinit : (new sentinel : MPSCQueue α).abstract = { object := [], status := fun _ => .idle } := by
    unfold abstract
    congr 1
    funext party
    cases party <;> rfl
  rwa [hinit] at hlinear

/-- The first producer has linked its node and is still in its call when the consumer takes the value; then the
    consumer finds nothing. -/
theorem queue_linearizable_overlap :
    let es : List (Event ℕ) := List.flatten [[.enqueue 0 10 1], List.replicate 6 (.producer 0),
      [.tryDequeue, .consumer, .consumer, .consumer, .tryDequeue, .producer 0, .producer 0]]
    ∃ q, Machine.run (step 1) (new 0) es = some q ∧
      Machine.trace (step 1) shows (new 0) es =
        [.call (.producer 0) (.enqueue 10), .call .consumer .tryDequeue, .ret .consumer (.dequeued (some 10)),
          .call .consumer .tryDequeue, .ret .consumer (.dequeued none), .ret (.producer 0) .enqueued] ∧
      Atomic.Linearizable perform { object := [], status := fun _ => .idle }
        (Machine.trace (step 1) shows (new 0) es) := by
  intro es
  have hrun : (Machine.run (step 1) (new 0) es).isSome := by decide
  exact ⟨_, (Option.some_get hrun).symm, rfl, queue_linearizable (Option.some_get hrun).symm⟩

end

end MPSCQueue

end CollabEditor
