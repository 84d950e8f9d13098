import CollabEditor.Lib.Chain
import CollabEditor.Lib.Machine
import Mathlib.Logic.Relation

/-!
# `Core.MPSCQueue` — the lock-free queue, step by step

`MPSCQueue` under sequential consistency: every atomic load, store and compare-exchange of `enqueue`,
`try_dequeue` and `try_reclaim_` is one step, and so is every turn of the loop that deletes retired nodes. What
`try_dequeue` does to the consumer's own fields, between two atomic operations, is one step too. Nodes are at
addresses; a new one goes to any free address, so an address may be used again as soon as its node is deleted.
A step that follows a pointer to a deleted node is not enabled.

A producer is a thread. It acquires its hazard slot with its first call and keeps it.

## Contents
- **The queue.** `Node`, `ProducerPc`, `ConsumerPc`, `MPSCQueue`.
- **Steps.** `producerStep`, `consumerStep`, `step`.
- **What is claimed of them.** `accesses`: the node that the next step of a producer follows a pointer to;
  `Reachable`.
-/

namespace CollabEditor

variable {α : Type}

/-- `MPSCQueue::Node`. -/
structure Node (α : Type) where
  data        : α
  next        : Option ℕ := none
  retiredNext : Option ℕ := none
  deriving DecidableEq, Repr

/-- Where a call of `enqueue` is in its loops; it has not linked its node yet. -/
inductive LinkStage where
  | acquireSlot
  | loadTail
  | storeHazard (t : ℕ)
  | validate (t : ℕ)
  | loadNext (t : ℕ)
  | helpTail (t tNext : ℕ)
  | exchangeNext (t : ℕ)
  deriving DecidableEq, Repr

/-- Where a producer is in `enqueue`. -/
inductive ProducerPc where
  | idle
  | linking (node : ℕ) (stage : LinkStage)
  | swingTail (node t : ℕ)
  | clearHazard
  deriving DecidableEq, Repr

/-- Where the consumer is in `try_reclaim_`. -/
inductive ReclaimStage where
  | loadUsed
  | scan (used i : ℕ) (snapshot : List ℕ)
  | sweep (snapshot : List ℕ) (cur survivors : Option ℕ) (kept : ℕ)
  deriving DecidableEq, Repr

/-- Where the consumer is in `try_dequeue`; `head_` and its successor are the ones it has read. -/
inductive ConsumerPc (α : Type) where
  | idle
  | loadTail (next : ℕ)
  | exchangeTail (next : ℕ)
  | take (next : ℕ)
  | reclaim (value : α) (stage : ReclaimStage)
  deriving DecidableEq, Repr

/-- `MPSCQueue<T, MaxProducers>`, the memory its nodes are in and the threads that use it. Of the past, it
    keeps the values that each producer has enqueued, those linked and those returned. -/
structure MPSCQueue (α : Type) where
  heap         : ℕ → Option (Node α)
  tail         : ℕ
  slotsUsed    : ℕ := 0
  hazards      : ℕ → Option ℕ := fun _ => none
  head         : ℕ
  retiredHead  : Option ℕ := none
  retiredCount : ℕ := 0
  slots        : ℕ → Option ℕ := fun _ => none
  producers    : ℕ → ProducerPc := fun _ => .idle
  consumer     : ConsumerPc α := .idle
  enqueued     : ℕ → List α := fun _ => []
  linked       : List (ℕ × α) := []
  returned     : List α := []

namespace MPSCQueue

/-- The constructor, with the address of the sentinel. -/
def new [Inhabited α] (sentinel : ℕ) : MPSCQueue α :=
  { heap := Function.update (fun _ => none) sentinel (some { data := default })
    tail := sentinel
    head := sentinel }

/-- The producer `p` goes on. -/
def goto (q : MPSCQueue α) (p : ℕ) (pc : ProducerPc) : MPSCQueue α :=
  { q with producers := Function.update q.producers p pc }

/-- `hp.store(value)`, where `hp` is the slot `i`. -/
def storeHazard (q : MPSCQueue α) (i : ℕ) (value : Option ℕ) : MPSCQueue α :=
  { q with hazards := Function.update q.hazards i value }

/-- `tail_.compare_exchange_strong(expected, desired)`. -/
def exchangeTail (q : MPSCQueue α) (expected desired : ℕ) : MPSCQueue α :=
  { q with tail := if q.tail = expected then desired else q.tail }

/-- A step of `enqueue` before its node is linked. -/
def linkStep (maxProducers : ℕ) (q : MPSCQueue α) (p node : ℕ) : LinkStage → Option (MPSCQueue α)
  | .acquireSlot => match q.slots p with
      | some _ => some (q.goto p (.linking node .loadTail))
      | none =>
          if q.slotsUsed < maxProducers then
            some ({ q with
              slotsUsed := q.slotsUsed + 1
              slots := Function.update q.slots p (some q.slotsUsed) }.goto p (.linking node .loadTail))
          else none
  | .loadTail => some (q.goto p (.linking node (.storeHazard q.tail)))
  | .storeHazard t => do
      let i ← q.slots p
      return (q.storeHazard i (some t)).goto p (.linking node (.validate t))
  | .validate t => some (q.goto p (.linking node (if t = q.tail then .loadNext t else .loadTail)))
  | .loadNext t => do
      let n ← q.heap t
      match n.next with
      | some tNext => return q.goto p (.linking node (.helpTail t tNext))
      | none => return q.goto p (.linking node (.exchangeNext t))
  | .helpTail t tNext => some ((q.exchangeTail t tNext).goto p (.linking node .loadTail))
  | .exchangeNext t => do
      let n ← q.heap t
      let own ← q.heap node
      match n.next with
      | none => return { q with
          heap := Function.update q.heap t (some { n with next := some node })
          linked := q.linked ++ [(p, own.data)] }.goto p (.swingTail node t)
      | some _ => return q.goto p (.linking node .loadTail)

/-- The next step of the producer `p`. -/
def producerStep (maxProducers : ℕ) (q : MPSCQueue α) (p : ℕ) : Option (MPSCQueue α) :=
  match q.producers p with
  | .idle => none
  | .linking node stage => q.linkStep maxProducers p node stage
  | .swingTail node t => some ((q.exchangeTail t node).goto p .clearHazard)
  | .clearHazard => do
      let i ← q.slots p
      return (q.storeHazard i none).goto p .idle

/-- A call of `enqueue`: its node is new. -/
def callEnqueue (q : MPSCQueue α) (p : ℕ) (value : α) (address : ℕ) : Option (MPSCQueue α) :=
  if q.producers p = .idle ∧ (q.heap address).isNone then
    some ({ q with
      heap := Function.update q.heap address (some { data := value })
      enqueued := Function.update q.enqueued p (q.enqueued p ++ [value]) }.goto p (.linking address .acquireSlot))
  else none

/-- `try_dequeue` returns. -/
def finish (q : MPSCQueue α) (value : α) : MPSCQueue α :=
  { q with consumer := .idle, returned := q.returned ++ [value] }

/-- A step of `try_reclaim_`, in a call of `try_dequeue` that will return `value`. -/
def reclaimStep (maxProducers : ℕ) (q : MPSCQueue α) (value : α) : ReclaimStage → Option (MPSCQueue α)
  | .loadUsed => some { q with consumer := .reclaim value (.scan (min q.slotsUsed maxProducers) 0 []) }
  | .scan used i snapshot =>
      if i < used then
        some { q with consumer := .reclaim value (.scan used (i + 1) (snapshot ++ (q.hazards i).toList)) }
      else some { q with consumer := .reclaim value (.sweep snapshot q.retiredHead none 0) }
  | .sweep snapshot cur survivors kept => match cur with
      | none => some ({ q with retiredHead := survivors, retiredCount := kept }.finish value)
      | some c => do
          let n ← q.heap c
          if c ∈ snapshot then
            return { q with
              heap := Function.update q.heap c (some { n with retiredNext := survivors })
              consumer := .reclaim value (.sweep snapshot n.retiredNext (some c) (kept + 1)) }
          else
            return { q with
              heap := Function.update q.heap c none
              consumer := .reclaim value (.sweep snapshot n.retiredNext survivors kept) }

/-- `head_` moves on, and the node it leaves is retired; `2 * MaxProducers` retired nodes are enough for
    `try_reclaim_`. -/
def takeStep (maxProducers : ℕ) (q : MPSCQueue α) (next : ℕ) : Option (MPSCQueue α) := do
  let n ← q.heap next
  let h ← q.heap q.head
  let q' := { q with
    head := next
    heap := Function.update q.heap q.head (some { h with retiredNext := q.retiredHead })
    retiredHead := some q.head
    retiredCount := q.retiredCount + 1 }
  if 2 * maxProducers ≤ q'.retiredCount then return { q' with consumer := .reclaim n.data .loadUsed }
  else return q'.finish n.data

/-- The next step of the consumer. -/
def consumerStep (maxProducers : ℕ) (q : MPSCQueue α) : Option (MPSCQueue α) :=
  match q.consumer with
  | .idle => none
  | .loadTail next =>
      some { q with consumer := if q.tail = q.head then .exchangeTail next else .take next }
  | .exchangeTail next => some { q.exchangeTail q.head next with consumer := .take next }
  | .take next => q.takeStep maxProducers next
  | .reclaim value stage => q.reclaimStep maxProducers value stage

/-- A call of `try_dequeue`, up to the load of `h->next`. An empty queue returns nothing. -/
def callTryDequeue (q : MPSCQueue α) : Option (MPSCQueue α) :=
  match q.consumer with
  | .idle => do
      let h ← q.heap q.head
      match h.next with
      | none => return q
      | some next => return { q with consumer := .loadTail next }
  | _ => none

/-- What can happen: a thread calls, or takes its next step. -/
inductive Event (α : Type) where
  | enqueue (p : ℕ) (value : α) (address : ℕ)
  | producer (p : ℕ)
  | tryDequeue
  | consumer
  deriving DecidableEq, Repr

/-- One step of one thread. -/
def step (maxProducers : ℕ) (q : MPSCQueue α) : Event α → Option (MPSCQueue α)
  | .enqueue p value address => q.callEnqueue p value address
  | .producer p => q.producerStep maxProducers p
  | .tryDequeue => q.callTryDequeue
  | .consumer => q.consumerStep maxProducers

/-! ## What is claimed of them -/

/-- The node whose `next` the next step of a producer reads or exchanges. -/
def accesses : ProducerPc → Option ℕ
  | .linking _ (.loadNext t)     => some t
  | .linking _ (.exchangeNext t) => some t
  | _ => none

/-- `b` is the successor of `a`. -/
def Next (heap : ℕ → Option (Node α)) (a b : ℕ) : Prop := (heap a).bind Node.next = some b

/-- `b` is reachable from `a`. -/
def Reachable (heap : ℕ → Option (Node α)) : ℕ → ℕ → Prop := Relation.ReflTransGen (Next heap)

end MPSCQueue

end CollabEditor
