import CollabEditor.Client.OTController
import CollabEditor.Lib.Machine
import Mathlib.Data.List.Forall2

/-!
# `Client.Dispatch` — what becomes of local operations

A local operation is sent at once or waits in the buffer, and every broadcast rewrites what waits. `Traced` is
a controller together with the operations that were typed, the messages that were sent and the acknowledgements
that were received. Over any sequence of local batches and messages from the server no slot fails, the state
label tells what is pending and buffered, and each operation typed is found again, in order, among the messages
and the buffer.

## Contents
- **Rewriting.** `Carried`, `Rewritten`; `broadcastLoop_carries`: what a broadcast of any length does.
- **Traces.** `Traced`, its events and `step`.
- **The invariant.** `Dispatching`, kept by every event; `typedIn` and `acksIn`; `dispatch_in_order`.
-/

namespace CollabEditor

open Diamond

variable {α : Type}

/-! ## Rewriting -/

/-- `op'` is `op` transformed against operations of other users than `u`. -/
def Carried (u : UInt32) (op op' : Operation α) : Prop :=
  ∃ hs : List (Operation α), (∀ h ∈ hs, h.userId ≠ u) ∧ op' = rebase xform op hs

/-- `op'` is a local operation `op` of user `u`, stamped with the user and a revision and then carried. -/
def Rewritten (u : UInt32) (op op' : Operation α) : Prop :=
  ∃ revision, Carried u { op with userId := u, revision := revision } op'

section Rewriting

variable {u : UInt32} {op op' op'' : Operation α}

theorem Carried.refl (u : UInt32) (op : Operation α) : Carried u op op := ⟨[], nofun, rfl⟩

theorem Carried.trans (h : Carried u op op') (h' : Carried u op' op'') : Carried u op op'' := by
  obtain ⟨hs, hother, rfl⟩ := h
  obtain ⟨hs', hother', rfl⟩ := h'
  refine ⟨hs ++ hs', ?_, (rebase_append op hs hs').symm⟩
  intro e he
  rcases List.mem_append.mp he with he | he
  · exact hother e he
  · exact hother' e he

theorem Rewritten.carry (h : Rewritten u op op') (h' : Carried u op' op'') : Rewritten u op op'' := by
  obtain ⟨revision, hc⟩ := h
  exact ⟨revision, hc.trans h'⟩

/-- Each operation that another one is carried across has been transformed once. -/
theorem evolve_carries (ops : List (Operation α)) (ho : op.userId ≠ u) :
    List.Forall₂ (Carried u) ops (evolve xform ops op).1 := by
  induction ops generalizing op with
  | nil => exact .nil
  | cons a ops ih =>
      have ho' : (xform op a).userId ≠ u := by
        rw [xform_userId]
        exact ho
      refine .cons ⟨[op], ?_, rfl⟩ (ih ho')
      intro h hh
      rw [List.mem_singleton.mp hh]
      exact ho

theorem forall₂_carried_refl (ops : List (Operation α)) : List.Forall₂ (Carried u) ops ops :=
  List.forall₂_same.mpr fun op _ => Carried.refl u op

theorem forall₂_comp {R S T : Operation α → Operation α → Prop} {as bs cs : List (Operation α)}
    (hR : List.Forall₂ R as bs) (hS : List.Forall₂ S bs cs) (h : ∀ a b c, R a b → S b c → T a c) :
    List.Forall₂ T as cs := by
  induction hR generalizing cs with
  | nil =>
      cases hS
      exact .nil
  | cons hab _ ih =>
      cases hS with
      | cons hbc hS => exact .cons (h _ _ _ hab hbc) (ih hS)

theorem forall₂_tail {R : Operation α → Operation α → Prop} {as bs : List (Operation α)}
    (h : List.Forall₂ R as bs) : List.Forall₂ R as.tail bs.tail := by
  cases h with
  | nil => exact .nil
  | cons _ h => exact h

end Rewriting

namespace OTController

section Slots

variable {c : OTController α} {u : UInt32}

/-- The state label says what is pending and buffered, and nothing else does. -/
theorem Consistent.labels (h : c.Consistent) :
    (c.state = .synchronized ↔ c.pendingOp = none ∧ c.buffer = []) ∧
      (c.state = .awaitingAck ↔ c.pendingOp ≠ none ∧ c.buffer = []) ∧
      (c.state = .awaitingAckWithBuffer ↔ c.pendingOp ≠ none ∧ c.buffer ≠ []) := by
  cases h with
  | synchronized hs hp hb => simp [hs, hp, hb]
  | awaitingAck p hs hp hb => simp [hs, hp, hb]
  | awaitingAckWithBuffer p b rest hs hp hb => simp [hs, hp, hb]

theorem Consistent.buffer_eq (h : c.Consistent) : c.buffer = c.outstanding.tail := by
  unfold outstanding
  cases h with
  | synchronized hs hp hb => simp [hp, hb]
  | awaitingAck p hs hp hb => simp [hp]
  | awaitingAckWithBuffer p b rest hs hp hb => simp [hp]

theorem Consistent.pending_length (h : c.Consistent) : c.pendingOp.toList.length = min 1 c.outstanding.length := by
  unfold outstanding
  cases h with
  | synchronized hs hp hb => simp [hp, hb]
  | awaitingAck p hs hp hb => simp [hp, hb]
  | awaitingAckWithBuffer p b rest hs hp hb => simp [hp]

/-- **A broadcast of any number of operations** sends nothing and carries the buffer. -/
theorem broadcastLoop_carries (hc : c.Consistent) {ops : List (Operation α)} (hops : ∀ op ∈ ops, op.userId ≠ u) :
    ∃ c' effects, c.broadcastLoop ops = some (c', effects) ∧ c'.Consistent ∧ SameSession c c' ∧
      sends effects = [] ∧ c'.pendingOp.toList.length = c.pendingOp.toList.length ∧
      List.Forall₂ (Carried u) c.buffer c'.buffer := by
  induction ops generalizing c with
  | nil => exact ⟨c, [], rfl, hc, .refl c, rfl, rfl, forall₂_carried_refl c.buffer⟩
  | cons op ops ih =>
      obtain ⟨c₁, effects₁, hone, hc₁, hsame₁, -, hout, hsends₁⟩ := receiveOperation_spec hc op
      obtain ⟨c₂, effects₂, hloop, hc₂, hsame₂, hsends₂, hpending, hbuffer⟩ :=
        ih hc₁ fun op' h' => hops op' (List.mem_cons_of_mem op h')
      refine ⟨c₂, effects₁ ++ effects₂, ?_, hc₂, hsame₁.trans hsame₂, ?_, ?_, ?_⟩
      · rw [broadcastLoop, hone]
        show (broadcastLoop c₁ ops).bind _ = _
        rw [hloop]
        rfl
      · rw [sends_append, hsends₁, hsends₂]
        rfl
      · rw [hpending, hc₁.pending_length, hc.pending_length, hout, length_evolve]
      · have hcarried := evolve_carries c.outstanding (hops op List.mem_cons_self)
        rw [← hout] at hcarried
        have hfirst := forall₂_tail hcarried
        rw [← hc.buffer_eq, ← hc₁.buffer_eq] at hfirst
        exact forall₂_comp hfirst hbuffer fun _ _ _ => Carried.trans

theorem handleBroadcast_carries (hc : c.Consistent) (msg : OperationBroadcastMsg α) :
    ∃ c' effects, c.handleBroadcast msg = some (c', effects) ∧ c'.Consistent ∧ SameSession c c' ∧
      sends effects = [] ∧ c'.pendingOp.toList.length = c.pendingOp.toList.length ∧
      List.Forall₂ (Carried c.userId) c.buffer c'.buffer := by
  unfold handleBroadcast
  by_cases hu : msg.userId = c.userId
  · rw [if_pos hu]
    exact ⟨c, [], rfl, hc, .refl c, rfl, rfl, forall₂_carried_refl c.buffer⟩
  · rw [if_neg hu]
    have hops : ∀ op ∈ msg.ops.map (fromEntry · msg.userId msg.revision), op.userId ≠ c.userId := by
      intro op hop
      obtain ⟨entry, -, rfl⟩ := List.mem_map.mp hop
      rw [userId_fromEntry]
      exact hu
    obtain ⟨c', effects, hloop, hc', hsame, hsends, hpending, hbuffer⟩ := broadcastLoop_carries hc hops
    rw [hloop]
    refine ⟨_, _, rfl, ?_, ⟨hsame.userId, hsame.docId⟩, ?_, hpending, hbuffer⟩
    · cases hc' with
      | synchronized hs hp hb => exact .synchronized hs hp hb
      | awaitingAck p hs hp hb => exact .awaitingAck p hs hp hb
      | awaitingAckWithBuffer p b rest hs hp hb => exact .awaitingAckWithBuffer p b rest hs hp hb
    · rw [sends_append, hsends]
      rfl

end Slots

/-! ## Traces -/

/-- A controller with its past: the operations that were typed and are not no-ops, the messages that were sent,
    and how many acknowledgements of its document it has handled. -/
structure Traced (α : Type) where
  controller : OTController α
  typed      : List (Operation α) := []
  sent       : List (OperationMsg α) := []
  acks       : ℕ := 0

inductive Event (α : Type) where
  /-- `onLocalOperations`. -/
  | typed (ops : List (Operation α))
  /-- `onNetworkMessage`. -/
  | received (msg : ServerMsg α)

/-- The message is an acknowledgement for the controller's document. -/
def acknowledges (c : OTController α) : ServerMsg α → Bool
  | .operationAck msg => msg.docId = c.docId
  | _                 => false

namespace Traced

/-- One slot is called. It fails if it dereferences nothing. -/
def step (t : Traced α) : Event α → Option (Traced α)
  | .typed ops =>
      let (c, effects) := t.controller.onLocalOperations ops
      some { t with
        controller := c
        typed := t.typed ++ ops.filter fun op => !op.isNoop
        sent := t.sent ++ sends effects }
  | .received msg => (t.controller.onNetworkMessage msg).map fun (c, effects) =>
      { t with
        controller := c
        sent := t.sent ++ sends effects
        acks := t.acks + if t.controller.acknowledges msg then 1 else 0 }

/-- The operations that the editor hands over in the events, no-ops apart. -/
def typedIn (es : List (Event α)) : List (Operation α) :=
  es.flatMap fun e => match e with
    | .typed ops   => ops.filter fun op => !op.isNoop
    | .received _  => []

/-- How many of the events are acknowledgements for the document. -/
def acksIn (docId : UInt32) (es : List (Event α)) : ℕ :=
  es.countP fun e => match e with
    | .received (.operationAck msg) => msg.docId == docId
    | _                             => false

/-- As the constructor leaves it. -/
def start (userId docId revision : UInt32) (doc : LocalDocument α) : Traced α :=
  { controller := { userId := userId, docId := docId, doc := doc, revision := revision } }

/-! ## The invariant -/

/-- The operations that were sent, as they were then, and the buffer are what has become of the operations that
    were typed, and at most one message is unacknowledged. -/
structure Dispatching (u d : UInt32) (t : Traced α) : Prop where
  consistent : t.controller.Consistent
  user       : t.controller.userId = u
  document   : t.controller.docId = d
  rewritten  : ∃ ops, t.sent.map OperationMsg.ops = ops.map (fun op => [toEntry op]) ∧
    List.Forall₂ (Rewritten u) t.typed (ops ++ t.controller.buffer)
  ahead      : t.sent.length ≤ t.acks + t.controller.pendingOp.toList.length

section Dispatching

variable {u d : UInt32} {t : Traced α}

/-- **A local operation** is sent or joins the buffer. -/
theorem Dispatching.onLocalOperation (h : Dispatching u d t) {op : Operation α} (hn : op.isNoop = false) :
    Dispatching u d { t with
      controller := (t.controller.onLocalOperation op).1
      typed := t.typed ++ [op]
      sent := t.sent ++ sends (t.controller.onLocalOperation op).2.1 } := by
  obtain ⟨hc', hsame, -, -, hout, hsends⟩ := onLocalOperation_spec h.consistent hn
  obtain ⟨ops, hsent, hrewritten⟩ := h.rewritten
  have hstamp : Rewritten u op (t.controller.stamp op) := by
    refine ⟨t.controller.revision, [], nofun, ?_⟩
    rw [← h.user]
    rfl
  have hbuffer := hc'.buffer_eq
  have hpending := hc'.pending_length
  have hahead := h.ahead
  rw [h.consistent.pending_length] at hahead
  rw [hout] at hbuffer hpending
  have hold := h.consistent.buffer_eq
  refine ⟨hc', hsame.userId.trans h.user, hsame.docId.trans h.document, ?_, ?_⟩
  · cases hempty : t.controller.outstanding with
    | nil =>
        -- it is the only one, and sent
        rw [hempty] at hbuffer hsends hold
        refine ⟨ops ++ [t.controller.stamp op], ?_, ?_⟩
        · rw [List.map_append, hsent, hsends, List.map_append]
          rfl
        · rw [hold, List.tail_nil, List.append_nil] at hrewritten
          rw [hbuffer, List.nil_append, List.tail_cons, List.append_nil]
          exact List.rel_append hrewritten (.cons hstamp .nil)
    | cons p rest =>
        rw [hempty] at hbuffer hsends hold
        refine ⟨ops, ?_, ?_⟩
        · rw [hsends]
          simpa using hsent
        · rw [hbuffer, List.cons_append, List.tail_cons, ← List.append_assoc]
          rw [hold, List.tail_cons] at hrewritten
          exact List.rel_append hrewritten (.cons hstamp .nil)
  · show (t.sent ++ sends (t.controller.onLocalOperation op).2.1).length ≤ t.acks + _
    rw [hpending, hsends, List.length_append]
    cases hempty : t.controller.outstanding with
    | nil =>
        rw [hempty] at hahead
        simpa using hahead
    | cons p rest =>
        rw [hempty] at hahead
        simpa using hahead

/-- **A batch**, with no-ops among it. -/
theorem Dispatching.localLoop (h : Dispatching u d t) (ops : List (Operation α)) :
    Dispatching u d { t with
      controller := (t.controller.localLoop ops).1
      typed := t.typed ++ ops.filter fun op => !op.isNoop
      sent := t.sent ++ sends (t.controller.localLoop ops).2.1 } := by
  induction ops generalizing t with
  | nil =>
      simp only [OTController.localLoop, List.filter_nil, sends_nil, List.append_nil]
      exact h
  | cons op ops ih =>
      simp only [OTController.localLoop]
      cases hn : op.isNoop with
      | true =>
          rw [onLocalOperation_noop hn, List.filter_cons_of_neg (by simp [hn])]
          exact ih h
      | false =>
          have hrest := ih (h.onLocalOperation hn)
          rw [List.filter_cons_of_pos (by simp [hn]), sends_append]
          simpa [List.append_assoc] using hrest

/-- **A broadcast** rewrites the buffer. -/
theorem Dispatching.handleBroadcast (h : Dispatching u d t) (msg : OperationBroadcastMsg α) :
    ∃ c' effects, t.controller.handleBroadcast msg = some (c', effects) ∧
      Dispatching u d { t with controller := c', sent := t.sent ++ sends effects } := by
  obtain ⟨c', effects, heq, hc', hsame, hsends, hpending, hbuffer⟩ := handleBroadcast_carries h.consistent msg
  obtain ⟨ops, hsent, hrewritten⟩ := h.rewritten
  refine ⟨c', effects, heq, hc', hsame.userId.trans h.user, hsame.docId.trans h.document, ⟨ops, ?_, ?_⟩, ?_⟩
  · rw [hsends, List.append_nil]
    exact hsent
  · rw [h.user] at hbuffer
    have hcarried := List.rel_append (forall₂_carried_refl (u := u) ops) hbuffer
    exact forall₂_comp hrewritten hcarried fun _ _ _ => Rewritten.carry
  · show (t.sent ++ sends effects).length ≤ t.acks + c'.pendingOp.toList.length
    rw [hsends, List.append_nil, hpending]
    exact h.ahead

/-- **An acknowledgement** sends the first operation of the buffer, if there is one. -/
theorem Dispatching.handleAck (h : Dispatching u d t) (msg : OperationAckMsg) :
    ∃ c' effects, t.controller.handleAck msg = some (c', effects) ∧
      Dispatching u d { t with controller := c', sent := t.sent ++ sends effects, acks := t.acks + 1 } := by
  obtain ⟨c', effects, heq, hc', hsame, -, -, hout, hsends⟩ := handleAck_spec h.consistent msg
  obtain ⟨ops, hsent, hrewritten⟩ := h.rewritten
  have hbuffer := hc'.buffer_eq
  have hpending := hc'.pending_length
  have hahead := h.ahead
  rw [h.consistent.pending_length] at hahead
  rw [hout, ← h.consistent.buffer_eq] at hbuffer hpending
  rw [← h.consistent.buffer_eq] at hsends
  refine ⟨c', effects, heq, hc', hsame.userId.trans h.user, hsame.docId.trans h.document, ?_, ?_⟩
  · cases hb : t.controller.buffer with
    | nil =>
        rw [hb] at hsends hbuffer hrewritten
        refine ⟨ops, ?_, ?_⟩
        · rw [hsends]
          simpa using hsent
        · rw [hbuffer]
          exact hrewritten
    | cons b rest =>
        rw [hb] at hsends hbuffer hrewritten
        refine ⟨ops ++ [b], ?_, ?_⟩
        · rw [hsends, List.map_append, hsent, List.map_append]
          rfl
        · rw [hbuffer, List.append_assoc]
          exact hrewritten
  · show (t.sent ++ sends effects).length ≤ t.acks + 1 + c'.pendingOp.toList.length
    rw [hpending, hsends, List.length_append]
    cases hb : t.controller.buffer with
    | nil =>
        have hone : (min 1 t.controller.outstanding.length) ≤ 1 := Nat.min_le_left _ _
        simp
        omega
    | cons b rest =>
        have hone : (min 1 t.controller.outstanding.length) ≤ 1 := Nat.min_le_left _ _
        simp
        omega

/-- **Every event** is handled, keeps the invariant and is recorded. -/
theorem Dispatching.step (h : Dispatching u d t) (e : Event α) :
    ∃ t', t.step e = some t' ∧ Dispatching u d t' ∧ t'.typed = t.typed ++ typedIn [e] ∧
      t'.acks = t.acks + acksIn d [e] := by
  cases e with
  | typed ops =>
      have hloop := h.localLoop ops
      rw [← sends_onLocalOperations] at hloop
      refine ⟨_, rfl, hloop, ?_, rfl⟩
      rw [typedIn, List.flatMap_singleton]
  | received msg =>
      have hnone : t.typed = t.typed ++ typedIn [.received msg] := (List.append_nil _).symm
      have hquiet : ∀ effects, sends effects = [] →
          Dispatching u d { t with sent := t.sent ++ sends effects, acks := t.acks + 0 } := by
        intro effects hsends
        rw [hsends, List.append_nil]
        exact h
      unfold Traced.step
      cases msg with
      | operationAck msg =>
          by_cases hdoc : msg.docId = t.controller.docId
          · obtain ⟨c', effects, heq, h'⟩ := h.handleAck msg
            refine ⟨_, ?_, h', hnone, ?_⟩
            · simp [onNetworkMessage, acknowledges, hdoc, heq]
            · simp [acksIn, hdoc, h.document]
          · refine ⟨_, ?_, hquiet [] rfl, hnone, ?_⟩
            · simp [onNetworkMessage, acknowledges, hdoc]
            · simp [acksIn, ← h.document, hdoc]
      | operationBroadcast msg =>
          by_cases hdoc : msg.docId = t.controller.docId
          · obtain ⟨c', effects, heq, h'⟩ := h.handleBroadcast msg
            refine ⟨_, ?_, h', hnone, rfl⟩
            simp [onNetworkMessage, acknowledges, hdoc, heq]
          · refine ⟨_, ?_, hquiet [] rfl, hnone, rfl⟩
            simp [onNetworkMessage, acknowledges, hdoc]
      | error msg =>
          refine ⟨_, rfl, hquiet (OTController.handleError msg) ?_, hnone, rfl⟩
          unfold OTController.handleError
          split_ifs <;> rfl
      | _ => exact ⟨_, rfl, hquiet [] rfl, hnone, rfl⟩

/-- **Every sequence of events** is handled and recorded. -/
theorem Dispatching.run (h : Dispatching u d t) (es : List (Event α)) :
    ∃ t', Machine.run Traced.step t es = some t' ∧ Dispatching u d t' ∧ t'.typed = t.typed ++ typedIn es ∧
      t'.acks = t.acks + acksIn d es := by
  induction es generalizing t with
  | nil => exact ⟨t, rfl, h, (List.append_nil _).symm, rfl⟩
  | cons e es ih =>
      obtain ⟨t₁, hstep, h₁, htyped₁, hacks₁⟩ := h.step e
      obtain ⟨t₂, hrest, h₂, htyped₂, hacks₂⟩ := ih h₁
      refine ⟨t₂, Machine.run_cons.mpr ⟨t₁, hstep, hrest⟩, h₂, ?_, ?_⟩
      · rw [htyped₂, htyped₁, List.append_assoc]
        unfold typedIn
        rw [← List.flatMap_append]
        rfl
      · rw [hacks₂, hacks₁, Nat.add_assoc]
        unfold acksIn
        rw [← List.countP_append]
        rfl

end Dispatching

/-- **No slot fails, the label is true, and nothing typed is lost.** Over every sequence of local batches and
    messages from the server, each state has the label of what is pending and buffered and can handle every
    further event; what was sent and what is buffered are the operations of the batches in order, each as others
    have rewritten it; and at most one more message has been sent than acknowledgements were received. -/
theorem dispatch_in_order (userId docId revision : UInt32) (doc : LocalDocument α) (es : List (Event α)) :
    ∃ t, Machine.run step (start userId docId revision doc) es = some t ∧
      ((t.controller.state = .synchronized ↔ t.controller.pendingOp = none ∧ t.controller.buffer = []) ∧
        (t.controller.state = .awaitingAck ↔ t.controller.pendingOp ≠ none ∧ t.controller.buffer = []) ∧
        (t.controller.state = .awaitingAckWithBuffer ↔
          t.controller.pendingOp ≠ none ∧ t.controller.buffer ≠ [])) ∧
      (∀ e, ∃ t', t.step e = some t') ∧
      (∃ ops, t.sent.map OperationMsg.ops = ops.map (fun op => [toEntry op]) ∧
        List.Forall₂ (Rewritten userId) (typedIn es) (ops ++ t.controller.buffer)) ∧
      t.sent.length ≤ acksIn docId es + 1 ∧ t.typed = typedIn es ∧ t.acks = acksIn docId es := by
  have hstart : Dispatching userId docId (start userId docId revision doc) :=
    ⟨.synchronized rfl rfl rfl, rfl, rfl, ⟨[], rfl, .nil⟩, Nat.le_refl 0⟩
  obtain ⟨t, hr, h, htyped, hacks⟩ := hstart.run es
  have htyped : t.typed = typedIn es := htyped
  have hacks : t.acks = acksIn docId es := hacks.trans (Nat.zero_add _)
  refine ⟨t, hr, h.consistent.labels, ?_, htyped ▸ h.rewritten, ?_, htyped, hacks⟩
  · intro e
    obtain ⟨t', hstep, _⟩ := h.step e
    exact ⟨t', hstep⟩
  · have hahead := h.ahead
    have hone : t.controller.pendingOp.toList.length ≤ 1 := by
      rw [h.consistent.pending_length]
      exact Nat.min_le_left _ _
    omega

/-- Three operations and one that does nothing are typed, someone else's insertion arrives, and the first
    operation is acknowledged. -/
def dispatchRun : List (Event Char) :=
  [.typed [makeInsert 1 ['x'] 0 0, makeInsert 0 [] 0 0, makeDelete 0 1 [] 0 0],
    .received (.operationBroadcast
      { docId := 7, userId := 2, username := "b", revision := 1,
        ops := [{ op := "insert", pos := 0, text := ['y'] }] }),
    .received (.operationAck { docId := 7, revision := 2 }), .typed [makeInsert 0 ['z'] 0 0]]

/-- The deletion goes out as the insertion has shifted it, and the last operation waits for its turn. -/
theorem dispatch_in_order_shifted :
    ∃ t, Machine.run step (start 1 7 0 { content := "ab".toList, revision := 0 }) dispatchRun = some t ∧
      t.controller.state = .awaitingAckWithBuffer ∧
      t.sent.map OperationMsg.ops =
        [[{ op := "insert", pos := 1, text := ['x'] }], [{ op := "delete", pos := 1, len := 1 }]] ∧
      t.controller.buffer.map Operation.text = [['z']] ∧ t.acks = 1 ∧
      (∃ ops, t.sent.map OperationMsg.ops = ops.map (fun op => [toEntry op]) ∧
        List.Forall₂ (Rewritten 1) [makeInsert 1 ['x'] 0 0, makeDelete 0 1 [] 0 0, makeInsert 0 ['z'] 0 0]
          (ops ++ t.controller.buffer)) := by
  obtain ⟨t, hr, _, _, hrewritten, _⟩ :=
    dispatch_in_order 1 7 0 { content := "ab".toList, revision := 0 } dispatchRun
  have hstate : ∀ t' ∈ Machine.run step (start 1 7 0 { content := "ab".toList, revision := 0 }) dispatchRun,
      t'.controller.state = .awaitingAckWithBuffer ∧
      t'.sent.map OperationMsg.ops =
        [[{ op := "insert", pos := 1, text := ['x'] }], [{ op := "delete", pos := 1, len := 1 }]] ∧
      t'.controller.buffer.map Operation.text = [['z']] ∧ t'.acks = 1 := by decide
  obtain ⟨hlabel, hsent, hbuffer, hacks⟩ := hstate t hr
  exact ⟨t, hr, hlabel, hsent, hbuffer, hacks, hrewritten⟩

end Traced

end OTController

end CollabEditor
