import CollabEditor.Lib.Progress
import CollabEditor.System.Settled

/-!
# `System.Quiescence` — the system comes to rest

The channels and the command queue are emptied by the server and the clients themselves; only the users put
something new into them. `work` is how much they have left to do. A buffered operation is sent when the one before
it is acknowledged, a message becomes one command for each of its operations, and a command becomes at most one
message to each user, so each step of the server or of a client makes `work` smaller. Once the users stop, the
system comes to rest after at most `work` steps, and never earlier with a message unread (`comes_to_rest`).

## Contents
- **What is left to do.** `Event.internal`, `work`.
- **One lemma per event**: `receive_work`, `process_work`, `deliver_work`, collected in `internal_work`.
- **Nothing is stuck.** `stuck_quiet`: where none of these steps is possible, nothing is in flight.
- **Runs.** `comes_to_rest`.
-/

namespace CollabEditor

open Diamond OTController DocumentSession

variable {α : Type}

namespace System

/-! ## What is left to do -/

/-- The events that need no user. -/
def Event.internal : Event α → Prop
  | .receive _ | .process | .deliver _ => True
  | .edit _ _ | .share _ _ | .join _ | .leave _ => False

instance : (e : Event α) → Decidable e.internal
  | .receive _ | .process | .deliver _ => isTrue trivial
  | .edit _ _ | .share _ _ | .join _ | .leave _ => isFalse id

/-- The steps that the messages to the server stand for: each is read, answered if it is refused, and otherwise
    becomes commands that stand for `perCommand` steps each. -/
def upward (perCommand : ℕ) (msgs : List (OperationMsg α)) : ℕ :=
  (msgs.map fun msg => 2 + msg.ops.length * perCommand).sum

/-- The steps that one command stands for, with a message to every user. -/
def perCommand (s : System α) : ℕ := s.users.length + 1

/-- What is left to do for one user: its messages, and its operations that are still buffered. -/
def workOf (s : System α) (u : UInt32) : ℕ :=
  upward s.perCommand (s.up u) + (s.down u).length +
    (s.clients u).outstanding.tail.length * (2 + s.perCommand)

/-- **What the server and the clients have left to do.** -/
def work (s : System α) : ℕ :=
  s.session.commandQueue.length * s.perCommand + (s.users.map s.workOf).sum

section Upward

variable {n : ℕ}

theorem upward_append (msgs msgs' : List (OperationMsg α)) :
    upward n (msgs ++ msgs') = upward n msgs + upward n msgs' := by
  simp [upward]

theorem upward_cons (msg : OperationMsg α) (msgs : List (OperationMsg α)) :
    upward n (msg :: msgs) = 2 + msg.ops.length * n + upward n msgs := by
  simp [upward]

/-- What `sendOp` sends holds one operation. -/
theorem upward_sendOp (c : OTController α) (op : Operation α) :
    upward n [(c.sendOp op).throughJson] = 2 + n := by
  simp [upward, sendOp, OperationMsg.throughJson]

end Upward

section Steps

variable {s s' : System α} {t : Star.State (List α) (Operation α) UInt32} {u : UInt32}

/-- The work of a state with the same users. -/
theorem work_eq (s s' : System α) (husers : s'.users = s.users) :
    s'.work = s'.session.commandQueue.length * s.perCommand + (s.users.map s'.workOf).sum := by
  unfold work perCommand
  rw [husers]

/-- A slot of a controller that makes the work of its user smaller. -/
theorem work_react (hu : u ∈ s.users) {c : OTController α} {effects : List (Effect α)}
    {msg : ServerMsg α} {rest : List (ServerMsg α)} (hd : s.down u = msg :: rest)
    (hcost : upward s.perCommand ((sends effects).map OperationMsg.throughJson) +
        c.outstanding.tail.length * (2 + s.perCommand) ≤
      (s.clients u).outstanding.tail.length * (2 + s.perCommand)) :
    ({ s with down := Function.update s.down u rest }.react u c effects).work < s.work := by
  have hsum : (s.users.map
      ({ s with down := Function.update s.down u rest }.react u c effects).workOf).sum + 1 ≤
      (s.users.map s.workOf).sum := by
    refine Machine.sum_map_add_le hu ?_ ?_
    · simp only [workOf, perCommand, System.react, Function.update_self, upward_append, hd, List.length_cons]
      unfold perCommand at hcost
      omega
    · intro w hwu
      simp only [workOf, perCommand, System.react, Function.update_of_ne hwu, Nat.le_refl]
  show s.session.commandQueue.length * s.perCommand + _ < s.session.commandQueue.length * s.perCommand + _
  change _ + (s.users.map
      ({ s with down := Function.update s.down u rest }.react u c effects).workOf).sum < _
  omega

/-- **What a message costs its reader**: an acknowledgement sends the next operation, which is then no longer
    buffered, and nothing else sends anything. The reader handles every message that the server sends it. -/
theorem Refines.reads (h : Refines s t) (hu : u ∈ s.users) {msg : ServerMsg α} {rest : List (ServerMsg α)}
    (hd : s.down u = msg :: rest) : ∃ c effects, (s.clients u).onNetworkMessage msg = some (c, effects) ∧
      upward s.perCommand ((sends effects).map OperationMsg.throughJson) +
          c.outstanding.tail.length * (2 + s.perCommand) ≤
        (s.clients u).outstanding.tail.length * (2 + s.perCommand) := by
  have hm := h.mirrors u hu
  cases hn : msg.isNotice with
  | false =>
      obtain ⟨effects, heq, hsends⟩ := onNetworkMessage_silent (c := s.clients u) hn
      refine ⟨_, effects, heq, ?_⟩
      rw [hsends]
      simp [upward]
  | true =>
      have hincoming := hm.incoming
      rw [hd, List.filter_cons_of_pos hn] at hincoming
      obtain ⟨e, -, rfl, -⟩ := noticesFrom_cons hincoming
      by_cases he : e.userId = u
      · obtain ⟨c, effects, heq, -, -, -, -, hout, hsends⟩ := handleAck_spec hm.consistent
          { docId := s.base.id, revision := revisionAt s.base ((t.replicas u).seen + 1) }
        refine ⟨c, effects, ?_, ?_⟩
        · rw [notice, if_pos he, onNetworkMessage, if_pos hm.docId.symm]
          exact heq
        · rw [hsends, hout]
          cases htail : (s.clients u).outstanding.tail with
          | nil => simp [upward]
          | cons q qs =>
              -- the next operation leaves the buffer for the channel
              simp only [List.head?_cons, Option.map_some, Option.toList_some, List.map_singleton, upward_sendOp,
                List.tail_cons, List.length_cons, Nat.add_mul, Nat.one_mul]
              omega
      · obtain ⟨c, effects, heq, -, -, -, -, -, hout, hsends⟩ := @handleBroadcast_spec _ _ hm.consistent {
          docId := s.base.id, userId := e.userId, username := s.username e.userId,
          revision := revisionAt s.base ((t.replicas u).seen + 1), ops := [toEntry e] } _
          (by rw [hm.userId]; exact he) rfl
        refine ⟨c, effects, ?_, ?_⟩
        · rw [notice, if_neg he, onNetworkMessage, if_pos hm.docId.symm]
          exact heq
        · rw [hsends, hout, List.length_tail, List.length_tail, length_evolve]
          simp [upward]

theorem deliver_work (h : Refines s t) (hs : s.step (.deliver u) = some s') : s'.work < s.work := by
  obtain ⟨hu, msg, rest, c, effects, hd, hm, rfl⟩ := deliver_cases hs
  obtain ⟨c', effects', heq, hcost⟩ := h.reads hu hd
  rw [heq] at hm
  cases hm
  exact work_react hu hd hcost

/-- **A message to the server** becomes its commands, or is answered. -/
theorem receive_work (h : Refines s t) (hs : s.step (.receive u) = some s') : s'.work < s.work := by
  obtain ⟨msg, rest, hup, hcase⟩ := receive_cases hs
  have hu : u ∈ s.users := h.senders u (by rw [hup]; exact List.cons_ne_nil _ _)
  rcases hcase with ⟨error, -, hs'⟩ | ⟨-, hs'⟩
  · -- the answer is one message to the sender
    have hsum : (s.users.map s'.workOf).sum + 1 ≤ (s.users.map s.workOf).sum := by
      refine Machine.sum_map_add_le hu ?_ ?_
      · simp only [hs', workOf, perCommand, System.push, Function.update_self, hup, upward_cons, List.length_append,
          List.length_map, messagesTo, List.filterMap_cons, if_true, List.filterMap_nil, List.length_singleton]
        omega
      · intro w hwu
        simp only [hs', workOf, perCommand, System.push, Function.update_of_ne hwu, messagesTo,
          List.filterMap_cons, if_neg hwu.symm, List.filterMap_nil, List.map_nil, List.append_nil, Nat.le_refl]
    have hqueue : s'.session.commandQueue = s.session.commandQueue := by rw [hs']; rfl
    rw [work_eq s s' (by rw [hs']; rfl), hqueue, work]
    omega
  · have hsum : (s.users.map s'.workOf).sum + (2 + msg.ops.length * s.perCommand) ≤ (s.users.map s.workOf).sum := by
      refine Machine.sum_map_add_le hu ?_ ?_
      · simp only [hs', workOf, perCommand, Function.update_self, hup, upward_cons]
        omega
      · intro w hwu
        simp only [hs', workOf, perCommand, Function.update_of_ne hwu, Nat.le_refl]
    have hqueue : s'.session.commandQueue.length = s.session.commandQueue.length + msg.ops.length := by
      rw [hs']
      simp [operationCommands]
    rw [work_eq s s' (by rw [hs']), hqueue, Nat.add_mul, work]
    omega

/-- A user is sent at most one message for a command. -/
theorem Refines.sent_once (h : Refines s t) {cmd : DocCommand α UInt32} {rest : List (DocCommand α UInt32)}
    (hq : s.session.commandQueue = cmd :: rest) (u : UInt32) :
    (messagesTo ((s.session.setQueue rest).processCommand cmd).2 u).length ≤ 1 := by
  have htype := (h.genuine cmd (by rw [hq]; exact List.mem_cons_self)).type
  have ho : (s.session.setQueue rest).Owned id := h.owned
  rw [processCommand_operation _ htype]
  rcases s.session.doc.applyWithOt_cases cmd.operation with ⟨_, _, happ⟩ | ⟨doc, op, happ, _⟩
  · have herror : ((s.session.setQueue rest).handleOperation cmd).2 = _ := handleOperation_error happ
    rw [herror, messagesTo_sendToUser ho]
    split_ifs <;> simp
  · rw [messagesTo_handleOperation ho happ]
    split_ifs <;> simp

/-- **A command** becomes at most one message for each user. -/
theorem process_work (h : Refines s t) (hs : s.step .process = some s') : s'.work < s.work := by
  obtain ⟨cmd, rest, hq, hs'⟩ := process_cases hs
  have htype := (h.genuine cmd (by rw [hq]; exact List.mem_cons_self)).type
  have honce := h.sent_once hq
  have hsum : (s.users.map s'.workOf).sum ≤ (s.users.map s.workOf).sum + s.users.length := by
    refine Machine.sum_map_le_add fun w _ => ?_
    have hw := honce w
    simp only [hs', workOf, perCommand, System.push, List.length_append, List.length_map]
    omega
  have hqueue : s'.session.commandQueue = rest := by
    rw [hs', processCommand_operation _ htype]
    show ((s.session.setQueue rest).handleOperation cmd).1.commandQueue = rest
    rw [handleOperation_fst]
    rfl
  rw [work_eq s s' (by rw [hs']; rfl), hqueue, work, hq, List.length_cons, Nat.add_mul, Nat.one_mul]
  unfold perCommand
  omega

/-- **Every step of the server or of a client** leaves less to do. -/
theorem internal_work (h : Refines s t) {e : Event α} (he : e.internal) (hs : s.step e = some s') :
    s'.work < s.work := by
  cases e with
  | receive u => exact receive_work h hs
  | process => exact process_work h hs
  | deliver u => exact deliver_work h hs
  | edit u ops => cases he
  | share u msg => cases he
  | join u => cases he
  | leave u => cases he

/-! ## Nothing is stuck -/

/-- **Where neither the server nor a client can do anything, nothing is in flight.** -/
theorem stuck_quiet (h : Refines s t) (hstuck : ∀ e : Event α, e.internal → s.step e = none) : s.Quiet := by
  refine ⟨?_, fun u hu => ⟨?_, ?_⟩⟩
  · cases hq : s.session.commandQueue with
    | nil => rfl
    | cons cmd rest =>
        have hnone := hstuck .process trivial
        change s.process = none at hnone
        unfold process at hnone
        rw [hq] at hnone
        cases hnone
  · cases hup : s.up u with
    | nil => rfl
    | cons msg rest =>
        have hnone := hstuck (.receive u) trivial
        change s.receive u = none at hnone
        unfold receive at hnone
        rw [hup] at hnone
        dsimp only at hnone
        split at hnone <;> cases hnone
  · cases hd : s.down u with
    | nil => rfl
    | cons msg rest =>
        obtain ⟨c, effects, heq, -⟩ := h.reads hu hd
        have hnone := hstuck (.deliver u) trivial
        change s.deliver u = none at hnone
        unfold deliver at hnone
        rw [if_pos hu, hd] at hnone
        dsimp only at hnone
        rw [heq] at hnone
        cases hnone

end Steps

/-! ## Runs -/

section Runs

variable {s s' : System α} {es : List (Event α)}

/-- The counter has room for all that is left to do. -/
def Roomy (s : System α) : Prop := s.base.revision.toNat + s.log.length + s.work < 2 ^ 32

instance (s : System α) : Decidable s.Roomy := inferInstanceAs (Decidable (_ < _))

/-- A step of the server stores at most one operation. -/
theorem length_log_le {e : Event α} (he : e.internal) (hs : s.step e = some s') :
    s'.log.length ≤ s.log.length + 1 := by
  cases e with
  | receive u =>
      obtain ⟨_, _, _, ⟨_, _, rfl⟩ | ⟨_, rfl⟩⟩ := receive_cases hs
      · exact Nat.le_succ _
      · exact Nat.le_succ _
  | process =>
      obtain ⟨cmd, rest, _, rfl⟩ := process_cases hs
      have hlen := length_stored_le s.session.doc cmd
      show (s.log ++ stored s.session.doc cmd).length ≤ _
      rw [List.length_append]
      omega
  | deliver u =>
      obtain ⟨_, _, _, _, _, _, _, rfl⟩ := deliver_cases hs
      exact Nat.le_succ _
  | edit u ops => cases he
  | share u msg => cases he
  | join u => cases he
  | leave u => cases he

/-- What the system keeps on its way to rest. -/
def Settling (s : System α) : Prop :=
  (∃ t, Refines s t ∧ Star.Tracks xform Operation.userId t) ∧ s.Roomy

theorem internal_step {e : Event α} (h : s.Settling) (he : e.internal) (hs : s.step e = some s') :
    s'.Settling ∧ s'.work < s.work := by
  obtain ⟨⟨t, hr, ht⟩, hroom⟩ := h
  have hlt := internal_work hr he hs
  have hlen := length_log_le he hs
  have hroom' : s'.Roomy := by
    unfold Roomy at hroom ⊢
    rw [(step_extends hs).base]
    omega
  have hfew : s'.base.revision.toNat + s'.log.length < 2 ^ 32 := by
    unfold Roomy at hroom'
    omega
  obtain ⟨es, t', hsim⟩ := step_refines hr ht hs hfew
  exact ⟨⟨⟨t', hsim.refines, ht.run xform_userId hsim.locals hsim.run⟩, hroom'⟩, hlt⟩

/-- **The system comes to rest.** From every state that a run reaches, however the server and the clients are
    scheduled, they take at most `work` steps by themselves, they can stop only where nothing is in flight, and
    there is a schedule by which they do. Where all steps are within bounds, sound and refuse nothing, every
    user then has the server's document or has been told that it has not. -/
theorem comes_to_rest {doc : Document α} {users : List UInt32} {username : UInt32 → String}
    {findUserId : String → Option UInt32} {access : AccessControl} (hw : doc.WindowExact)
    (hr : Machine.run step (start doc users username findUserId access) es = some s) (hroom : s.Roomy) :
    (∀ es' s', (∀ e ∈ es', Event.internal e) → Machine.run step s es' = some s' →
      es'.length ≤ s.work ∧ ((∀ e : Event α, e.internal → s'.step e = none) → s'.Quiet ∧
        (Machine.Along step (fun s e => (s.WithinBounds e ∧ s.Sound e) ∧ s.Unrefused e)
          (start doc users username findUserId access) (es ++ es') → ∀ u ∈ s'.users, s'.SettledAt u))) ∧
      ∃ es' s', (∀ e ∈ es', Event.internal e) ∧ Machine.run step s es' = some s' ∧ s'.Quiet := by
  have hfew : s.base.revision.toNat + s.log.length < 2 ^ 32 := by
    unfold Roomy at hroom
    omega
  have hsettling : s.Settling :=
    ⟨run_tracks (start_refines hw users username findUserId access) Star.Tracks.init hr hfew, hroom⟩
  refine ⟨?_, ?_⟩
  · intro es' s' hes hr'
    obtain ⟨⟨⟨t, href, -⟩, -⟩, hle⟩ :=
      Machine.run_measure (μ := work) (fun _ _ _ h he hs => internal_step h he hs) hes hsettling hr'
    refine ⟨by omega, ?_⟩
    intro hstuck
    have hquiet := stuck_quiet href hstuck
    refine ⟨hquiet, ?_⟩
    intro hok u hu
    -- the whole run is sound, so the documents at its end are coherent and every wait is accounted for
    have hwhole : Machine.run step (start doc users username findUserId access) (es ++ es') = some s' :=
      Machine.run_append.mpr ⟨s, hr, hr'⟩
    obtain ⟨t', href', ht', hc'⟩ := run_sound hw hwhole (hok.mono fun _ _ hok => hok.1)
    have hanswered := run_answered (start_refines hw users username findUserId access) Star.Tracks.init
      (fun _ _ => .synchronized rfl) (hok.mono fun _ _ hok => hok.2) hwhole
      (run_few (start_few doc) hwhole (hok.mono fun _ _ hok => hok.1.2.1))
    exact (hanswered u hu).settledAt href' ht' hc' hquiet hu
  · obtain ⟨es', s', hes, hr', hstuck⟩ :=
      Machine.exists_terminal (μ := work) (fun _ _ _ h he hs => internal_step h he hs) hsettling
    obtain ⟨⟨⟨t, href, -⟩, -⟩, -⟩ :=
      Machine.run_measure (μ := work) (fun _ _ _ h he hs => internal_step h he hs) hes hsettling hr'
    exact ⟨es', s', hes, hr', stuck_quiet href hstuck⟩

/-- Three users, two of whom have typed: two operations in the channels and one in a buffer. -/
def typedRun : List (Event Char) :=
  [.edit 1 [makeInsert 1 ['x'] 0 0, makeInsert 0 ['z'] 0 0], .edit 2 [makeInsert 0 ['y'] 0 0], .receive 2, .join 3]

theorem comes_to_rest_typed :
    ∃ s, Machine.run step threeUsers typedRun = some s ∧
      (∀ es' s', (∀ e ∈ es', Event.internal e) → Machine.run step s es' = some s' →
        es'.length ≤ s.work ∧ ((∀ e : Event Char, e.internal → s'.step e = none) → s'.Quiet ∧
          (Machine.Along step (fun s e => (s.WithinBounds e ∧ s.Sound e) ∧ s.Unrefused e)
            threeUsers (typedRun ++ es') → ∀ u ∈ s'.users, s'.SettledAt u))) ∧
      ∃ es' s', (∀ e ∈ es', Event.internal e) ∧ Machine.run step s es' = some s' ∧ s'.Quiet :=
  have hrun : (Machine.run step threeUsers typedRun).isSome := by decide
  ⟨_, (Option.some_get hrun).symm, @comes_to_rest Char _ typedRun
    ((Document.create 1 "t").setContent "AB".toList) [1, 2] (fun _ => "") (fun _ => none) threeRights rfl
    (Option.some_get hrun).symm (by decide +revert)⟩

end Runs

end System

end CollabEditor
