import CollabEditor.System.Convergence

/-!
# `System.Settled` — no controller is left waiting

A controller with an operation under way needs an answer: the acknowledgement, or the error
`revision_too_old`, on which it gives up. `Answered` says that it has nothing under way or that the answer
is still to come, and every step keeps it unless `handle_operation` refuses a message (`step_answered`): the
controller does not react to such a refusal, whatever its state (`onNetworkMessage_refusal`). At rest a user
that has been answered has settled (`Answered.settledAt`).

## Contents
- **Answers.** `ServerMsg.answers`, `Answered`, `onNetworkMessage_refusal`.
- **What keeps a user answered**: `Answered.edit`, `Answered.received`, `author_answered`, `Answered.deliver`,
  collected in `step_answered`.
- **Runs.** `run_answered`, `Settled`, `Answered.settledAt`.
-/

namespace CollabEditor

open Diamond OTController DocumentSession

variable {α : Type}

/-- The messages on which a controller ends the wait for its pending operation. -/
def ServerMsg.answers : ServerMsg α → Bool
  | .operationAck _ => true
  | .error msg      => msg.code == "revision_too_old"
  | _               => false

def Effect.isFatal : Effect α → Bool
  | .fatalError _ => true
  | _             => false

namespace System

/-! ## Answers -/

/-- `handle_operation` turns the next message of a user into commands. -/
def Unrefused (s : System α) : Event α → Prop
  | .receive u => ∀ msg rest, s.up u = msg :: rest →
      operationRefusal (s.currentDocId u) (s.access.canEdit msg.docId u)
        (msg.docId == s.session.doc.id) msg = none
  | _ => True

instance (s : System α) : (e : Event α) → Decidable (s.Unrefused e)
  | .receive u => match h : s.up u with
    | [] => isTrue fun _ _ h' => by rw [h] at h'; cases h'
    | msg :: rest =>
        decidable_of_iff (operationRefusal (s.currentDocId u) (s.access.canEdit msg.docId u)
            (msg.docId == s.session.doc.id) msg = none)
          ⟨fun hn msg' rest' h' => by rw [h] at h'; cases h'; exact hn, fun hn => hn msg rest h⟩
  | .edit _ _ | .share _ _ | .process | .deliver _ | .join _ | .leave _ => isTrue trivial

/-- **A user's controller** waits for nothing, or its operation or the answer to it is still under way, or
    it has given up. -/
inductive Answered (s : System α) (u : UInt32) : Prop where
  | synchronized (h : (s.clients u).state = .synchronized)
  | underWay (h : s.inFlight u ≠ [])
  | answer (msg : ServerMsg α) (h : msg ∈ s.down u) (ha : msg.answers = true)
  | fatal (e : Effect α) (h : e ∈ s.emitted u) (hf : e.isFatal = true)

/-- The codes with which `handle_operation` refuses a message. -/
def refusalCodes : List String := ["not_in_document", "access_denied", "invalid_message", "doc_not_found"]

theorem code_of_operationRefusal {currentDocId : UInt32} {canEdit active : Bool} {msg : OperationMsg α}
    {error : ErrorMsg} (h : operationRefusal currentDocId canEdit active msg = some error) :
    error.code ∈ refusalCodes := by
  unfold operationRefusal at h
  split_ifs at h <;> cases h <;> decide

/-- **No refusal of `handle_operation` moves a controller**, in any state. -/
theorem onNetworkMessage_refusal (c : OTController α) {currentDocId : UInt32} {canEdit active : Bool}
    {msg : OperationMsg α} {error : ErrorMsg}
    (h : operationRefusal currentDocId canEdit active msg = some error) :
    c.onNetworkMessage (.error error) = some (c, []) := by
  have hcode : error.code ≠ "revision_too_old" := by
    intro heq
    have hmem := code_of_operationRefusal h
    rw [heq] at hmem
    exact absurd hmem (by decide)
  show some (c, handleError error) = some (c, [])
  unfold handleError
  rw [if_neg hcode]

section Steps

variable {s s' : System α} {u v : UInt32}

/-- What a step leaves of a user's situation. -/
theorem Answered.mono (h : s.Answered u)
    (hstate : (s.clients u).state = .synchronized → (s'.clients u).state = .synchronized)
    (hflight : s.inFlight u ≠ [] → s'.inFlight u ≠ [])
    (hdown : ∀ msg ∈ s.down u, msg.answers = true → msg ∈ s'.down u)
    (hemitted : s.emitted u ⊆ s'.emitted u) : s'.Answered u := by
  cases h with
  | synchronized h => exact .synchronized (hstate h)
  | underWay h => exact .underWay (hflight h)
  | answer msg h ha => exact .answer msg (hdown msg h ha) ha
  | fatal e h hf => exact .fatal e (hemitted h) hf

theorem Answered.push (h : s.Answered u) (sends : List (UInt32 × ServerMsg α)) :
    (s.push sends).Answered u :=
  h.mono id id (fun _ hmsg _ => List.mem_append_left _ hmsg) (List.Subset.refl _)

/-- A user hears of what it is sent. -/
theorem answered_of_sent {sends : List (UInt32 × ServerMsg α)} {msg : ServerMsg α}
    (h : msg ∈ messagesTo sends u) (ha : msg.throughJson.answers = true) : (s.push sends).Answered u :=
  .answer msg.throughJson (List.mem_append_right _ (List.mem_map_of_mem h)) ha

/-! ## Slots of a controller -/

/-- A step of another user's controller. -/
theorem Answered.react_other (h : s.Answered u) (hne : u ≠ v) (c : OTController α)
    (effects : List (Effect α)) (rest : List (ServerMsg α)) :
    ({ s with down := Function.update s.down v rest }.react v c effects).Answered u := by
  refine h.mono ?_ ?_ ?_ ?_
  · simp only [System.react, Function.update_of_ne hne, imp_self]
  · simp only [inFlight, System.react, Function.update_of_ne hne, imp_self]
  · simp only [System.react, Function.update_of_ne hne]
    exact fun _ hmsg _ => hmsg
  · simp only [System.react, Function.update_of_ne hne]
    exact List.Subset.refl _

theorem inFlight_react (s : System α) (u : UInt32) (c : OTController α) (effects : List (Effect α)) :
    (s.react u c effects).inFlight u = s.inFlight u ++ departing u effects := by
  simp only [inFlight, departing, System.react, Function.update_self, List.flatMap_append,
    List.append_assoc]

theorem departing_sendOp {effects : List (Effect α)} {c : OTController α} {op : Operation α}
    (h : sends effects = [c.sendOp op]) (u : UInt32) : departing u effects ≠ [] := by
  unfold departing
  rw [h, List.map_singleton, List.flatMap_singleton, received_sendOp]
  exact List.cons_ne_nil _ _

/-- A controller that had nothing outstanding sends what it is given. -/
theorem localLoop_answered {c : OTController α} (hc : c.Consistent) (u : UInt32)
    (ops : List (Operation α)) (hs : c.state = .synchronized) :
    (c.localLoop ops).1.state = .synchronized ∨ departing u (c.localLoop ops).2.1 ≠ [] := by
  induction ops with
  | nil => exact .inl hs
  | cons op ops ih =>
      cases hn : op.isNoop with
      | true =>
          simp only [localLoop, onLocalOperation_noop hn, List.nil_append]
          exact ih
      | false =>
          right
          obtain ⟨_, _, _, _, _, hsends⟩ := onLocalOperation_spec hc hn
          rw [hc.outstanding_nil.mpr hs, List.isEmpty_nil, if_pos rfl] at hsends
          have hsent := departing_sendOp hsends u
          simp only [localLoop, departing_append]
          exact List.append_ne_nil_of_left_ne_nil hsent _

theorem Answered.edit (h : s.Answered u) (hc : (s.clients v).Consistent) (ops : List (Operation α)) :
    (s.react v ((s.clients v).onLocalOperations ops).1 ((s.clients v).onLocalOperations ops).2).Answered u := by
  by_cases huv : u = v
  · subst huv
    have hkeeps : (s.inFlight u ≠ [] ∨ departing u ((s.clients u).onLocalOperations ops).2 ≠ []) →
        (s.react u ((s.clients u).onLocalOperations ops).1
          ((s.clients u).onLocalOperations ops).2).inFlight u ≠ [] := by
      rw [inFlight_react]
      rintro (hold | hnew)
      · exact List.append_ne_nil_of_left_ne_nil hold _
      · exact List.append_ne_nil_of_right_ne_nil _ hnew
    cases h with
    | synchronized h =>
        rcases localLoop_answered hc u ops h with hsync | hsent
        · refine .synchronized ?_
          simp only [System.react, Function.update_self]
          exact hsync
        · rw [← departing_onLocalOperations] at hsent
          exact .underWay (hkeeps (.inr hsent))
    | underWay h => exact .underWay (hkeeps (.inl h))
    | answer msg h ha => exact .answer msg h ha
    | fatal e h hf =>
        refine .fatal e ?_ hf
        simp only [System.react, Function.update_self]
        exact List.mem_append_left _ h
  · have hother := h.react_other huv ((s.clients v).onLocalOperations ops).1
      ((s.clients v).onLocalOperations ops).2 (s.down v)
    rw [Function.update_eq_self] at hother
    exact hother

/-- A broadcast leaves the state label alone. -/
theorem state_broadcast {c c' : OTController α} (hc : c.Consistent) {msg : OperationBroadcastMsg α}
    {entry : OpEntry α} (hu : msg.userId ≠ c.userId) (hops : msg.ops = [entry])
    {effects : List (Effect α)} (h : c.handleBroadcast msg = some (c', effects))
    (hs : c.state = .synchronized) : c'.state = .synchronized := by
  obtain ⟨_, _, heq, hc', _, _, _, _, hout, _⟩ := handleBroadcast_spec hc hu hops
  rw [heq] at h
  cases h
  rw [hc.outstanding_nil.mpr hs] at hout
  exact hc'.outstanding_nil.mp hout

/-- **A message from the server** to a client that follows the log leaves it synchronized, or with its next
    operation under way, or gives it up, or is not the answer. -/
theorem Answered.deliver {flight : List (Operation α)} {r : Star.Replica (List α) (Operation α)}
    (h : s.Answered u) (hmirrors : Mirrors s.base s.username v s.log (s.clients v) flight
      ((s.down v).filter ServerMsg.isNotice) r)
    {msg : ServerMsg α} {rest : List (ServerMsg α)} {c : OTController α} {effects : List (Effect α)}
    (hd : s.down v = msg :: rest) (hm : (s.clients v).onNetworkMessage msg = some (c, effects)) :
    ({ s with down := Function.update s.down v rest }.react v c effects).Answered u := by
  by_cases huv : u = v
  · subst huv
    have hcons := hmirrors.consistent
    have hgrows : s.inFlight u ≠ [] →
        ({ s with down := Function.update s.down u rest }.react u c effects).inFlight u ≠ [] := by
      intro hold
      rw [inFlight_react]
      exact List.append_ne_nil_of_left_ne_nil hold _
    have hemitted : s.emitted u ⊆
        ({ s with down := Function.update s.down u rest }.react u c effects).emitted u := by
      simp only [System.react, Function.update_self]
      exact List.subset_append_left _ _
    have hrest : msg.answers = false → ∀ m ∈ s.down u, m.answers = true →
        m ∈ ({ s with down := Function.update s.down u rest }.react u c effects).down u := by
      intro hno m hmem ha
      simp only [System.react, Function.update_self]
      rw [hd] at hmem
      rcases List.mem_cons.mp hmem with rfl | hmem
      · rw [ha] at hno
        cases hno
      · exact hmem
    -- the message decides: an acknowledgement, a broadcast, an error, or one without an effect
    cases hn : msg.isNotice with
    | false =>
        cases ha : msg.answers with
        | false =>
            obtain ⟨effects', heq, _⟩ := onNetworkMessage_silent (c := s.clients u) hn
            rw [heq] at hm
            cases hm
            refine h.mono ?_ hgrows (hrest ha) hemitted
            simp only [System.react, Function.update_self, imp_self]
        | true =>
            cases msg with
            | error msg =>
                -- the one error that is fatal to the client
                have hcode : msg.code = "revision_too_old" := beq_iff_eq.mp ha
                change some (s.clients u, handleError msg) = some (c, effects) at hm
                unfold handleError at hm
                rw [if_pos hcode] at hm
                cases hm
                refine .fatal (.fatalError "Document out of sync — reopen it.") ?_ rfl
                simp only [System.react, Function.update_self]
                exact List.mem_append_right _ List.mem_cons_self
            | operationAck msg => cases hn
            | _ => cases ha
    | true =>
        have hincoming := hmirrors.incoming
        rw [hd, List.filter_cons_of_pos hn] at hincoming
        obtain ⟨e, _, hnotice, _⟩ := noticesFrom_cons hincoming
        by_cases he : e.userId = u
        · -- the acknowledgement: the next operation is sent, if there is one
          rw [notice, if_pos he] at hnotice
          subst hnotice
          rw [onNetworkMessage, if_pos hmirrors.docId.symm] at hm
          obtain ⟨c', effects', heq, hc', _, _, _, hout, hsends⟩ := handleAck_spec hcons
            { docId := s.base.id, revision := revisionAt s.base (r.seen + 1) }
          rw [heq] at hm
          cases hm
          cases htail : (s.clients u).outstanding.tail with
          | nil =>
              refine .synchronized ?_
              simp only [System.react, Function.update_self]
              exact hc'.outstanding_nil.mp (hout.trans htail)
          | cons op ops =>
              rw [htail] at hsends
              refine .underWay ?_
              rw [inFlight_react]
              exact List.append_ne_nil_of_right_ne_nil _ (departing_sendOp hsends u)
        · rw [notice, if_neg he] at hnotice
          subst hnotice
          rw [onNetworkMessage, if_pos hmirrors.docId.symm] at hm
          refine h.mono ?_ hgrows (hrest rfl) hemitted
          intro hsync
          simp only [System.react, Function.update_self]
          have hne : e.userId ≠ (s.clients u).userId := by rw [hmirrors.userId]; exact he
          exact state_broadcast hcons hne rfl hm hsync
  · exact h.react_other huv c effects rest

/-! ## The server -/

/-- What moves from the channel to the queue is still in flight. -/
theorem Answered.received (h : s.Answered u) {msg : OperationMsg α} {rest : List (OperationMsg α)}
    (hup : s.up v = msg :: rest) :
    Answered { s with
      up := Function.update s.up v rest
      session := { s.session with
        commandQueue := s.session.commandQueue ++ operationCommands v (s.username v) msg } } u := by
  refine h.mono id ?_ (fun _ hmsg _ => hmsg) (List.Subset.refl _)
  by_cases huv : v = u
  · subst huv
    simp only [inFlight, Function.update_self, List.filter_append, List.map_append,
      filter_operationCommands, if_true, List.append_assoc, hup, List.flatMap_cons, imp_self]
  · simp only [inFlight, Function.update_of_ne (Ne.symm huv), List.filter_append, List.map_append,
      filter_operationCommands, if_neg huv, List.append_nil, imp_self]

theorem receive_answered (h : s.Answered u) (hok : s.Unrefused (.receive v))
    (hs : s.step (.receive v) = some s') : s'.Answered u := by
  obtain ⟨msg, rest, hup, ⟨error, hrefused, _⟩ | ⟨_, rfl⟩⟩ := receive_cases hs
  · rw [hok msg rest hup] at hrefused
    cases hrefused
  · exact h.received hup

theorem share_answered {msg : DocShareRequestMsg} (h : s.Answered u)
    (hs : s.step (.share v msg) = some s') : s'.Answered u := by
  obtain ⟨error, rfl⟩ | ⟨targetId, rfl⟩ := share_cases hs
  · exact h.push _
  · have hset : Answered { s with access := s.access.setRole msg.docId targetId msg.role } u :=
      h.mono id id (fun _ hmsg _ => hmsg) (List.Subset.refl _)
    exact hset.push _

/-- **The author of an operation hears of it**: it is acknowledged or too old. -/
theorem author_answered {session : DocumentSession α UInt32} (ho : session.Owned id)
    {cmd : DocCommand α UInt32} (htype : cmd.type = .operation)
    (hreg : session.registered cmd.userId = some cmd.userId) :
    ∃ msg ∈ messagesTo (session.processCommand cmd).2 cmd.userId, msg.throughJson.answers = true := by
  rw [processCommand_operation _ htype]
  rcases session.doc.applyWithOt_cases cmd.operation with ⟨_, _, happ⟩ | ⟨doc, op, happ, _⟩
  · refine ⟨.error { code := "revision_too_old", message := "revision_too_old" }, ?_, rfl⟩
    rw [handleOperation_error happ, messagesTo_sendToUser ho, if_pos ⟨rfl, hreg⟩]
    exact List.mem_singleton_self _
  · refine ⟨.operationAck { docId := doc.id, revision := doc.revision }, ?_, rfl⟩
    rw [messagesTo_handleOperation ho happ, id_eq, if_pos hreg, if_pos rfl]
    exact List.mem_singleton_self _

theorem process_answered {t : Star.State (List α) (Operation α) UInt32} (hr : Refines s t)
    (h : s.Answered u) (hs : s.step .process = some s') : s'.Answered u := by
  obtain ⟨cmd, rest, hq, rfl⟩ := process_cases hs
  have hgen := hr.genuine cmd (by rw [hq]; exact List.mem_cons_self)
  have ho : (s.session.setQueue rest).Owned id := hr.owned
  by_cases huc : u = cmd.userId
  · subst huc
    obtain ⟨msg, hmsg, ha⟩ := author_answered ho hgen.type (hr.registered cmd.userId hgen.user)
    exact answered_of_sent hmsg ha
  · refine Answered.push ?_ _
    refine h.mono id ?_ (fun _ hmsg _ => hmsg) (List.Subset.refl _)
    simp only [inFlight, processCommand_queue, setQueue_commandQueue, filter_rest hq huc, imp_self]

/-- A newcomer waits for nothing. -/
theorem join_answered (h : u ∈ s.users → s.Answered u) (hs : s.step (.join v) = some s') :
    u ∈ s'.users → s'.Answered u := by
  obtain ⟨_, rfl⟩ := join_cases hs
  intro hu
  refine Answered.push ?_ _
  by_cases huv : u = v
  · subst huv
    refine .synchronized ?_
    simp only [Function.update_self]
    rfl
  · refine (h ((List.mem_cons.mp hu).resolve_left huv)).mono ?_ id ?_ ?_
    · simp only [Function.update_of_ne huv, imp_self]
    · simp only [Function.update_of_ne huv]
      exact fun _ hmsg _ => hmsg
    · simp only [Function.update_of_ne huv]
      exact List.Subset.refl _

theorem leave_answered (h : u ∈ s.users → s.Answered u) (hs : s.step (.leave v) = some s') :
    u ∈ s'.users → s'.Answered u := by
  obtain ⟨_, _, rfl⟩ := leave_cases hs
  intro hu
  refine Answered.push ?_ _
  exact (h (List.mem_filter.mp hu).1).mono id id (fun _ hmsg _ => hmsg) (List.Subset.refl _)

/-- **No step that refuses nothing leaves a user without an answer.** -/
theorem step_answered {t : Star.State (List α) (Operation α) UInt32} {e : Event α} (hr : Refines s t)
    (h : ∀ u ∈ s.users, s.Answered u) (hok : s.Unrefused e) (hs : s.step e = some s') :
    ∀ u ∈ s'.users, s'.Answered u := by
  intro u hu
  cases e with
  | edit v ops =>
      obtain ⟨hv, _, rfl⟩ := edit_cases hs
      exact (h u hu).edit (hr.mirrors v hv).consistent ops
  | receive v =>
      have hu' : u ∈ s.users := by
        obtain ⟨_, _, _, ⟨_, _, rfl⟩ | ⟨_, rfl⟩⟩ := receive_cases hs
        · exact hu
        · exact hu
      exact receive_answered (h u hu') hok hs
  | share v msg =>
      have hu' : u ∈ s.users := by
        obtain ⟨_, rfl⟩ | ⟨_, rfl⟩ := share_cases hs
        · exact hu
        · exact hu
      exact share_answered (h u hu') hs
  | process =>
      have hu' : u ∈ s.users := by obtain ⟨_, _, _, rfl⟩ := process_cases hs; exact hu
      exact process_answered hr (h u hu') hs
  | deliver v =>
      obtain ⟨hv, msg, rest, c, effects, hd, hm, rfl⟩ := deliver_cases hs
      exact (h u hu).deliver (hr.mirrors v hv) hd hm
  | join v => exact join_answered (h u) hs hu
  | leave v => exact leave_answered (h u) hs hu

end Steps

/-! ## Runs -/

/-- Every run without a refusal leaves every user answered. -/
theorem run_answered {s s' : System α} {es : List (Event α)}
    {t : Star.State (List α) (Operation α) UInt32} (h : Refines s t)
    (ht : Star.Tracks xform Operation.userId t) (hu : ∀ u ∈ s.users, s.Answered u)
    (hok : Machine.Along step Unrefused s es) (hr : Machine.run step s es = some s')
    (hfew : s'.base.revision.toNat + s'.log.length < 2 ^ 32) : ∀ u ∈ s'.users, s'.Answered u := by
  induction es generalizing s t with
  | nil => cases hr; exact hu
  | cons e es ih =>
      obtain ⟨s₁, h₁, hr'⟩ := Machine.run_cons.mp hr
      obtain ⟨hok₁, hok'⟩ := (Machine.along_cons h₁).mp hok
      obtain ⟨es', t₁, hsim⟩ := step_refines h ht h₁ ((run_extends hr').few hfew)
      exact ih hsim.refines (ht.run xform_userId hsim.locals hsim.run)
        (step_answered h hu hok₁ h₁) hok' hr'

/-- A user's controller is synchronized with the server's content, or has reported a fatal error. -/
def SettledAt (s : System α) (u : UInt32) : Prop :=
  ((s.clients u).state = .synchronized ∧ s.Agrees u) ∨ ∃ e ∈ s.emitted u, e.isFatal = true

instance [DecidableEq α] (s : System α) (u : UInt32) : Decidable (s.SettledAt u) :=
  inferInstanceAs (Decidable (_ ∨ _))

/-- If nothing is in flight, every user has settled. -/
def Settled (s : System α) : Prop := s.Quiet → ∀ u ∈ s.users, s.SettledAt u

instance [DecidableEq α] (s : System α) : Decidable s.Settled := inferInstanceAs (Decidable (_ → _))

/-- At rest a user that has been answered has settled. -/
theorem Answered.settledAt {s : System α} {t : Star.State (List α) (Operation α) UInt32} {u : UInt32}
    (h : s.Answered u) (hr : Refines s t) (ht : Star.Tracks xform Operation.userId t)
    (hc : Star.Coherent apply InRange s.base.content t) (hquiet : s.Quiet) (hu : u ∈ s.users) : s.SettledAt u := by
  obtain ⟨hup, hdown⟩ := hquiet.2 u hu
  cases h with
  | synchronized hsync => exact .inl ⟨hsync, hr.agrees ht hc hu hdown hsync⟩
  | underWay hflight =>
      refine absurd ?_ hflight
      unfold inFlight
      rw [hquiet.1, hup]
      rfl
  | answer msg hmsg _ =>
      rw [hdown] at hmsg
      cases hmsg
  | fatal e he hf => exact .inr ⟨e, he, hf⟩

end System

end CollabEditor
