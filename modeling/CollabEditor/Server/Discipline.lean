import CollabEditor.Server.MessageHandler

/-!
# `Server.Discipline` — what every handler keeps to

The handlers take the manager's lock around the sections of `create_document`, `delete_document` and
`list_documents`, change its tables only there, and send no message that is meant for the members of a
document. `Phase.allows` says so call by call, and `handleMessage_disciplined` that every handler keeps to
it.

## Contents
- **Phases.** `Phase`, `Phase.allows`, `Phase.move`, `Disciplined`.
- **Handlers.** One lemma for each.
-/

namespace CollabEditor

open Handler MessageHandler

/-- The document whose members a message is sent to. -/
def ServerMsg.about : ServerMsg UInt8 → Option UInt32
  | .operationBroadcast msg => some msg.docId
  | .userJoined msg         => some msg.docId
  | .userLeft msg           => some msg.docId
  | .cursorBroadcast msg    => some msg.docId
  | _                       => none

/-- The call neither sends nor belongs to the sections of the manager's lock, where alone an owner is set. -/
def Call.plain : Call → Bool
  | .grant _ _ role => role ≠ .owner
  | .send _ _ | .lock | .unlock | .allocate _ | .writeFiles _ _ | .eraseEntries _ | .removeFiles _ => false
  | _ => true

/-! ## Phases -/

/-- Where a handler is with respect to the manager's lock. -/
inductive Phase where
  | free
  /-- It holds the lock. -/
  | held
  /-- It holds the lock and has made document `d`. -/
  | created (d : UInt32)
  /-- It holds the lock and has erased document `d`, whose rights are still there. -/
  | erased (d : UInt32)
  deriving DecidableEq

/-- The calls a handler makes in a phase. -/
def Phase.allows : Phase → Call → Prop
  | .free, c => c.plain = true ∨ c = .lock ∨ ∃ i msg, c = .send i msg ∧ msg.about = none
  | .held, .allocate _ | .held, .eraseEntries _ | .held, .removeFiles _ | .held, .unlock => True
  | .held, .listDocumentsForUser _ | .held, .listed _ | .held, .getRole _ _ => True
  | .created d, .grant d' _ _ => d' = d
  | .created _, .writeFiles _ _ | .created _, .unlock => True
  | .erased d, .revokeAllForDocument d' => d' = d
  | _, _ => False

/-- The phase after a call. -/
def Phase.move : Phase → (c : Call) → c.Result → Phase
  | .free, .lock, _ => .held
  | .held, .allocate _, docId => .created docId
  | .held, .eraseEntries d, _ => .erased d
  | .erased _, .revokeAllForDocument _, _ => .held
  | _, .unlock, _ => .free
  | q, _, _ => q

theorem Phase.move_plain {c : Call} (h : c.plain = true) (r : c.Result) : Phase.free.move c r = .free := by
  cases c with
  | lock => cases h
  | _ => rfl

/-- The handler is free when it starts and when it ends, and keeps to the discipline. -/
def Disciplined {β : Type} (p : Handler β) : Prop := p.Obeys Phase.allows Phase.move (· = .free) .free

/-! ## Handlers -/

section Handlers

variable {β γ : Type}

theorem Disciplined.pure (b : β) : Disciplined (Prog.pure b : Handler β) := rfl

theorem Disciplined.throw (e : JsonException) : Disciplined (Prog.throw e : Handler β) := rfl

theorem Disciplined.bind {p : Handler β} {f : β → Handler γ} (h : Disciplined p)
    (hf : ∀ b, Disciplined (f b)) : Disciplined (p >>= f) := by
  refine Prog.Obeys.bind h (fun _ hq => hq) fun b q hq => ?_
  rw [hq]
  exact hf b

theorem Disciplined.ite {c : Prop} [Decidable c] {p q : Handler β} (hp : Disciplined p) (hq : Disciplined q) :
    Disciplined (if c then p else q) := by
  split_ifs
  · exact hp
  · exact hq

theorem Disciplined.ofExcept (x : Except JsonException β) : Disciplined (Prog.ofExcept x) := by
  cases x with
  | ok b => exact .pure b
  | error e => exact .throw e

theorem disciplined_call (c : Call) (h : c.plain = true) : Disciplined (Handler.call c) := by
  refine ⟨.inl h, fun r => ?_⟩
  rw [Phase.move_plain h r]
  rfl

theorem disciplined_sendMsg (i : SessionId) {msg : ServerMsg UInt8} (h : msg.about = none) :
    Disciplined (sendMsg i msg) := by
  unfold sendMsg
  exact .ite ⟨.inr (.inr ⟨i, msg, rfl, h⟩), fun _ => rfl⟩ (.throw _)

theorem disciplined_sendError (i : SessionId) (code message : String) : Disciplined (sendError i code message) := by
  unfold sendError
  refine (disciplined_sendMsg i rfl).bind fun _ => .ite ?_ (.pure _)
  refine (disciplined_call _ rfl).bind fun count => .ite ?_ (.pure _)
  exact disciplined_call _ rfl

theorem disciplined_roleToString (docId userId : UInt32) : Disciplined (roleToString docId userId) := by
  unfold roleToString
  refine (disciplined_call _ rfl).bind fun role => ?_
  split
  · exact .pure _
  · exact .pure _
  · exact .pure _
  · exact .pure _

theorem disciplined_authRequest (i : SessionId) (j : Json) : Disciplined (handleAuthRequest i j) := by
  unfold handleAuthRequest
  refine (Disciplined.ofExcept _).bind fun msg => .ite (disciplined_sendError i _ _) ?_
  have hanswer : ∀ result : AuthResult, Disciplined (if result.success = true then do
      setAuth i result.userId msg.username (← generateColor result.userId)
      sendMsg i (.authResponse { success := true, userId := result.userId })
    else
      sendMsg i (.authResponse
        { success := false,
          error := if result.error = "duplicate_username" then "username_taken" else result.error })) := by
    intro result
    refine .ite ?_ (disciplined_sendMsg i rfl)
    refine (disciplined_call _ rfl).bind fun color => (disciplined_call _ rfl).bind fun _ => ?_
    exact disciplined_sendMsg i rfl
  refine .ite ?_ ?_
  · exact (disciplined_call _ rfl).bind hanswer
  · exact (disciplined_call _ rfl).bind hanswer

/-- The loop of `list_documents`, under the lock. -/
theorem obeys_listEntries (userId : UInt32) (docIds : List UInt32) {next : List DocListEntry → Handler β}
    (hnext : ∀ entries, (next entries).Obeys Phase.allows Phase.move (· = .free) .held) :
    ((listEntries userId docIds).bind next).Obeys Phase.allows Phase.move (· = .free) .held := by
  induction docIds generalizing next with
  | nil => exact hnext []
  | cons docId docIds ih =>
      have hrest : ∀ f : List DocListEntry → Handler (List DocListEntry),
          (∀ entries, ((f entries).bind next).Obeys Phase.allows Phase.move (· = .free) .held) →
          (((listEntries userId docIds).bind f).bind next).Obeys Phase.allows Phase.move (· = .free) .held := by
        intro f hf
        rw [Prog.bind_assoc]
        exact ih hf
      unfold listEntries roleToString
      refine ⟨trivial, fun entry => ⟨trivial, fun role => ?_⟩⟩
      cases role with
      | none => exact hrest _ fun entries => hnext _
      | some role =>
          cases role with
          | owner => exact hrest _ fun entries => hnext _
          | editor => exact hrest _ fun entries => hnext _
          | viewer => exact hrest _ fun entries => hnext _

theorem disciplined_listDocuments (userId : UInt32) : Disciplined (listDocuments userId) := by
  unfold listDocuments
  refine ⟨.inr (.inl rfl), fun _ => ⟨trivial, fun docIds => ?_⟩⟩
  exact obeys_listEntries userId docIds fun entries => ⟨trivial, fun _ => rfl⟩

theorem disciplined_createDocument (title : String) (ownerId : UInt32) :
    Disciplined (Handler.createDocument title ownerId) := by
  unfold Handler.createDocument
  refine ⟨.inr (.inl rfl), fun _ => ⟨trivial, fun docId => ⟨rfl, fun _ => ⟨trivial, fun _ => ?_⟩⟩⟩⟩
  exact ⟨trivial, fun _ => rfl⟩

theorem disciplined_deleteDocument (docId : UInt32) : Disciplined (Handler.deleteDocument docId) := by
  unfold Handler.deleteDocument
  refine ⟨.inr (.inl rfl), fun _ => ⟨trivial, fun _ => ⟨rfl, fun _ => ⟨trivial, fun _ => ?_⟩⟩⟩⟩
  exact ⟨trivial, fun _ => rfl⟩

theorem disciplined_docList (i : SessionId) : Disciplined (handleDocList i) := by
  unfold handleDocList
  refine (disciplined_call _ rfl).bind fun userId => (disciplined_listDocuments userId).bind fun items => ?_
  exact disciplined_sendMsg i rfl

theorem disciplined_docCreate (i : SessionId) (j : Json) : Disciplined (handleDocCreate i j) := by
  unfold handleDocCreate
  refine (Disciplined.ofExcept _).bind fun title => (disciplined_call _ rfl).bind fun userId => ?_
  exact (disciplined_createDocument title userId).bind fun docId => disciplined_sendMsg i rfl

theorem disciplined_getDocument (docId : UInt32) : Disciplined (Handler.getDocument docId) := by
  unfold Handler.getDocument
  refine (disciplined_call _ rfl).bind fun found => ?_
  split
  · exact .pure _
  · refine (disciplined_call _ rfl).bind fun loaded => ?_
    split
    · exact .pure _
    · exact (disciplined_call _ rfl).bind fun ref => .pure _

theorem disciplined_docJoin (i : SessionId) (j : Json) : Disciplined (handleDocJoin i j) := by
  unfold handleDocJoin
  refine (Disciplined.ofExcept _).bind fun docId => (disciplined_call _ rfl).bind fun userId => ?_
  refine (disciplined_call _ rfl).bind fun readable => .ite (disciplined_sendMsg i rfl) ?_
  refine (disciplined_getDocument docId).bind fun doc => ?_
  split
  · exact disciplined_sendMsg i rfl
  refine (disciplined_call _ rfl).bind fun session => ?_
  split
  · exact disciplined_sendMsg i rfl
  refine (disciplined_call _ rfl).bind fun userId => (disciplined_roleToString docId userId).bind fun role => ?_
  refine (disciplined_call _ rfl).bind fun content => (disciplined_call _ rfl).bind fun revision => ?_
  refine (disciplined_call _ rfl).bind fun connected => (disciplined_call _ rfl).bind fun _ => ?_
  refine (disciplined_call _ rfl).bind fun title => (disciplined_sendMsg i rfl).bind fun _ => ?_
  refine (disciplined_call _ rfl).bind fun userId => (disciplined_call _ rfl).bind fun username => ?_
  exact (disciplined_call _ rfl).bind fun color => disciplined_call _ rfl

theorem disciplined_enqueueLeave (i : SessionId) (docId : UInt32) :
    Disciplined (MessageHandler.enqueueLeave i docId) := by
  unfold MessageHandler.enqueueLeave
  refine (disciplined_call _ rfl).bind fun session => ?_
  split
  · exact .pure _
  · refine (disciplined_call _ rfl).bind fun userId => (disciplined_call _ rfl).bind fun username => ?_
    exact disciplined_call _ rfl

theorem disciplined_docLeave (i : SessionId) (j : Json) : Disciplined (handleDocLeave i j) := by
  unfold handleDocLeave
  refine (Disciplined.ofExcept _).bind fun docId => (disciplined_enqueueLeave i docId).bind fun _ => ?_
  exact (disciplined_call _ rfl).bind fun _ => disciplined_sendMsg i rfl

theorem disciplined_docDelete (i : SessionId) (j : Json) : Disciplined (handleDocDelete i j) := by
  have hdelete : ∀ docId, Disciplined (do
      Handler.deleteDocument docId
      sendMsg i (.docDeleteResponse true)) := fun docId =>
    (disciplined_deleteDocument docId).bind fun _ => disciplined_sendMsg i rfl
  unfold handleDocDelete
  refine (Disciplined.ofExcept _).bind fun docId => (disciplined_call _ rfl).bind fun userId => ?_
  refine (disciplined_call _ rfl).bind fun deletable => .ite ?_ ?_
  · exact (disciplined_sendError i _ _).bind fun _ => disciplined_sendMsg i rfl
  · refine (disciplined_call _ rfl).bind fun session => ?_
    split
    · exact hdelete docId
    · exact (disciplined_call _ rfl).bind fun _ => hdelete docId

theorem disciplined_announceRole (i : SessionId) (targetId : UInt32) (msg : DocShareRequestMsg) :
    Disciplined (announceRole i targetId msg) := by
  unfold announceRole
  refine (disciplined_sendMsg i rfl).bind fun _ => (disciplined_call _ rfl).bind fun target => ?_
  split
  · exact .pure _
  · exact (disciplined_call _ rfl).bind fun docId => .ite (disciplined_sendMsg _ rfl) (.pure _)

theorem disciplined_docShare (i : SessionId) (j : Json) : Disciplined (handleDocShare i j) := by
  unfold handleDocShare
  refine (Disciplined.ofExcept _).bind fun msg => (disciplined_call _ rfl).bind fun userId => ?_
  refine (disciplined_call _ rfl).bind fun owner => .ite (disciplined_sendError i _ _) ?_
  refine (disciplined_call _ rfl).bind fun target => ?_
  split
  · exact disciplined_sendError i _ _
  refine (disciplined_call _ rfl).bind fun userId => .ite (disciplined_sendError i _ _) ?_
  refine .ite ?_ (.ite ?_ (.ite ?_ (disciplined_sendError i _ _)))
  · exact (disciplined_call _ rfl).bind fun _ => disciplined_announceRole i _ msg
  · exact (disciplined_call _ rfl).bind fun _ => disciplined_announceRole i _ msg
  · exact (disciplined_call _ rfl).bind fun _ => disciplined_announceRole i _ msg

theorem disciplined_enqueueOperations (i : SessionId) (session : ℕ) (revision : UInt32)
    (entries : List (OpEntry UInt8)) : Disciplined (enqueueOperations i session revision entries) := by
  induction entries with
  | nil => exact .pure _
  | cons entry entries ih =>
      unfold enqueueOperations
      refine (disciplined_call _ rfl).bind fun userId => (disciplined_call _ rfl).bind fun userId' => ?_
      exact (disciplined_call _ rfl).bind fun username => (disciplined_call _ rfl).bind fun _ => ih

theorem disciplined_operation (i : SessionId) (j : Json) : Disciplined (handleOperation i j) := by
  unfold handleOperation
  refine (Disciplined.ofExcept _).bind fun msg => (disciplined_call _ rfl).bind fun docId => ?_
  refine .ite (disciplined_sendError i _ _) ((disciplined_call _ rfl).bind fun userId => ?_)
  refine (disciplined_call _ rfl).bind fun editor => .ite (disciplined_sendError i _ _) ?_
  refine .ite (disciplined_sendError i _ _) ((disciplined_call _ rfl).bind fun session => ?_)
  split
  · exact disciplined_sendError i _ _
  · exact disciplined_enqueueOperations i _ _ _

theorem disciplined_cursorUpdate (i : SessionId) (j : Json) : Disciplined (handleCursorUpdate i j) := by
  unfold handleCursorUpdate
  refine (Disciplined.ofExcept _).bind fun msg => (disciplined_call _ rfl).bind fun docId => ?_
  refine .ite (.pure _) ((disciplined_call _ rfl).bind fun session => ?_)
  split
  · exact .pure _
  · refine (disciplined_call _ rfl).bind fun userId => (disciplined_call _ rfl).bind fun username => ?_
    exact (disciplined_call _ rfl).bind fun color => disciplined_call _ rfl

theorem handleMessage_disciplined (i : SessionId) (payload : Option Json) :
    Disciplined (handleMessage i payload) := by
  have hdispatch : ∀ type j, Disciplined (dispatch i type j) := by
    intro type j
    cases type with
    | authRequest => exact disciplined_authRequest i j
    | docListRequest => exact disciplined_docList i
    | docCreateRequest => exact disciplined_docCreate i j
    | docJoinRequest => exact disciplined_docJoin i j
    | docLeaveRequest => exact disciplined_docLeave i j
    | docDeleteRequest => exact disciplined_docDelete i j
    | docShareRequest => exact disciplined_docShare i j
    | operation => exact disciplined_operation i j
    | cursorUpdate => exact disciplined_cursorUpdate i j
    | _ => exact disciplined_sendError i _ _
  have hcheck : ∀ type, Disciplined (checkAuth i type) := by
    intro type
    unfold checkAuth
    refine .ite (.pure _) ((disciplined_call _ rfl).bind fun authenticated => .ite (.pure _) ?_)
    exact (disciplined_sendError i _ _).bind fun _ => .pure _
  unfold handleMessage
  split
  · exact disciplined_sendError i _ _
  · split
    · refine (hcheck _).bind fun ok => .ite ?_ (.pure _)
      refine Prog.Obeys.tryCatch (hdispatch _ _) fun e q hq => ?_
      rw [hq]
      exact disciplined_sendError i _ _
    · exact disciplined_sendError i _ _

end Handlers

end CollabEditor

