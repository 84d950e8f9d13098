import CollabEditor.Client.DocumentListWindow
import CollabEditor.Lib.Machine
import CollabEditor.Server.MessageHandler

/-!
# `System.Joins` — attempts to join, and what becomes of them

A `JoinDesk` is the document list window of a client with the join requests that the server has not answered
yet. The user asks for documents, the server answers one of the requests with any reply that
`handle_doc_join` can send to it, and other messages come in between.

The window drops a reply that does not carry the id it is waiting for, and a refusal carries none.

## Contents
- **Replies.** `JoinReply`, and `sends_joinRequest`: the handler sends no others.
- **The machine.** `JoinDesk.step`.
- **The result.** `served_reply`, `joins_end_iff`; `refused_join`, after which no other document can be opened.
-/

namespace CollabEditor

open Handler MessageHandler

/-! ## Replies -/

/-- The replies to a request to join a document. -/
def JoinReply (docId : UInt32) : ServerMsg UInt8 → Prop
  | .docJoinResponse msg =>
      if msg.success then msg.docId = docId ∧ msg.error = ""
      else msg = { success := false, error := "access_denied" } ∨ msg = { success := false, error := "doc_not_found" }
  | .error _ => True
  | _        => False

instance (docId : UInt32) (msg : ServerMsg UInt8) : Decidable (JoinReply docId msg) := by
  unfold JoinReply
  split <;> infer_instance

/-- The message that a call sends. -/
def Call.message : Call → Option (ServerMsg UInt8)
  | .send _ msg => some msg
  | _           => none

/-- Every message that the handler sends meets `P`. -/
def Sends {β : Type} (P : ServerMsg UInt8 → Prop) (p : Handler β) : Prop :=
  p.Obeys (fun (_ : Unit) c => ∀ msg ∈ c.message, P msg) (fun q _ _ => q) (fun _ => True) ()

section Sends

variable {β γ : Type} {P : ServerMsg UInt8 → Prop}

theorem Sends.pure (b : β) : Sends P (Prog.pure b : Handler β) := trivial

theorem Sends.bind {p : Handler β} {f : β → Handler γ} (h : Sends P p) (hf : ∀ b, Sends P (f b)) :
    Sends P (p >>= f) :=
  Prog.Obeys.bind h (fun _ _ => trivial) fun b _ _ => hf b

theorem Sends.ite {c : Prop} [Decidable c] {p q : Handler β} (hp : Sends P p) (hq : Sends P q) :
    Sends P (if c then p else q) := by
  split_ifs
  · exact hp
  · exact hq

/-- A call that sends nothing. -/
theorem sends_call (c : Call) (h : c.message = none) : Sends P (Handler.call c) := by
  refine ⟨?_, fun _ => trivial⟩
  intro msg hmsg
  change msg ∈ c.message at hmsg
  rw [h] at hmsg
  cases hmsg

theorem sends_sendMsg (i : SessionId) {msg : ServerMsg UInt8} (h : P msg) : Sends P (sendMsg i msg) := by
  unfold sendMsg
  refine .ite ⟨?_, fun _ => trivial⟩ trivial
  intro msg' hmsg
  obtain rfl := Option.some.inj hmsg
  exact h

theorem sends_sendError (i : SessionId) {code message : String}
    (h : P (.error { code := code, message := message })) : Sends P (sendError i code message) := by
  unfold sendError
  refine (sends_sendMsg i h).bind fun _ => .ite ?_ (.pure _)
  refine (sends_call _ rfl).bind fun count => .ite (sends_call _ rfl) (.pure _)

end Sends

/-- `handle_doc_join` sends nothing but a reply to the request. -/
theorem sends_docJoin (i : SessionId) (docId : UInt32) :
    Sends (JoinReply docId) (handleDocJoin i (docIdRequest "doc_join_request" docId)) := by
  have hdocument : Sends (JoinReply docId) (Handler.getDocument docId) := by
    unfold Handler.getDocument
    refine (sends_call _ rfl).bind fun found => ?_
    split
    · exact .pure _
    · refine (sends_call _ rfl).bind fun loaded => ?_
      split
      · exact .pure _
      · exact (sends_call _ rfl).bind fun ref => .pure _
  have hrole : ∀ userId, Sends (JoinReply docId) (roleToString docId userId) := by
    intro userId
    unfold roleToString
    refine (sends_call _ rfl).bind fun role => ?_
    split <;> exact .pure _
  unfold handleDocJoin
  rw [docIdOf_request]
  change Sends _ ((Handler.userId i).bind _)
  refine (sends_call (.userId i) rfl).bind fun userId => (sends_call _ rfl).bind fun readable => ?_
  refine .ite (sends_sendMsg i (.inl rfl)) (hdocument.bind fun doc => ?_)
  split
  · exact sends_sendMsg i (.inr rfl)
  refine (sends_call _ rfl).bind fun session => ?_
  split
  · exact sends_sendMsg i (.inr rfl)
  refine (sends_call _ rfl).bind fun userId => (hrole userId).bind fun role => ?_
  refine (sends_call _ rfl).bind fun content => (sends_call _ rfl).bind fun revision => ?_
  refine (sends_call _ rfl).bind fun connected => (sends_call _ rfl).bind fun _ => ?_
  refine (sends_call _ rfl).bind fun title => (sends_sendMsg i ⟨rfl, rfl⟩).bind fun _ => ?_
  refine (sends_call _ rfl).bind fun userId => (sends_call _ rfl).bind fun username => ?_
  exact (sends_call _ rfl).bind fun color => sends_call _ rfl

/-- So does the dispatcher, which may refuse the request itself. -/
theorem sends_joinRequest (i : SessionId) (docId : UInt32) :
    Sends (JoinReply docId) (handleMessage i (some (docIdRequest "doc_join_request" docId))) := by
  have hauth : Sends (JoinReply docId) (checkAuth i .docJoinRequest) := by
    unfold checkAuth
    refine .ite (.pure _) ((sends_call _ rfl).bind fun known => .ite (.pure _) ?_)
    exact (sends_sendError i trivial).bind fun _ => .pure _
  change Sends _ ((checkAuth i .docJoinRequest).bind _)
  refine hauth.bind fun allowed => .ite ?_ (.pure _)
  exact Prog.Obeys.tryCatch (sends_docJoin i docId) fun e _ _ => sends_sendError i trivial

/-! ## The machine -/

/-- The window, and the ids of the joins it has requested and not been answered. -/
structure JoinDesk where
  window    : DocumentListWindow := {}
  requested : List UInt32 := []

namespace JoinDesk

inductive Event where
  /-- The user opens a document. -/
  | requestJoin (docId : UInt32)
  /-- The server answers the `n`-th request. -/
  | reply (n : ℕ) (msg : ServerMsg UInt8)
  /-- The server sends another message. -/
  | push (msg : ServerMsg UInt8)

/-- The join request that an effect sends. -/
def joinRequested : WindowEffect → Option UInt32
  | .send request =>
      if parseEnvelope (some request) = .docJoinRequest then (docIdOf request).toOption else none
  | _ => none

/-- What a slot leaves behind. -/
def after (requested : List UInt32) (result : DocumentListWindow × List WindowEffect) : JoinDesk :=
  { window := result.1, requested := requested ++ result.2.filterMap joinRequested }

/-- A message is sent if it serializes; the answer to a request is one of its replies. -/
def step (s : JoinDesk) : Event → Option JoinDesk
  | .requestJoin docId => some (after s.requested (s.window.requestJoin docId))
  | .reply n msg => match s.requested[n]?, msg.toJson with
      | some docId, .ok j =>
          if JoinReply docId msg then some (after (s.requested.eraseIdx n) (s.window.onMessageReceived (some j)))
          else none
      | _, _ => none
  | .push msg => match msg, msg.toJson with
      | .docJoinResponse _, _ => none
      | _, .ok j              => some (after s.requested (s.window.onMessageReceived (some j)))
      | _, .error _           => none

/-! ## The result -/

/-- The user is told what a reply says. -/
def Reported (msg : ServerMsg UInt8) (result : DocumentListWindow × List WindowEffect) : Prop :=
  match msg with
  | .docJoinResponse msg =>
      (msg.success = true ∧ .documentJoined msg ∈ result.2) ∨
        (msg.success = false ∧ ∃ title text, .warning title text ∈ result.2)
  | .error err => result.1.status = err.message
  | _          => True

/-- After the reply nothing is pending, the user has been told, and any document can be asked for. -/
def Ends (s : JoinDesk) : Event → Prop
  | .reply _ msg => ∃ j, msg.toJson = .ok j ∧
      let result := s.window.onMessageReceived (some j)
      result.1.pendingJoinDocId = 0 ∧ Reported msg result ∧
        ∀ docId, DocumentListWindow.Asks (result.1.requestJoin docId).2 docId
  | _ => True

/-- The reply is an error message, or nothing is pending, or it opens the pending document. -/
def Heard (s : JoinDesk) : Event → Prop
  | .reply _ (.docJoinResponse msg) =>
      s.window.pendingJoinDocId = 0 ∨ (msg.success = true ∧ msg.docId = s.window.pendingJoinDocId)
  | _ => True

instance (s : JoinDesk) : DecidablePred s.Heard := by
  intro e
  unfold Heard
  split <;> infer_instance

theorem joinReply_success {docId : UInt32} {msg : DocJoinResponseMsg UInt8}
    (h : JoinReply docId (.docJoinResponse msg)) (hs : msg.success = true) : msg.error = "" := by
  change if msg.success then msg.docId = docId ∧ msg.error = "" else _ at h
  rw [if_pos hs] at h
  exact h.2

/-- A refusal carries its error and nothing else. -/
theorem joinReply_refused {docId : UInt32} {msg : DocJoinResponseMsg UInt8}
    (h : JoinReply docId (.docJoinResponse msg)) (hs : msg.success = false) :
    msg = { success := false, error := msg.error } := by
  change if msg.success then _ else msg = _ ∨ msg = _ at h
  rw [if_neg (by rw [hs]; exact Bool.false_ne_true)] at h
  rcases h with rfl | rfl
  · rfl
  · rfl

theorem carried_joinReply {docId : UInt32} {msg : DocJoinResponseMsg UInt8} {j : Json}
    (h : JoinReply docId (.docJoinResponse msg)) (hj : msg.toJson = .ok j) :
    (Message.server (.docJoinResponse msg)).Carried := by
  change if msg.success then msg.error = "" ∧ Utf8.Valid msg.content else msg = { success := false, error := msg.error }
  split_ifs with hs
  · exact ⟨joinReply_success h hs, (toJson_ok_iff (.docJoinResponse msg)).mp ⟨j, hj⟩ hs⟩
  · exact joinReply_refused h (Bool.eq_false_iff.mpr hs)

/-- A response that is taken up ends the attempt. -/
theorem ends_response {s : JoinDesk} {n : ℕ} {msg : DocJoinResponseMsg UInt8}
    (hc : (Message.server (.docJoinResponse msg)).Carried) :
    s.Ends (.reply n (.docJoinResponse msg)) ↔
      s.window.pendingJoinDocId = 0 ∨ msg.docId = s.window.pendingJoinDocId := by
  obtain ⟨j, hj, hreceived⟩ := s.window.onMessageReceived_docJoinResponse hc
  have hends : s.Ends (.reply n (.docJoinResponse msg)) ↔
      (s.window.onMessageReceived (some j)).1.pendingJoinDocId = 0 ∧
        Reported (.docJoinResponse msg) (s.window.onMessageReceived (some j)) ∧
        ∀ docId, DocumentListWindow.Asks ((s.window.onMessageReceived (some j)).1.requestJoin docId).2 docId := by
    constructor
    · rintro ⟨j', hj', h⟩
      obtain rfl := Except.ok.inj (hj.symm.trans hj')
      exact h
    · exact fun h => ⟨j, hj, h⟩
  rw [hends, hreceived]
  by_cases hdropped : s.window.pendingJoinDocId ≠ 0 ∧ msg.docId ≠ s.window.pendingJoinDocId
  · -- the window is still waiting
    rw [if_pos hdropped]
    obtain ⟨hpending, hother⟩ := hdropped
    exact ⟨fun h => absurd h.1 hpending, fun h => h.elim (absurd · hpending) (absurd · hother)⟩
  · rw [if_neg hdropped]
    have htaken : s.window.pendingJoinDocId = 0 ∨ msg.docId = s.window.pendingJoinDocId := by tauto
    refine ⟨fun _ => htaken, fun _ => ⟨rfl, ?_, fun docId => ?_⟩⟩
    · cases hs : msg.success with
      | true => exact .inl ⟨hs, by simp⟩
      | false => exact .inr ⟨hs, "Join failed", "Could not open document (" ++ msg.error ++ ").", by simp⟩
    · exact (DocumentListWindow.requestJoin_asks _ docId).mpr rfl

theorem step_reply {s s' : JoinDesk} {n : ℕ} {msg : ServerMsg UInt8} (h : s.step (.reply n msg) = some s') :
    ∃ docId j, s.requested[n]? = some docId ∧ msg.toJson = .ok j ∧ JoinReply docId msg := by
  simp only [step] at h
  split at h
  · next docId j hn hj =>
      split_ifs at h with hreply
      exact ⟨docId, j, hn, hj, hreply⟩
  · cases h

/-- **One reply.** -/
theorem ends_iff_heard {s s' : JoinDesk} {e : Event} (h : s.step e = some s') : s.Ends e ↔ s.Heard e := by
  cases e with
  | requestJoin docId => exact Iff.rfl
  | push msg => exact Iff.rfl
  | reply n msg =>
      obtain ⟨docId, j, -, hj, hreply⟩ := step_reply h
      cases msg with
      | docJoinResponse msg =>
          rw [ends_response (carried_joinReply hreply hj)]
          constructor
          · rintro (hzero | hid)
            · exact .inl hzero
            · cases hs : msg.success with
              | true => exact .inr ⟨hs, hid⟩
              | false =>
                  -- a refusal has id 0, so that it is for the pending join only if nothing is pending
                  rw [joinReply_refused hreply hs] at hid
                  exact .inl hid.symm
          · exact fun hheard => hheard.imp_right And.right
      | error err =>
          refine ⟨fun _ => trivial, fun _ => ⟨err.toJson, rfl, ?_⟩⟩
          rw [s.window.onMessageReceived_error err]
          exact ⟨rfl, rfl, fun docId => (DocumentListWindow.requestJoin_asks _ docId).mpr rfl⟩
      | _ => cases hreply

/-- **What the server sends is a reply.** Whatever the calls of the handler return, with other workers at work in
    between, each message that it sends to answer a request is one that the desk takes, and it ends the attempt
    exactly if it is heard. -/
theorem served_reply {s : JoinDesk} {n : ℕ} {docId : UInt32} (hn : s.requested[n]? = some docId) {i k : SessionId}
    {msg : ServerMsg UInt8} {next : Unit → Handler Unit} {j : Json}
    (hsend : (handleMessage i (some (docIdRequest "doc_join_request" docId))).Continues (.call (.send k msg) next))
    (hj : msg.toJson = .ok j) :
    ∃ s', s.step (.reply n msg) = some s' ∧ (s.Ends (.reply n msg) ↔ s.Heard (.reply n msg)) := by
  obtain ⟨_, hreplies⟩ := (sends_joinRequest i docId).continues hsend
  have hreply : JoinReply docId msg := hreplies msg rfl
  have hstep : s.step (.reply n msg) =
      some (after (s.requested.eraseIdx n) (s.window.onMessageReceived (some j))) := by
    simp only [step, hn, hj, if_pos hreply]
  exact ⟨_, hstep, ends_iff_heard hstep⟩

/-- **Every attempt ends** in a run exactly if each of its replies is heard: it is an error message, or comes
    while nothing is pending, or opens the document that is pending. -/
theorem joins_end_iff {s : JoinDesk} {es : List Event} (hr : Machine.run step {} es = some s) :
    Machine.Along step Ends {} es ↔ Machine.Along step Heard {} es :=
  Machine.along_congr (fun _ _ _ h => ends_iff_heard h) hr

/-- A document is created and opened, and another one in vain, with an error message. -/
def heardRun : List Event :=
  [.push (.docListResponse []), .push (.docCreateResponse { success := true, docId := 1 }),
    .reply 0 (.docJoinResponse { success := true, docId := 1, title := "t", role := "owner" }),
    .requestJoin 2, .reply 0 (.error { code := "not_authenticated", message := "Authentication required" })]

theorem joins_end_heardRun : Machine.Along step Ends {} heardRun := by
  have hrun : (Machine.run step {} heardRun).isSome := by decide +kernel
  exact (joins_end_iff (Option.some_get hrun).symm).mpr (by decide +kernel)

/-- The user opens a document that has been deleted. -/
def refusedRun : List Event :=
  [.requestJoin 2, .reply 0 (.docJoinResponse { success := false, error := "access_denied" })]

/-- The refusal is dropped without a word, and no document can be opened any more. -/
theorem refused_join :
    ∃ s, Machine.run step {} refusedRun = some s ∧ s.requested = [] ∧ s.window.pendingJoinDocId = 2 ∧
      s.window.status = "Opening document #2…" ∧ (s.window.requestJoin 3).2 = [] := by
  have hrun : (Machine.run step {} refusedRun).isSome := by decide +kernel
  have hpending : ((Machine.run step {} refusedRun).get hrun).window.pendingJoinDocId = 2 := by
    decide +kernel +revert
  refine ⟨_, (Option.some_get hrun).symm, ?_, hpending, ?_, ?_⟩
  · clear hpending
    decide +kernel +revert
  · clear hpending
    decide +kernel +revert
  · unfold DocumentListWindow.requestJoin
    rw [if_pos (by rw [hpending]; decide)]

end JoinDesk

end CollabEditor
