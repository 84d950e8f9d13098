import CollabEditor.Server.Discipline
import CollabEditor.Server.Running

/-!
# `Server.Sending` — where messages about the members of a document come from

Operation, membership and cursor messages go to sessions through the members of a document. The handlers
send none of them: `request_sends`. The thread of a document session sends its messages to members it had
before the command, and the cursor aggregator to the members it finds: `process_sends`,
`sendCursors_sends`.

## Contents
- **Messages.** `ServerMsg.about`, `Sends`.
- **Handlers.** `Replies`, and `handleMessage_replies`.
- **Steps.** What each kind of step sends.
-/

namespace CollabEditor

open Handler MessageHandler

namespace Server

/-- From `s` to `s'`, each session has been sent messages that `P` allows. -/
def Sends (P : SessionId → ServerMsg UInt8 → Prop) (s s' : Server) : Prop :=
  ∀ k, ∃ more, (s'.clients k).sent = (s.clients k).sent ++ more ∧ ∀ msg ∈ more, P k msg

section Sends

variable {P Q : SessionId → ServerMsg UInt8 → Prop} {s t u : Server}

theorem Sends.of_sent (h : ∀ k, (t.clients k).sent = (s.clients k).sent) : Sends P s t := fun k =>
  ⟨[], by rw [List.append_nil, h], nofun⟩

theorem Sends.trans (h : Sends P s t) (h' : Sends P t u) : Sends P s u := by
  intro k
  obtain ⟨more, hmore, hP⟩ := h k
  obtain ⟨more', hmore', hP'⟩ := h' k
  refine ⟨more ++ more', by rw [hmore', hmore, List.append_assoc], fun msg hmsg => ?_⟩
  obtain hm | hm := List.mem_append.mp hmsg
  · exact hP msg hm
  · exact hP' msg hm

theorem Sends.mono (h : Sends P s t) (hPQ : ∀ k msg, P k msg → Q k msg) : Sends Q s t := by
  intro k
  obtain ⟨more, hmore, hP⟩ := h k
  exact ⟨more, hmore, fun msg hmsg => hPQ k msg (hP msg hmsg)⟩

theorem sends_setClient {i : SessionId} {c : ClientSession} (h : c.sent = (s.clients i).sent) :
    Sends P s (s.setClient i c) := by
  refine .of_sent fun k => ?_
  by_cases hk : k = i
  · rw [hk, setClient_self, h]
  · rw [setClient_of_ne s hk]

theorem sends_sendTo {i : SessionId} {msg : ServerMsg UInt8} (h : P i msg) : Sends P s (s.sendTo i msg) := by
  intro k
  unfold sendTo
  split_ifs
  · exact ⟨[], (List.append_nil _).symm, nofun⟩
  · by_cases hk : k = i
    · subst hk
      rw [setClient_self]
      refine ⟨[msg], rfl, fun m hm => ?_⟩
      rw [List.mem_singleton.mp hm]
      exact h
    · rw [setClient_of_ne s hk]
      exact ⟨[], (List.append_nil _).symm, nofun⟩

theorem sends_deliver {sends : List (SessionId × ServerMsg UInt8)} (h : ∀ p ∈ sends, P p.1 p.2) :
    Sends P s (s.deliver sends) := by
  unfold deliver
  induction sends generalizing s with
  | nil => exact .of_sent fun _ => rfl
  | cons p sends ih =>
      exact (sends_sendTo (h p (List.mem_cons_self ..))).trans (ih fun q hq => h q (List.mem_cons_of_mem p hq))

end Sends

/-! ## Handlers -/

/-- Every message that the program sends is about no document. -/
def Replies {β : Type} (p : Handler β) : Prop :=
  p.Obeys (Q := Unit) (fun _ c => ∀ i msg, c = .send i msg → msg.about = none) (fun _ _ _ => ()) (fun _ => True) ()

theorem handleMessage_replies (i : SessionId) (payload : Option Json) :
    Replies (handleMessage i payload) := by
  refine (handleMessage_disciplined i payload).map (fun _ => ()) (fun q c hc => ?_) (fun _ _ _ _ => rfl)
    (fun _ _ => trivial)
  rintro k msg rfl
  cases q with
  | free =>
      obtain hplain | hlock | ⟨_, _, hsend, habout⟩ := hc
      · cases hplain
      · cases hlock
      · cases hsend
        exact habout
  | held => cases hc
  | created d => cases hc
  | erased d => cases hc

/-! ## Steps -/

section Steps

variable {s s' : Server}

theorem exec_sends (c : Call) (s : Server) : Sends (fun _ msg => ∃ i, c = .send i msg) s (exec c s).1 := by
  cases c with
  | send i msg => exact sends_sendTo ⟨i, rfl⟩
  | setAuth i userId username color => exact sends_setClient rfl
  | setCurrentDoc i docId => exact sends_setClient rfl
  | incrementErrorCount i => exact sends_setClient rfl
  | close i => exact sends_setClient rfl
  | _ => exact .of_sent fun _ => rfl

theorem run_sends {β : Type} {p : Handler β} (h : Replies p) (s : Server) :
    Sends (fun _ msg => msg.about = none) s (p.run exec s).1 := by
  induction p generalizing s with
  | pure b => exact .of_sent fun _ => rfl
  | throw e => exact .of_sent fun _ => rfl
  | call c next ih =>
      refine Sends.trans ?_ (ih _ (h.2 _) _)
      exact (exec_sends c s).mono fun _ msg ⟨i, hc⟩ => h.1 i msg hc

/-- A request is answered with no message about a document. -/
theorem request_sends {i : SessionId} {payload : Option Json} (h : step s (.request i payload) = some s') :
    Sends (fun _ msg => msg.about = none) s s' := by
  change s.request i payload = some s' at h
  unfold request at h
  split_ifs at h
  cases h
  exact run_sends (handleMessage_replies i payload) s

theorem process_sends {ref : ℕ} (h : step s (.process ref) = some s') :
    ∃ session sends, (s.manager.objects ref).session.processNext = some (session, sends) ∧
      Sends (fun k msg => (k, msg) ∈ sends) s s' := by
  change s.process ref = some s' at h
  unfold process at h
  dsimp only at h
  split_ifs at h
  obtain ⟨r, hr, rfl⟩ := Option.map_eq_some_iff.mp h
  refine ⟨r.1, r.2, hr, ?_⟩
  exact Sends.trans (t := { s with manager := s.manager.setSession ref r.1 }) (.of_sent fun _ => rfl)
    (sends_deliver fun p hp => hp)

/-- The cursors of a document go to its members. -/
theorem sendCursors_sends {docId : UInt32} (h : step s (.sendCursors docId) = some s') :
    Sends (fun k msg => msg.about = some docId ∧ ∃ ref u user, s.manager.getSession docId = some ref ∧
      (s.manager.objects ref).session.connectedUsers.lookup u = some user ∧ user.session = some k) s s' := by
  change s.sendCursors docId = some s' at h
  unfold sendCursors at h
  dsimp only at h
  split_ifs at h
  · cases h
    exact .of_sent fun _ => rfl
  · split at h
    · cases h
      exact .of_sent fun _ => rfl
    · case _ ref href =>
        cases h
        refine sends_deliver fun p hp => ?_
        obtain ⟨user, huser, hp⟩ := List.mem_filterMap.mp hp
        obtain ⟨k, hk, rfl⟩ := Option.map_eq_some_iff.mp hp
        obtain ⟨e, he, rfl⟩ := List.mem_map.mp huser
        exact ⟨rfl, ref, e.1, e.2, href, AList.mem_lookup_iff.mpr he, hk⟩

end Steps

section Commands

variable {session : DocumentSession UInt8 SessionId} {cmd : DocCommand UInt8 SessionId}
  {p : SessionId × ServerMsg UInt8}

theorem member_of_broadcast {payload : ServerMsg UInt8} {exclude : UInt32}
    (hp : p ∈ session.broadcast payload exclude) :
    ∃ u user, u ≠ exclude ∧ session.connectedUsers.lookup u = some user ∧ user.session = some p.1 := by
  unfold DocumentSession.broadcast at hp
  obtain ⟨e, he, hp⟩ := List.mem_filterMap.mp hp
  split_ifs at hp with hexclude
  obtain ⟨k, hk, rfl⟩ := Option.map_eq_some_iff.mp hp
  exact ⟨e.1, e.2, hexclude, AList.mem_lookup_iff.mpr he, hk⟩

/-- What the processing of a command tells about a document is told to its members: a joiner is not told of
    itself, and whoever leaves is not told any more. -/
theorem processCommand_about (hp : p ∈ (session.processCommand cmd).2) {d : UInt32}
    (hd : p.2.about = some d) :
    d = session.doc.id ∧ ∃ u user, session.connectedUsers.lookup u = some user ∧ user.session = some p.1 := by
  unfold DocumentSession.processCommand at hp
  cases htype : cmd.type with
  | join =>
      rw [htype] at hp
      rw [DocumentSession.payload_of_mem_broadcast hp] at hd
      cases hd
      obtain ⟨u, user, hne, huser, hsession⟩ := member_of_broadcast hp
      change AList.lookup u (session.connectedUsers.insert _ _) = _ at huser
      rw [AList.lookup_insert_ne hne] at huser
      exact ⟨rfl, u, user, huser, hsession⟩
  | leave =>
      rw [htype] at hp
      rw [DocumentSession.payload_of_mem_broadcast hp] at hd
      cases hd
      obtain ⟨u, user, _, huser, hsession⟩ := member_of_broadcast hp
      change AList.lookup u (session.connectedUsers.erase cmd.userId) = _ at huser
      by_cases hu : u = cmd.userId
      · rw [hu, AList.lookup_erase] at huser
        cases huser
      · rw [AList.lookup_erase_ne hu] at huser
        exact ⟨rfl, u, user, huser, hsession⟩
  | operation =>
      rw [htype] at hp
      change p ∈ (session.handleOperation cmd).2 at hp
      obtain ⟨_, _, happly⟩ | ⟨doc', op', happly, _, _, _, _, _, hid, _⟩ :=
        session.doc.applyWithOt_cases cmd.operation
      · rw [DocumentSession.handleOperation_error happly] at hp
        rw [DocumentSession.payload_of_mem_sendToUser hp] at hd
        cases hd
      · rw [DocumentSession.handleOperation_ok happly] at hp
        obtain hp | hp := List.mem_append.mp hp
        · rw [DocumentSession.payload_of_mem_sendToUser hp] at hd
          cases hd
        · rw [DocumentSession.payload_of_mem_broadcast hp] at hd
          cases hd
          obtain ⟨u, user, _, huser, hsession⟩ := member_of_broadcast hp
          exact ⟨hid, u, user, huser, hsession⟩
  | delete =>
      rw [htype] at hp
      rw [DocumentSession.payload_of_mem_broadcast hp] at hd
      cases hd
  | shutdown =>
      rw [htype] at hp
      cases hp

end Commands

end Server

end CollabEditor
