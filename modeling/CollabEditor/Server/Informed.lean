import CollabEditor.Server.Joining

/-!
# `Server.Informed` — joins whose steps are in time

If every step of a join is `Timely`, the joining session hears of each operation after its snapshot exactly
once (`joiner_caught_up`). The invariant looks at what has been sent to it after the response together with
what the session thread has still to send. `late_join_misses` has the two runs in which the `Join` command
comes too late.

## Contents
- **Turns of the session thread.** `Unreported` and `Reported`, the two kinds of turn.
- **The invariant.** `Informed`, one preservation lemma for each event.
- **The run.** `joiner_caught_up`, `late_join_misses`.
-/

namespace CollabEditor

open DocumentSession

variable {α σ : Type}

namespace Joining

section Due

variable {docId u r : UInt32} {log : List (Processed α)} {e : Processed α}

theorem due_snoc : due docId u r (log ++ [e]) =
    due docId u r log ++ if r < e.revision then (notice docId u e).toList else [] := by
  unfold due
  rw [List.filter_append, List.filterMap_append]
  by_cases h : r < e.revision
  · rw [List.filter_cons_of_pos (by simpa using h), if_pos h, List.filter_nil]
    cases hn : notice docId u e <;> simp [hn]
  · rw [List.filter_cons_of_neg (by simpa using h), if_neg h]
    rfl

theorem storedRevisions_snoc :
    storedRevisions (log ++ [e]) = storedRevisions log ++ (e.result.toOption.map fun _ => e.revision).toList := by
  unfold storedRevisions
  rw [List.filterMap_append]
  cases h : e.result.toOption <;> simp [h]

/-- Revisions without a gap stay so with the next one. -/
theorem gapless_snoc {revisions : List UInt32} {v : UInt32} (hle : r ≤ v) (hwrap : v.toNat + 1 < 2 ^ 32)
    (h : revisions.filter (r < ·) = (List.range' (r.toNat + 1) (v.toNat - r.toNat)).map UInt32.ofNat) :
    (revisions ++ [v + 1]).filter (r < ·) =
      (List.range' (r.toNat + 1) ((v + 1).toNat - r.toNat)).map UInt32.ofNat := by
  have hsucc : (v + 1).toNat = v.toNat + 1 := Word.toNat_add (by simpa using hwrap)
  rw [UInt32.le_iff_toNat_le] at hle
  have hnew : r < v + 1 := by
    rw [UInt32.lt_iff_toNat_lt, hsucc]
    omega
  have hcount : v.toNat + 1 - r.toNat = v.toNat - r.toNat + 1 := by omega
  have hlast : r.toNat + 1 + (v.toNat - r.toNat) = (v + 1).toNat := by omega
  rw [List.filter_append, h, hsucc, hcount, List.range'_1_concat, List.map_append, hlast,
    List.filter_cons_of_pos (by simpa using hnew), List.map_singleton, UInt32.ofNat_toNat]
  rfl

end Due

/-! ## Turns of the session thread -/

section Processing

variable {auth : σ → Identity} {s : DocumentSession α σ}

theorem owned_processCommand (ho : s.Owned fun i => (auth i).userId) (c : SessionCommand α σ) :
    (s.processCommand (c.toCommand auth)).1.Owned fun i => (auth i).userId := by
  intro u user hl
  cases c with
  | join i =>
      change (s.connectedUsers.insert (auth i).userId _).lookup u = some user at hl
      by_cases hu : (auth i).userId = u
      · subst hu
        rw [AList.lookup_insert] at hl
        cases hl
        exact ⟨i, rfl, rfl⟩
      · rw [AList.lookup_insert_ne (Ne.symm hu)] at hl
        exact ho u user hl
  | leave i =>
      change (s.connectedUsers.erase (auth i).userId).lookup u = some user at hl
      by_cases hu : (auth i).userId = u
      · subst hu
        rw [AList.lookup_erase] at hl
        cases hl
      · rw [AList.lookup_erase_ne (Ne.symm hu)] at hl
        exact ho u user hl
  | operation i entry revision =>
      rw [processCommand_operation _ rfl, handleOperation_fst] at hl
      exact ho u user hl

/-- A turn of the session thread leaves the document alone and reports nothing: it has taken a join, a
    leave or an operation that is too old. -/
structure Unreported (s : DocumentSession α σ) (cmd : DocCommand α σ) : Prop where
  silent   : ∀ p ∈ (s.processCommand cmd).2, p.2.isNotice = false
  revision : (s.processCommand cmd).1.doc.revision = s.doc.revision
  log      : cmd.type ≠ .operation ∧ processed s.doc cmd = [] ∨
    cmd.type = .operation ∧ ¬ s.doc.Accepts cmd.operation ∧ ∃ error, processed s.doc cmd =
      [{ userId := cmd.userId, username := cmd.username, revision := s.doc.revision,
         result := .error error }]

/-- A turn of the session thread stores an operation and reports it, to session `j` if it is registered. -/
structure Reported [DecidableEq σ] (auth : σ → Identity) (j : σ) (s : DocumentSession α σ)
    (cmd : DocCommand α σ) (e : Processed α) : Prop where
  operation  : cmd.type = .operation
  accepted   : s.doc.Accepts cmd.operation
  log        : processed s.doc cmd = [e]
  author     : e.userId = cmd.userId
  stored     : e.revision = s.doc.revision + 1 ∧ ∃ op, e.result = .ok op
  revision   : (s.processCommand cmd).1.doc.revision = s.doc.revision + 1
  sends      : messagesTo (s.processCommand cmd).2 j =
    if s.registered (auth j).userId = some j then (notice s.doc.id (auth j).userId e).toList else []

theorem processed_operation {doc doc' : Document α} {cmd : DocCommand α σ}
    {result : Except String (Operation α)} (ht : cmd.type = .operation)
    (h : doc.applyWithOt cmd.operation = (doc', result)) :
    processed doc cmd =
      [{ userId := cmd.userId, username := cmd.username, revision := doc'.revision, result := result }] := by
  unfold processed
  rw [ht, h]

theorem processCommand_cases [DecidableEq σ] (ho : s.Owned fun i => (auth i).userId) (j : σ)
    (c : SessionCommand α σ) :
    Unreported s (c.toCommand auth) ∨ ∃ e, Reported auth j s (c.toCommand auth) e := by
  cases c with
  | join i => exact .inl ⟨isNotice_join_leave s _ (.inl rfl), rfl, .inl ⟨nofun, rfl⟩⟩
  | leave i => exact .inl ⟨isNotice_join_leave s _ (.inr rfl), rfl, .inl ⟨nofun, rfl⟩⟩
  | operation i entry revision =>
      rcases s.doc.applyWithOt_cases (fromEntry entry (auth i).userId revision) with
        ⟨hpos, hold, happ⟩ | ⟨doc', op', happ, _, _, hrev, _, _, hid, _⟩
      · left
        refine ⟨?_, ?_, .inr ⟨rfl, fun h => h ⟨hpos, hold⟩, "revision_too_old", ?_⟩⟩
        · intro p hp
          rw [processCommand_operation _ rfl, handleOperation_error happ] at hp
          rw [payload_of_mem_sendToUser hp]
          rfl
        · rw [processCommand_operation _ rfl, handleOperation_fst]
          show (s.doc.applyWithOt (fromEntry entry (auth i).userId revision)).1.revision = _
          rw [happ]
        · exact processed_operation rfl happ
      · right
        refine ⟨{ userId := (auth i).userId, username := (auth i).username,
                  revision := doc'.revision, result := .ok op' },
          rfl, ?_, ?_, rfl, ⟨hrev, op', rfl⟩, ?_, ?_⟩
        · rintro ⟨hpos, hold⟩
          rw [Document.applyWithOt, if_pos ⟨hpos, hold⟩] at happ
          cases happ
        · exact processed_operation rfl happ
        · rw [processCommand_operation _ rfl, handleOperation_fst]
          show (s.doc.applyWithOt (fromEntry entry (auth i).userId revision)).1.revision = _
          rw [happ]
          exact hrev
        · rw [processCommand_operation _ rfl, messagesTo_handleOperation ho happ, hid]
          rfl

/-- The notice of a stored operation is new to everyone who has read the document before. -/
theorem notice_stored {docId u : UInt32} {e : Processed α} (he : ∃ op, e.result = .ok op) :
    ∃ msg, notice docId u e = some msg ∧ msg.noticeRevision = some e.revision ∧ msg.isNotice = true ∧
      (msg.isAck = true ↔ u = e.userId) := by
  obtain ⟨op, hop⟩ := he
  unfold notice
  rw [hop]
  by_cases hu : u = e.userId
  · simp only [if_pos hu]
    exact ⟨_, rfl, rfl, rfl, by simp [ServerMsg.isAck, hu]⟩
  · simp only [if_neg hu]
    exact ⟨_, rfl, rfl, rfl, by simp [ServerMsg.isAck, hu]⟩

/-- What a stored operation brings to session `j`. -/
theorem Reported.heard [DecidableEq σ] {j : σ} {cmd : DocCommand α σ} {e : Processed α} (h : Reported auth j s cmd e) :
    ∃ msg, notice s.doc.id (auth j).userId e = some msg ∧
      messagesTo (s.processCommand cmd).2 j = (if s.registered (auth j).userId = some j then [msg] else []) ∧
      msg.noticeRevision = some (s.doc.revision + 1) ∧ (msg.isAck = true ↔ (auth j).userId = cmd.userId) := by
  obtain ⟨msg, hmsg, hrevision, -, hack⟩ := @notice_stored _ s.doc.id (auth j).userId e h.stored.2
  refine ⟨msg, hmsg, ?_, ?_, ?_⟩
  · rw [h.sends, hmsg]
    rfl
  · rw [hrevision, h.stored.1]
  · rw [hack, h.author]

/-- An operation of its own is acknowledged to session `j`, and no other one. -/
theorem Reported.countP_isAck [DecidableEq σ] {j : σ} {cmd : DocCommand α σ} {e : Processed α}
    (h : Reported auth j s cmd e) (hown : own auth j cmd = true → s.registered (auth j).userId = some j) :
    (messagesTo (s.processCommand cmd).2 j).countP ServerMsg.isAck = if own auth j cmd = true then 1 else 0 := by
  obtain ⟨msg, -, hsends, -, hack⟩ := h.heard
  by_cases huser : cmd.userId = (auth j).userId
  · have hmine : own auth j cmd = true := decide_eq_true ⟨h.operation, huser⟩
    rw [hsends, if_pos (hown hmine), List.countP_singleton, if_pos (hack.mpr huser.symm), if_pos hmine]
  · have hforeign : ¬ own auth j cmd = true := fun hmine => huser (of_decide_eq_true hmine).2
    rw [hsends, if_neg hforeign]
    split_ifs
    · rw [List.countP_singleton, if_neg fun hacked => huser (hack.mp hacked).symm]
    · rfl

end Processing

/-! ## The invariant -/

/-- The state of a join from which the rest of its run keeps the joining session informed. -/
structure Informed (auth : σ → Identity) (j : σ) [DecidableEq σ] (t : Joining α σ) : Prop where
  owned    : t.session.Owned fun i => (auth i).userId
  queued   : ∀ cmd ∈ t.session.commandQueue, ∃ c : SessionCommand α σ, cmd = c.toCommand auth
  tasked   : ∀ cmd ∈ t.tasks.flatten,
    (∃ c : SessionCommand α σ, cmd = c.toCommand auth) ∧ own auth j cmd = true
  unasked  : t.stage.sentRevision = none → t.asked = 0 ∧ t.sentAfter = []
  logged   : ∀ e ∈ t.log, e.revision ≤ t.session.doc.revision
  waiting  : ∀ msg ∈ messagesTo t.pending j, ∀ v ∈ msg.noticeRevision, v ≤ t.session.doc.revision
  notices  : ∀ r ∈ t.stage.readRevision,
    (t.sentAfter ++ messagesTo t.pending j).filter (ServerMsg.newer r) =
      due t.session.doc.id (auth j).userId r t.log
  fresh    : ∀ r ∈ t.stage.sentRevision, ∀ msg ∈ t.sentAfter ++ messagesTo t.pending j,
    msg.isNotice = true → msg.newer r = true
  gapless  : ∀ r ∈ t.stage.readRevision, r ≤ t.session.doc.revision ∧
    (storedRevisions t.log).filter (r < ·) =
      (List.range' (r.toNat + 1) (t.session.doc.revision.toNat - r.toNat)).map UInt32.ofNat
  answered : (t.sentAfter ++ messagesTo t.pending j).countP ServerMsg.isAck + t.unprocessed auth j = t.asked

/-- One task among many does its next step. -/
theorem flatten_set {β : Type} {tasks : List (List β)} {n : ℕ} {x : β} {rest : List β}
    (h : tasks[n]? = some (x :: rest)) :
    tasks.flatten.length = (tasks.set n rest).flatten.length + 1 ∧
      ∀ y, y = x ∨ y ∈ (tasks.set n rest).flatten → y ∈ tasks.flatten := by
  induction tasks generalizing n with
  | nil => cases h
  | cons task tasks ih =>
      cases n with
      | zero =>
          cases h
          refine ⟨by simp, fun y hy => ?_⟩
          rcases hy with rfl | hy
          · simp
          · rw [List.set_cons_zero, List.flatten_cons, List.mem_append] at hy
            simp only [List.flatten_cons, List.mem_append, List.mem_cons]
            tauto
      | succ n =>
          obtain ⟨hlen, hmem⟩ := ih h
          refine ⟨by rw [List.set_cons_succ, List.flatten_cons, List.flatten_cons, List.length_append, hlen,
            List.length_append, Nat.add_assoc], fun y hy => ?_⟩
          rw [List.set_cons_succ, List.flatten_cons, List.mem_append] at hy
          rw [List.flatten_cons, List.mem_append]
          rcases hy with hyx | hyt | hyr
          · exact .inr (hmem y (.inl hyx))
          · exact .inl hyt
          · exact .inr (hmem y (.inr hyr))

section Preservation

variable [DecidableEq σ] {auth : σ → Identity} {role : String} {j : σ} {t t' : Joining α σ}

theorem Informed.enqueued (h : Informed auth j t) {c : SessionCommand α σ} (hc : Foreign auth j c) :
    Informed auth j (t.enqueued (c.toCommand auth)) where
  owned := h.owned
  queued := by
    intro cmd hcmd
    rcases List.mem_append.mp hcmd with hold | hnew
    · exact h.queued cmd hold
    · exact ⟨c, List.mem_singleton.mp hnew⟩
  tasked := h.tasked
  unasked := h.unasked
  logged := h.logged
  waiting := h.waiting
  notices := h.notices
  fresh := h.fresh
  gapless := h.gapless
  answered := by
    have hanswered := h.answered
    unfold unprocessed at hanswered ⊢
    have hqueue : (t.session.commandQueue ++ [c.toCommand auth]).countP (own auth j) =
        t.session.commandQueue.countP (own auth j) := by
      rw [List.countP_append, List.countP_singleton, hc]
      rfl
    show _ + ((t.session.commandQueue ++ [c.toCommand auth]).countP _ + _) = _
    rw [hqueue]
    exact hanswered

theorem Informed.read (h : Informed auth j t) (hs : t.read = some t') : Informed auth j t' := by
  unfold Joining.read at hs
  cases hstage : t.stage with
  | entered =>
      rw [hstage] at hs
      cases hs
      have hunasked := h.unasked (by rw [hstage]; rfl)
      refine { h with unasked := fun _ => hunasked, notices := ?_, fresh := ?_, gapless := ?_ }
      · rintro r ⟨⟩
        -- what the thread has still to report was stored before the read
        have hdue : due t.session.doc.id (auth j).userId t.session.doc.revision t.log = [] := by
          unfold due
          rw [List.filter_eq_nil_iff.mpr, List.filterMap_nil]
          intro e he
          have := h.logged e he
          simpa using this
        show (t.sentAfter ++ messagesTo t.pending j).filter _ = due _ _ _ t.log
        rw [hdue, hunasked.2, List.nil_append, List.filter_eq_nil_iff]
        intro msg hmsg
        unfold ServerMsg.newer
        cases hv : msg.noticeRevision with
        | none => simp
        | some v => simpa using h.waiting msg hmsg v hv
      · rintro r ⟨⟩
      · rintro r ⟨⟩
        refine ⟨UInt32.le_refl _, ?_⟩
        show (storedRevisions t.log).filter _ = _
        rw [Nat.sub_self, List.range'_zero, List.map_nil, List.filter_eq_nil_iff]
        intro v hv
        unfold storedRevisions at hv
        obtain ⟨e, he, hev⟩ := List.mem_filterMap.mp hv
        obtain ⟨_, _, rfl⟩ := Option.map_eq_some_iff.mp hev
        simpa using h.logged e he
  | _ => rw [hstage] at hs; cases hs

theorem Informed.respond (h : Informed auth j t) (hok : t.Timely auth j .respond)
    (hs : t.respond role = some t') : Informed auth j t' := by
  unfold Joining.respond at hs
  cases hstage : t.stage with
  | read content revision =>
      rw [hstage] at hs
      cases hs
      have hunasked := h.unasked (by rw [hstage]; rfl)
      have hread : revision ∈ t.stage.readRevision := by rw [hstage]; rfl
      refine { h with unasked := nofun, notices := ?_, fresh := ?_, gapless := ?_ }
      · rintro r ⟨⟩
        exact h.notices revision hread
      · rintro r ⟨⟩ msg hmsg hnotice
        change msg ∈ t.sentAfter ++ messagesTo t.pending j at hmsg
        rw [hunasked.2, List.nil_append] at hmsg
        exact hok revision hread msg hmsg hnotice
      · rintro r ⟨⟩
        exact h.gapless revision hread
  | _ => rw [hstage] at hs; cases hs

theorem Informed.submit (h : Informed auth j t) (hs : t.submit auth j = some t') : Informed auth j t' := by
  unfold Joining.submit at hs
  cases hstage : t.stage with
  | responded revision =>
      rw [hstage] at hs
      cases hs
      have hread : revision ∈ t.stage.readRevision := by rw [hstage]; rfl
      have hsent : revision ∈ t.stage.sentRevision := by rw [hstage]; rfl
      have hsubmitted : Informed auth j { t with stage := .submitted revision } := by
        refine { h with unasked := nofun, notices := ?_, fresh := ?_, gapless := ?_ }
        · rintro r ⟨⟩
          exact h.notices revision hread
        · rintro r ⟨⟩
          exact h.fresh revision hsent
        · rintro r ⟨⟩
          exact h.gapless revision hread
      exact hsubmitted.enqueued rfl
  | _ => rw [hstage] at hs; cases hs

theorem Informed.operate {msg : OperationMsg α} {canEdit : Bool} (h : Informed auth j t)
    (hok : t.Timely auth j (.operate msg canEdit)) (hs : t.operate auth j msg canEdit = some t') :
    Informed auth j t' := by
  unfold Joining.operate at hs
  cases hsent : t.stage.sentRevision with
  | none => rw [hsent] at hs; cases hs
  | some revision =>
      change operationRefusal t.session.doc.id canEdit true msg = none at hok
      rw [hsent] at hs
      dsimp only at hs
      rw [hok] at hs
      cases hs
      refine { h with tasked := ?_, unasked := ?_, answered := ?_ }
      · intro cmd hcmd
        rw [List.flatten_append, List.mem_append, List.flatten_singleton] at hcmd
        rcases hcmd with hold | hnew
        · exact h.tasked cmd hold
        · obtain ⟨entry, _, rfl⟩ := List.mem_map.mp hnew
          exact ⟨⟨.operation j entry msg.revision, rfl⟩, by simp [own]⟩
      · intro hnone
        rw [hsent] at hnone
        cases hnone
      · have hanswered := h.answered
        unfold unprocessed at hanswered ⊢
        have htasks : (t.tasks ++ [operationCommands (auth j).userId (auth j).username msg]).flatten.length =
            t.tasks.flatten.length + msg.ops.length := by
          rw [List.flatten_append, List.length_append, List.flatten_singleton]
          unfold operationCommands
          rw [List.length_map]
        show _ + (_ + (t.tasks ++ [operationCommands _ _ msg]).flatten.length) = t.asked + msg.ops.length
        rw [htasks, ← hanswered]
        ac_rfl

theorem Informed.push {n : ℕ} (h : Informed auth j t) (hs : t.push n = some t') : Informed auth j t' := by
  unfold Joining.push at hs
  split at hs
  case h_2 => cases hs
  case h_1 cmd rest htask =>
      cases hs
      obtain ⟨hlen, hmem⟩ := flatten_set htask
      obtain ⟨hcmd, hown⟩ := h.tasked cmd (hmem cmd (.inl rfl))
      refine { h with queued := ?_, tasked := ?_, answered := ?_ }
      · intro cmd' hcmd'
        rcases List.mem_append.mp hcmd' with hold | hnew
        · exact h.queued cmd' hold
        · rw [List.mem_singleton.mp hnew]
          exact hcmd
      · exact fun cmd' hcmd' => h.tasked cmd' (hmem cmd' (.inr hcmd'))
      · have hanswered := h.answered
        unfold unprocessed at hanswered ⊢
        have hqueue : (t.session.commandQueue ++ [cmd]).countP (own auth j) =
            t.session.commandQueue.countP (own auth j) + 1 := by
          rw [List.countP_append, List.countP_singleton, hown, if_pos rfl]
        show _ + ((t.session.commandQueue ++ [cmd]).countP _ + (t.tasks.set n rest).flatten.length) = t.asked
        rw [hqueue, ← hanswered, hlen]
        ac_rfl

theorem filter_newer_quiet {msgs : List (ServerMsg α)} (h : ∀ msg ∈ msgs, msg.isNotice = false) (r : UInt32) :
    msgs.filter (ServerMsg.newer r) = [] :=
  List.filter_eq_nil_iff.mpr fun msg hmsg => by rw [newer_of_not_notice (h msg hmsg)]; exact Bool.false_ne_true

theorem countP_isAck_quiet {msgs : List (ServerMsg α)} (h : ∀ msg ∈ msgs, msg.isNotice = false) :
    msgs.countP ServerMsg.isAck = 0 :=
  List.countP_eq_zero.mpr fun msg hmsg => by rw [isAck_of_not_notice (h msg hmsg)]; exact Bool.false_ne_true

omit [DecidableEq σ] in
theorem process_cases (hs : t.process = some t') :
    ∃ cmd rest, t.pending = [] ∧ t.session.commandQueue = cmd :: rest ∧
      t' = { t with
        session := ((t.session.setQueue rest).processCommand cmd).1
        pending := ((t.session.setQueue rest).processCommand cmd).2
        log := t.log ++ processed t.session.doc cmd } := by
  unfold Joining.process at hs
  split at hs
  case h_1 cmd rest hpending hqueue =>
    cases hs
    exact ⟨cmd, rest, hpending, hqueue, rfl⟩
  case h_2 => cases hs

/-- A turn of the session thread that reports nothing. -/
theorem Informed.processQuiet {cmd : DocCommand α σ} {rest : List (DocCommand α σ)} (h : Informed auth j t)
    (hpending : t.pending = []) (hqueue : t.session.commandQueue = cmd :: rest)
    (hown : own auth j cmd = true → t.session.doc.Accepts cmd.operation)
    (hq : Unreported (t.session.setQueue rest) cmd) :
    Informed auth j { t with
      session := ((t.session.setQueue rest).processCommand cmd).1
      pending := ((t.session.setQueue rest).processCommand cmd).2
      log := t.log ++ processed t.session.doc cmd } := by
  obtain ⟨c, rfl⟩ := h.queued cmd (by rw [hqueue]; exact List.mem_cons_self)
  have hid := (t.session.setQueue rest).processCommand_id (c.toCommand auth)
  have hrest := (t.session.setQueue rest).processCommand_queue (c.toCommand auth)
  have howned : (t.session.setQueue rest).Owned fun i => (auth i).userId := h.owned
  have hsilent : ∀ msg ∈ messagesTo ((t.session.setQueue rest).processCommand (c.toCommand auth)).2 j,
      msg.isNotice = false := fun msg hmsg => hq.silent _ (mem_messagesTo hmsg)
  have hbefore : t.sentAfter ++ messagesTo t.pending j = t.sentAfter := by
    rw [hpending]
    exact List.append_nil _
  -- the entry of a refused operation stands for no notice and no stored revision
  have hdue : ∀ docId r, due docId (auth j).userId r (t.log ++ processed t.session.doc (c.toCommand auth)) =
      due docId (auth j).userId r t.log := by
    intro docId r
    obtain ⟨_, hlog⟩ | ⟨_, _, error, hlog⟩ := hq.log
    · change processed t.session.doc _ = [] at hlog
      rw [hlog, List.append_nil]
    · change processed t.session.doc _ = _ at hlog
      rw [hlog, due_snoc]
      split_ifs
      · exact List.append_nil _
      · exact List.append_nil _
  have hstored : storedRevisions (t.log ++ processed t.session.doc (c.toCommand auth)) =
      storedRevisions t.log := by
    obtain ⟨_, hlog⟩ | ⟨_, _, error, hlog⟩ := hq.log
    · change processed t.session.doc _ = [] at hlog
      rw [hlog, List.append_nil]
    · change processed t.session.doc _ = _ at hlog
      rw [hlog, storedRevisions_snoc]
      exact List.append_nil _
  have hnotown : own auth j (c.toCommand auth) = false := by
    by_contra htrue
    have htrue : own auth j (c.toCommand auth) = true := by simpa using htrue
    obtain ⟨hne, _⟩ | ⟨_, hnot, _⟩ := hq.log
    · exact hne (by unfold own at htrue; simpa using (of_decide_eq_true htrue).1)
    · exact hnot (hown htrue)
  refine
    { owned := owned_processCommand howned c
      queued := ?_, tasked := h.tasked, unasked := h.unasked, logged := ?_, waiting := ?_, notices := ?_,
      fresh := ?_, gapless := ?_, answered := ?_ }
  · intro cmd hcmd
    refine h.queued cmd ?_
    rw [hqueue]
    exact List.mem_cons_of_mem _ (by rw [hrest] at hcmd; exact hcmd)
  · intro e he
    show e.revision ≤ ((t.session.setQueue rest).processCommand (c.toCommand auth)).1.doc.revision
    rw [hq.revision]
    rcases List.mem_append.mp he with hold | hnew
    · exact h.logged e hold
    · obtain ⟨_, hlog⟩ | ⟨_, _, error, hlog⟩ := hq.log
      · change processed t.session.doc _ = [] at hlog
        rw [hlog] at hnew
        cases hnew
      · change processed t.session.doc _ = _ at hlog
        rw [hlog] at hnew
        cases List.mem_singleton.mp hnew
        exact UInt32.le_refl _
  · intro msg hmsg v hv
    have hnone := hsilent msg hmsg
    cases msg with
    | operationAck msg => cases hnone
    | operationBroadcast msg => cases hnone
    | _ => cases hv
  · intro r hr
    show (t.sentAfter ++ messagesTo _ j).filter _ = due _ _ _ (t.log ++ processed _ _)
    rw [hdue, List.filter_append, filter_newer_quiet hsilent, List.append_nil, hid]
    have hnotices := h.notices r hr
    rw [hbefore] at hnotices
    exact hnotices
  · intro r hr msg hmsg hnotice
    rcases List.mem_append.mp hmsg with hold | hnew
    · exact h.fresh r hr msg (List.mem_append_left _ hold) hnotice
    · rw [hsilent msg hnew] at hnotice
      cases hnotice
  · intro r hr
    show r ≤ ((t.session.setQueue rest).processCommand (c.toCommand auth)).1.doc.revision ∧
      (storedRevisions (t.log ++ processed _ _)).filter _ = _
    rw [hstored, hq.revision]
    exact h.gapless r hr
  · have hanswered := h.answered
    rw [hbefore] at hanswered
    unfold unprocessed at hanswered ⊢
    rw [hqueue, List.countP_cons, hnotown] at hanswered
    show (t.sentAfter ++ messagesTo _ j).countP _ + (_ + _) = _
    rw [List.countP_append, countP_isAck_quiet hsilent, hrest]
    exact hanswered

/-- A turn of the session thread that stores an operation and reports it in time. -/
theorem Informed.processReported {cmd : DocCommand α σ} {rest : List (DocCommand α σ)} {e : Processed α}
    (h : Informed auth j t) (hpending : t.pending = []) (hqueue : t.session.commandQueue = cmd :: rest)
    (hok : t.TakenInTime auth j cmd) (hq : Reported auth j (t.session.setQueue rest) cmd e) :
    Informed auth j { t with
      session := ((t.session.setQueue rest).processCommand cmd).1
      pending := ((t.session.setQueue rest).processCommand cmd).2
      log := t.log ++ processed t.session.doc cmd } := by
  obtain ⟨c, rfl⟩ := h.queued cmd (by rw [hqueue]; exact List.mem_cons_self)
  have hid := (t.session.setQueue rest).processCommand_id (c.toCommand auth)
  have hrest := (t.session.setQueue rest).processCommand_queue (c.toCommand auth)
  have howned : (t.session.setQueue rest).Owned fun i => (auth i).userId := h.owned
  have hlog : processed t.session.doc (c.toCommand auth) = [e] := hq.log
  obtain ⟨hwrap, hintime⟩ := hok
  have hrev : ((t.session.setQueue rest).processCommand (c.toCommand auth)).1.doc.revision =
      t.session.doc.revision + 1 := hq.revision
  have hmono : ∀ v, v ≤ t.session.doc.revision → v < t.session.doc.revision + 1 := by
    intro v hv
    have hsucc : (t.session.doc.revision + 1).toNat = t.session.doc.revision.toNat + 1 :=
      Word.toNat_add (by simpa using hwrap)
    rw [UInt32.le_iff_toNat_le] at hv
    rw [UInt32.lt_iff_toNat_lt, hsucc]
    omega
  have herev : e.revision = t.session.doc.revision + 1 := hq.stored.1
  obtain ⟨msg, hmsg, hsends, hmsgrev, -⟩ := hq.heard
  change messagesTo ((t.session.setQueue rest).processCommand (c.toCommand auth)).2 j =
    if t.session.registered (auth j).userId = some j then [msg] else [] at hsends
  change msg.noticeRevision = some (t.session.doc.revision + 1) at hmsgrev
  -- from the read on the session is registered, so it is sent the notice
  have hinformed : t.stage.readRevision.isSome →
      messagesTo ((t.session.setQueue rest).processCommand (c.toCommand auth)).2 j = [msg] := by
    intro hread
    rw [hsends]
    by_cases hown : (c.toCommand auth).userId = (auth j).userId
    · rw [if_pos hown] at hintime
      exact if_pos hintime.1
    · rw [if_neg hown] at hintime
      exact if_pos (hintime hread hq.accepted)
  have hnewer : ∀ r ≤ t.session.doc.revision, msg.newer r = true := by
    intro r hr
    unfold ServerMsg.newer
    rw [hmsgrev]
    simpa using hmono r hr
  have hbefore : t.sentAfter ++ messagesTo t.pending j = t.sentAfter := by
    rw [hpending]
    exact List.append_nil _
  refine
    { owned := owned_processCommand howned c
      queued := ?_, tasked := h.tasked, unasked := h.unasked, logged := ?_, waiting := ?_, notices := ?_,
      fresh := ?_, gapless := ?_, answered := ?_ }
  · intro cmd hcmd
    refine h.queued cmd ?_
    rw [hqueue]
    exact List.mem_cons_of_mem _ (by rw [hrest] at hcmd; exact hcmd)
  · intro e' he'
    show e'.revision ≤ ((t.session.setQueue rest).processCommand (c.toCommand auth)).1.doc.revision
    rw [hrev]
    rcases List.mem_append.mp he' with hold | hnew
    · exact UInt32.le_of_lt (hmono _ (h.logged e' hold))
    · rw [hlog] at hnew
      rw [List.mem_singleton.mp hnew, herev]
      exact UInt32.le_refl _
  · intro msg' hmsg' v hv
    show v ≤ ((t.session.setQueue rest).processCommand (c.toCommand auth)).1.doc.revision
    change msg' ∈ messagesTo ((t.session.setQueue rest).processCommand (c.toCommand auth)).2 j at hmsg'
    rw [hsends] at hmsg'
    split_ifs at hmsg'
    · rw [List.mem_singleton.mp hmsg', hmsgrev] at hv
      cases hv
      rw [hrev]
      exact UInt32.le_refl _
    · cases hmsg'
  · intro r hr
    show (t.sentAfter ++ messagesTo _ j).filter _ = due _ _ _ (t.log ++ processed _ _)
    have hle := (h.gapless r hr).1
    have hnew : r < e.revision := by
      rw [herev]
      exact hmono r hle
    have hnotices := h.notices r hr
    rw [hbefore] at hnotices
    rw [hinformed (Option.isSome_of_mem hr), hlog, due_snoc, if_pos hnew, hid, List.filter_append, hnotices,
      List.filter_cons_of_pos (hnewer r hle)]
    show _ = _ ++ (notice t.session.doc.id (auth j).userId e).toList
    change notice t.session.doc.id (auth j).userId e = some msg at hmsg
    rw [hmsg]
    rfl
  · intro r hr msg' hmsg' hnotice
    have hread : r ∈ t.stage.readRevision := by
      cases hstage : t.stage with
      | responded revision => rw [hstage] at hr; exact hr
      | submitted revision => rw [hstage] at hr; exact hr
      | _ => rw [hstage] at hr; cases hr
    rcases List.mem_append.mp hmsg' with hold | hnew
    · exact h.fresh r hr msg' (List.mem_append_left _ hold) hnotice
    · rw [hinformed (Option.isSome_of_mem hread)] at hnew
      rw [List.mem_singleton.mp hnew]
      exact hnewer r (h.gapless r hread).1
  · intro r hr
    obtain ⟨hle, hgapless⟩ := h.gapless r hr
    obtain ⟨op, hop⟩ := hq.stored.2
    have hstored : storedRevisions (t.log ++ processed t.session.doc (c.toCommand auth)) =
        storedRevisions t.log ++ [t.session.doc.revision + 1] := by
      rw [hlog, storedRevisions_snoc, hop, herev]
      rfl
    show r ≤ ((t.session.setQueue rest).processCommand (c.toCommand auth)).1.doc.revision ∧
      (storedRevisions (t.log ++ processed _ _)).filter _ = _
    rw [hstored, hrev]
    exact ⟨UInt32.le_of_lt (hmono r hle), gapless_snoc hle hwrap hgapless⟩
  · have hanswered := h.answered
    rw [hbefore] at hanswered
    unfold unprocessed at hanswered ⊢
    rw [hqueue, List.countP_cons] at hanswered
    show (t.sentAfter ++ messagesTo _ j).countP _ + (_ + _) = t.asked
    -- an own operation moves from the queue to the acknowledgements
    have hregistered : own auth j (c.toCommand auth) = true →
        (t.session.setQueue rest).registered (auth j).userId = some j := by
      intro hown
      rw [if_pos (of_decide_eq_true hown).2] at hintime
      exact hintime.1
    rw [List.countP_append, hrest, hq.countP_isAck hregistered, ← hanswered]
    show _ + _ + (rest.countP _ + t.tasks.flatten.length) = _ + (rest.countP _ + _ + t.tasks.flatten.length)
    omega

theorem Informed.process (h : Informed auth j t) (hok : t.Timely auth j .process) (hs : t.process = some t') :
    Informed auth j t' := by
  obtain ⟨cmd, rest, hpending, hqueue, rfl⟩ := process_cases hs
  obtain ⟨c, hc⟩ := h.queued cmd (by rw [hqueue]; exact List.mem_cons_self)
  have htaken : cmd.type = .operation → t.TakenInTime auth j cmd := hok cmd (by rw [hqueue]; rfl)
  have howned : (t.session.setQueue rest).Owned fun i => (auth i).userId := h.owned
  subst hc
  rcases processCommand_cases howned j c with hq | ⟨e, hq⟩
  · refine h.processQuiet hpending hqueue ?_ hq
    intro hown
    unfold own at hown
    obtain ⟨htype, huser⟩ := of_decide_eq_true hown
    have hintime := (htaken htype).2
    rw [if_pos huser] at hintime
    exact hintime.2
  · exact h.processReported hpending hqueue (htaken hq.operation) hq

theorem Informed.deliver (h : Informed auth j t) (hok : t.Timely auth j .deliver)
    (hs : t.deliver j = some t') : Informed auth j t' := by
  unfold Joining.deliver at hs
  cases hpending : t.pending with
  | nil => rw [hpending] at hs; cases hs
  | cons p rest =>
      obtain ⟨i, msg⟩ := p
      rw [hpending] at hs
      dsimp only at hs
      have hsub : ∀ m ∈ messagesTo rest j, m ∈ messagesTo t.pending j := by
        intro m hm
        rw [hpending]
        unfold messagesTo
        rw [List.filterMap_cons]
        split
        · exact hm
        · exact List.mem_cons_of_mem _ hm
      by_cases hij : i = j
      · subst hij
        have hcons : messagesTo t.pending i = msg :: messagesTo rest i := by
          rw [hpending]
          unfold messagesTo
          rw [List.filterMap_cons, if_pos rfl]
        rw [if_pos rfl] at hs
        cases hsent : t.stage.sentRevision with
        | none =>
            rw [hsent] at hs
            cases hs
            obtain ⟨hasked, hempty⟩ := h.unasked hsent
            have hanswered := h.answered
            rw [hempty, hcons, List.nil_append, List.countP_cons, hasked] at hanswered
            refine { h with waiting := ?_, notices := ?_, fresh := ?_, answered := ?_ }
            · exact fun m hm => h.waiting m (hsub m hm)
            · intro r hr
              have hold := hok hsent r hr (i, msg) (by rw [hpending]; rfl) rfl
              have hnotices := h.notices r hr
              rw [hempty, hcons, List.nil_append, List.filter_cons_of_neg (by rw [hold]; exact Bool.false_ne_true)]
                at hnotices
              show (t.sentAfter ++ messagesTo rest i).filter _ = _
              rw [hempty]
              exact hnotices
            · intro r hr
              change r ∈ t.stage.sentRevision at hr
              rw [hsent] at hr
              cases hr
            · show (t.sentAfter ++ messagesTo rest i).countP _ + _ = t.asked
              rw [hempty, hasked, List.nil_append]
              show _ + t.unprocessed auth i = 0
              omega
        | some revision =>
            rw [hsent] at hs
            cases hs
            have hsame : (t.sentAfter ++ [msg]) ++ messagesTo rest i = t.sentAfter ++ messagesTo t.pending i := by
              rw [hcons, List.append_assoc]
              rfl
            refine { h with unasked := ?_, waiting := ?_, notices := ?_, fresh := ?_, answered := ?_ }
            · intro hnone
              change t.stage.sentRevision = none at hnone
              rw [hsent] at hnone
              cases hnone
            · exact fun m hm => h.waiting m (hsub m hm)
            · intro r hr
              show ((t.sentAfter ++ [msg]) ++ messagesTo rest i).filter _ = _
              rw [hsame]
              exact h.notices r hr
            · intro r hr m hm
              change m ∈ (t.sentAfter ++ [msg]) ++ messagesTo rest i at hm
              rw [hsame] at hm
              exact h.fresh r hr m hm
            · show ((t.sentAfter ++ [msg]) ++ messagesTo rest i).countP _ + _ = _
              rw [hsame]
              exact h.answered
      · have hskip : messagesTo t.pending j = messagesTo rest j := by
          rw [hpending]
          unfold messagesTo
          rw [List.filterMap_cons, if_neg hij]
        rw [if_neg hij] at hs
        cases hs
        have hanswered := h.answered
        rw [hskip] at hanswered
        refine { h with waiting := ?_, notices := ?_, fresh := ?_, answered := hanswered }
        · exact fun m hm => h.waiting m (hsub m hm)
        · intro r hr
          have hnotices := h.notices r hr
          rw [hskip] at hnotices
          exact hnotices
        · intro r hr
          have hfresh := h.fresh r hr
          rw [hskip] at hfresh
          exact hfresh

theorem Informed.step (t : Joining α σ) (e : Event α σ) (t' : Joining α σ) (h : Informed auth j t)
    (hok : t.Timely auth j e) (hs : t.step auth role j e = some t') : Informed auth j t' := by
  cases e with
  | enqueue c =>
      change t.enqueue auth j c = some t' at hs
      unfold enqueue at hs
      split_ifs at hs with hc
      cases hs
      exact h.enqueued hc
  | read => exact h.read hs
  | respond => exact h.respond hok hs
  | submit => exact h.submit hs
  | operate msg canEdit => exact h.operate hok hs
  | push n => exact h.push hs
  | process => exact h.process hok hs
  | deliver => exact h.deliver hok hs

end Preservation

/-! ## The run -/

/-- The start: `handle_doc_join` is called while the document has the given session, with any members
    and any commands queued. -/
theorem informed_start [DecidableEq σ] {auth : σ → Identity} {j : σ} {s : DocumentSession α σ}
    (ho : s.Owned fun i => (auth i).userId)
    (hq : ∀ cmd ∈ s.commandQueue, ∃ c : SessionCommand α σ, Foreign auth j c ∧ cmd = c.toCommand auth) :
    Informed auth j { session := s } where
  owned := ho
  queued := by
    intro cmd hcmd
    obtain ⟨c, _, rfl⟩ := hq cmd hcmd
    exact ⟨c, rfl⟩
  tasked := fun _ h => absurd h List.not_mem_nil
  unasked := fun _ => ⟨rfl, rfl⟩
  logged := fun _ h => absurd h List.not_mem_nil
  waiting := fun _ h => absurd h List.not_mem_nil
  notices := nofun
  fresh := nofun
  gapless := nofun
  answered := by
    have hnone : s.commandQueue.countP (own auth j) = 0 := by
      rw [List.countP_eq_zero]
      intro cmd hcmd
      obtain ⟨c, hc, rfl⟩ := hq cmd hcmd
      change own auth j (c.toCommand auth) = false at hc
      rw [hc]
      exact Bool.false_ne_true
    show 0 + (s.commandQueue.countP _ + 0) = 0
    rw [hnone]

/-- **A joiner misses nothing and sees nothing twice**, in every interleaving whose steps are in time: after
    its join response with revision `r` it has been sent what `CaughtUp` says, whenever the session thread
    is between two commands. -/
theorem joiner_caught_up [DecidableEq σ] {auth : σ → Identity} {role : String} {j : σ}
    {s : DocumentSession α σ} {es : List (Event α σ)} {t : Joining α σ} {r : UInt32}
    (ho : s.Owned fun i => (auth i).userId)
    (hq : ∀ cmd ∈ s.commandQueue, ∃ c : SessionCommand α σ, Foreign auth j c ∧ cmd = c.toCommand auth)
    (hr : Machine.run (step auth role j) { session := s } es = some t)
    (hok : Machine.Along (step auth role j) (Timely auth j) { session := s } es)
    (hsent : t.stage.sentRevision = some r) (hpending : t.pending = []) : t.CaughtUp auth j r := by
  have h : Informed auth j t := Machine.run_invariant Informed.step (informed_start ho hq) hok hr
  have hread : r ∈ t.stage.readRevision := by
    cases hstage : t.stage with
    | responded revision => rw [hstage] at hsent; exact hsent
    | submitted revision => rw [hstage] at hsent; exact hsent
    | _ => rw [hstage] at hsent; cases hsent
  have hafter : t.sentAfter ++ messagesTo t.pending j = t.sentAfter := by
    rw [hpending]
    exact List.append_nil _
  refine ⟨?_, (h.gapless r hread).2, ?_⟩
  · rw [← h.notices r hread, hafter]
    -- every notice sent after the response is newer than the response
    refine List.filter_congr fun msg hmsg => ?_
    cases hn : msg.isNotice with
    | false => exact (newer_of_not_notice hn).symm
    | true => exact (h.fresh r hsent msg (by rw [hafter]; exact hmsg) hn).symm
  · have hanswered := h.answered
    rw [hafter] at hanswered
    exact hanswered

/-- A document that session 3 has joined. -/
def editedDocument : DocumentSession Char ℕ := processAll twoDevices emptySession [.join 3]

/-- An insertion of session 3. -/
def insertX : SessionCommand Char ℕ := .operation 3 { op := "insert", pos := 0, text := ['x'] } 0

/-- A message of session 1, based on revision 0. -/
def insertY : OperationMsg Char := { docId := 1, revision := 0, ops := [{ op := "insert", pos := 0, text := ['y'] }] }

/-- Session 1 joins, hears of the insertion and makes its own. -/
def promptJoin : List (Event Char ℕ) :=
  [.read, .respond, .submit, .process, .deliver, .enqueue insertX, .process, .deliver, .deliver,
    .operate insertY true, .push 0, .process, .deliver, .deliver]

theorem joiner_caught_up_prompt :
    ∃ t, Machine.run (step twoDevices "editor" 1) { session := editedDocument } promptJoin = some t ∧
      t.CaughtUp twoDevices 1 0 := by
  have hrun : (Machine.run (step twoDevices "editor" 1) { session := editedDocument } promptJoin).isSome := by
    decide +kernel
  have howned : editedDocument.Owned fun i => (twoDevices i).userId := owned_processAll rfl
  refine ⟨_, (Option.some_get hrun).symm, joiner_caught_up howned (fun _ h => absurd h List.not_mem_nil)
    (Option.some_get hrun).symm ?_ ?_ ?_⟩
  · decide +kernel
  · decide +kernel +revert
  · decide +kernel +revert

/-- The session thread takes an insertion between the read and the `Join` command. -/
def lateJoin : List (Event Char ℕ) :=
  [.read, .enqueue insertX, .process, .deliver, .respond, .submit, .process, .deliver]

/-- The client's first operation is queued before the `Join` command. -/
def earlyOperation : List (Event Char ℕ) :=
  [.read, .respond, .operate insertY true, .push 0, .submit, .process, .deliver, .process, .deliver]

/-- **What is stored between the read and the join is lost on the joiner**, and an operation of its own that
    is taken before the join is not acknowledged: once everything has been processed and sent, the joining
    session has been sent neither the broadcast nor the acknowledgement. -/
theorem late_join_misses :
    (∃ t, Machine.run (step twoDevices "editor" 1) { session := editedDocument } lateJoin = some t ∧
      t.stage.sentRevision = some 0 ∧ t.pending = [] ∧ t.session.commandQueue = [] ∧
      t.sentAfter = [] ∧ storedRevisions t.log = [1] ∧ ¬ t.CaughtUp twoDevices 1 0) ∧
    ∃ t, Machine.run (step twoDevices "editor" 1) { session := editedDocument } earlyOperation = some t ∧
      t.stage.sentRevision = some 0 ∧ t.pending = [] ∧ t.session.commandQueue = [] ∧
      t.sentAfter = [] ∧ t.asked = 1 ∧ ¬ t.CaughtUp twoDevices 1 0 := by
  constructor
  · refine ⟨_, rfl, rfl, rfl, rfl, rfl, rfl, fun h => absurd h.notices ?_⟩
    decide
  · refine ⟨_, rfl, rfl, rfl, rfl, rfl, rfl, fun h => absurd h.answered ?_⟩
    decide

end Joining

end CollabEditor
