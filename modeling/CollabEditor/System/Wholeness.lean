import CollabEditor.Client.EditorWindow
import CollabEditor.Core.CodePoints
import CollabEditor.System.Acknowledgement
import CollabEditor.System.Settled

/-!
# `System.Wholeness` — what the transform keeps holds everywhere in the system

A condition that the transform keeps, and that looks at nothing of an operation but what it does, is `Kept`.
If the users' own edits meet it, then so does everything else in a run: the log of the server, the outstanding
operations of every client, and every operation in flight, each on the document it is based on
(`step_carries`). The condition that counts is `Whole`: the server never looks at code points, but as long as
no editor tears one apart, no rewriting of an operation by the server or by a client does, and every
document stays valid UTF-8 (`documents_valid`).

## Contents
- **Conditions.** `Kept`, `whole_kept`.
- **The system.** `Carries`, with one lemma per event that moves operations: `Carries.edit`, `Carries.process`,
  `Carries.deliver`; `step_carries` and `step_follows`.
- **Texts.** `Valid`, kept by every step; `documents_valid`.
-/

namespace CollabEditor

open Diamond OTController DocumentSession

variable {α : Type}

namespace System

/-! ## Conditions -/

/-- A condition on operations that the transform keeps, the same for every record of an operation. -/
structure Kept (Ok : List α → Operation α → Prop) : Prop where
  laws : Laws apply xform Operation.userId Ok Fine
  same : ∀ {d p e}, SameOperation p e → Ok d p → Ok d e

section Records

variable {c : OTController α} {op : Operation α}

theorem sameOperation_stamp (c : OTController α) (op : Operation α) : SameOperation op (c.stamp op) :=
  ⟨rfl, rfl, fun _ => rfl, rfl⟩

/-- What a receiver rebuilds is the operation that was sent. -/
theorem sameOperation_fromEntry (h : op.WellFormed) (u r : UInt32) :
    SameOperation op (fromEntry (toEntry op) u r) := by
  rw [fromEntry_toEntry, Operation.wire_eq h]
  refine ⟨rfl, rfl, ?_, rfl⟩
  intro ht
  simp only [ht, if_true]

end Records

section Texts

variable {d : List UInt8} {p e : Operation UInt8}

theorem toEdit_same (h : SameOperation p e) : p.type = .delete → e.toEdit = p.toEdit := by
  intro ht
  rw [Operation.toEdit_delete ht, Operation.toEdit_delete (h.type.symm.trans ht), h.position, h.length]

/-- An operation is whole whatever its author and its revision are. -/
theorem whole_same (h : SameOperation p e) (hp : Whole d p) : Whole d e := by
  obtain ⟨hrange, haligned⟩ := hp
  cases ht : p.type with
  | insert =>
      have hte : e.type = .insert := h.type.symm.trans ht
      obtain ⟨hpos, hlen⟩ := hrange.insert ht
      rw [p.toEdit_insert ht] at haligned
      refine ⟨(inRange_insert hte).mpr ⟨h.position ▸ hpos, ?_⟩, ?_⟩
      · rw [← h.length, ← h.text ht, hlen]
      · rw [e.toEdit_insert hte, ← h.position, ← h.text ht]
        exact haligned
  | delete =>
      have hte : e.type = .delete := h.type.symm.trans ht
      refine ⟨(inRange_delete hte).mpr ?_, ?_⟩
      · rw [← h.position, ← h.length]
        exact hrange.delete ht
      · rw [toEdit_same h ht]
        exact haligned

theorem whole_kept : Kept Whole := ⟨whole_laws, whole_same⟩

end Texts

/-! ## The system -/

/-- **Everything meets the condition**: the log, what each client has outstanding, and what is in flight, each
    on the document that it is based on. -/
structure Carries (Ok : List α → Operation α → Prop) (s : System α) : Prop where
  log         : ChainOk apply Ok s.base.content s.log
  outstanding : ∀ u ∈ s.users,
    ChainOk apply Ok (s.contentAt (s.clients u).revision) (s.clients u).outstanding
  flight      : ∀ u ∈ s.users, ∀ o ∈ s.inFlight u, Ok (s.contentAt o.revision) o

/-- The users' own edits meet the condition, each on what its predecessors leave. -/
def EditsMeet (Ok : List α → Operation α → Prop) (s : System α) : Event α → Prop
  | .edit u ops => ChainOk apply Ok (s.clients u).doc.content ops
  | _ => True

instance (Ok : List α → Operation α → Prop) [∀ d o, Decidable (Ok d o)] (s : System α) :
    (e : Event α) → Decidable (s.EditsMeet Ok e)
  | .edit _ _ => inferInstanceAs (Decidable (ChainOk _ _ _ _))
  | .receive _ | .share _ _ | .process | .deliver _ | .join _ | .leave _ => isTrue trivial

section Facts

variable {s s' : System α} {t : Star.State (List α) (Operation α) UInt32} {u : UInt32}

/-- A client holds the content of its revision and what it has outstanding on top. -/
theorem Refines.content_eq (h : Refines s t) (ht : Star.Tracks xform Operation.userId t)
    (hc : Star.Coherent apply InRange s.base.content t) (hu : u ∈ s.users)
    (hfew : s.base.revision.toNat + s.log.length < 2 ^ 32) :
    (s.clients u).doc.content =
      acts apply (s.contentAt (s.clients u).revision) (s.clients u).outstanding := by
  have hm := h.mirrors u hu
  have hseen := ht.seen_le u
  rw [h.log, List.length_map] at hseen
  rw [hm.content, (hc.replica u).doc, hm.revision, h.contentAt_eq (by omega), ← hm.queue, acts_wire]

/-- A revision that the log has reached keeps its content. -/
theorem contentAt_grows {tail : List (Operation α)} {k : ℕ} (hk : k ≤ s.log.length)
    (hfew : s.base.revision.toNat + s.log.length < 2 ^ 32) :
    acts apply s.base.content ((s.log ++ tail).take
      ((revisionAt s.base k).toNat - s.base.revision.toNat)) = s.contentAt (revisionAt s.base k) := by
  unfold contentAt
  rw [toNat_revisionAt (by omega), Nat.add_sub_cancel_left, List.take_append_of_le_length hk]

theorem mem_inFlight {o : Operation α} :
    o ∈ s.inFlight u ↔ (∃ cmd ∈ s.session.commandQueue, cmd.userId = u ∧ cmd.operation = o) ∨
      ∃ msg ∈ s.up u, o ∈ received u msg := by
  simp only [inFlight, List.mem_append, List.mem_map, List.mem_filter, List.mem_flatMap, beq_iff_eq,
    and_assoc]

end Facts

/-! ## The slots of a controller -/

section Slots

variable {Ok : List α → Operation α → Prop} (K : Kept Ok) {c : OTController α} {d : List α} {u : UInt32}
include K

/-- **A batch of local operations.** The outstanding operations stay a chain, and what is sent at once is based
    on the document that the chain begins at. -/
theorem Kept.localLoop {ops : List (Operation α)} (hc : c.Consistent)
    (hchain : ChainOk apply Ok d c.outstanding) (hdoc : c.doc.content = acts apply d c.outstanding)
    (hops : ChainOk apply Ok c.doc.content ops) (hwf : AllWellFormed ops) :
    (c.localLoop ops).1.revision = c.revision ∧
      ChainOk apply Ok d (c.localLoop ops).1.outstanding ∧
      ∀ o ∈ departing u (c.localLoop ops).2.1, o.revision = c.revision ∧ Ok d o := by
  induction ops generalizing c with
  | nil => exact ⟨rfl, hchain, fun o ho => absurd ho List.not_mem_nil⟩
  | cons op ops ih =>
      have hrest : AllWellFormed ops := fun o ho => hwf o (List.mem_cons_of_mem op ho)
      obtain ⟨hop, hops⟩ := hops
      cases hn : op.isNoop with
      | true =>
          rw [apply_noop hn] at hops
          simp only [OTController.localLoop, onLocalOperation_noop hn, List.nil_append]
          exact ih hc hchain hdoc hops hrest
      | false =>
          obtain ⟨hc', _, hrev, hdoc', hout, hsends⟩ := onLocalOperation_spec hc hn
          have hstamped : Ok (acts apply d c.outstanding) (c.stamp op) :=
            K.same (sameOperation_stamp c op) (hdoc ▸ hop)
          have hchain' : ChainOk apply Ok d (c.onLocalOperation op).1.outstanding := by
            rw [hout]
            exact hchain.snoc hstamped
          have hcontent : (c.onLocalOperation op).1.doc.content = apply c.doc.content op := by
            rw [hdoc']
            rfl
          obtain ⟨hrev', hchain'', hsent⟩ := ih hc' hchain' (by rw [hcontent, hout, acts_snoc, ← hdoc]; rfl)
            (hcontent ▸ hops) hrest
          refine ⟨hrev'.trans hrev, hchain'', ?_⟩
          simp only [OTController.localLoop, departing_append]
          intro o ho
          rcases List.mem_append.mp ho with hnow | hlater
          · -- it is sent at once only where nothing else is outstanding
            unfold departing at hnow
            rw [hsends] at hnow
            split_ifs at hnow with hempty
            · rw [List.map_singleton, List.flatMap_singleton, received_sendOp, List.mem_singleton] at hnow
              subst hnow
              have hwfs : (c.stamp op).WellFormed := hwf op List.mem_cons_self
              rw [List.isEmpty_iff.mp hempty, acts_nil] at hstamped
              exact ⟨revision_fromEntry .., K.same (sameOperation_fromEntry hwfs _ _) hstamped⟩
            · cases hnow
          · rw [← hrev]
            exact hsent o hlater

/-- **An acknowledgement.** The oldest outstanding operation has become part of the document that the rest is
    based on. -/
theorem Kept.handleAck {c' : OTController α} {effects : List (Effect α)} {msg : OperationAckMsg} {d' : List α}
    (hc : c.Consistent) (hwf : AllWellFormed c.outstanding)
    (hchain : ChainOk apply Ok d' c.outstanding.tail) (h : c.handleAck msg = some (c', effects)) :
    c'.revision = msg.revision ∧ ChainOk apply Ok d' c'.outstanding ∧
      ∀ o ∈ departing u effects, o.revision = c'.revision ∧ Ok d' o := by
  obtain ⟨c₁, effects₁, heq, _, _, hrev, _, hout, hsends⟩ := handleAck_spec hc msg
  rw [heq] at h
  cases h
  refine ⟨hrev, hout ▸ hchain, ?_⟩
  intro o ho
  unfold departing at ho
  rw [hsends] at ho
  cases htail : c.outstanding.tail with
  | nil =>
      rw [htail] at ho
      cases ho
  | cons q qs =>
      rw [htail] at ho hchain
      simp only [List.head?_cons, Option.map_some, Option.toList_some, List.map_singleton,
        List.flatMap_singleton, received_sendOp, List.mem_singleton] at ho
      subst ho
      have hq : q.WellFormed := hwf q (List.mem_of_mem_tail (htail ▸ List.mem_cons_self))
      exact ⟨revision_fromEntry .., K.same (sameOperation_fromEntry hq _ _) hchain.1⟩

/-- **A broadcast.** The outstanding operations are carried across it, and it is carried across them. -/
theorem Kept.handleBroadcast {c' : OTController α} {effects : List (Effect α)} {msg : OperationBroadcastMsg α}
    {entry : OpEntry α} (hc : c.Consistent) (hu : msg.userId ≠ c.userId)
    (hsites : ∀ a ∈ c.outstanding, a.userId = c.userId) (hops : msg.ops = [entry])
    (hchain : ChainOk apply Ok d c.outstanding) (hb : Ok d (fromEntry entry msg.userId msg.revision))
    (hf : EvolveFine apply xform Fine d c.outstanding (fromEntry entry msg.userId msg.revision))
    (h : c.handleBroadcast msg = some (c', effects)) :
    c'.revision = msg.revision ∧
      ChainOk apply Ok (apply d (fromEntry entry msg.userId msg.revision)) c'.outstanding ∧
      Ok (acts apply d c.outstanding)
        (evolve xform c.outstanding (fromEntry entry msg.userId msg.revision)).2 := by
  obtain ⟨c₁, effects₁, heq, _, _, hrev, _, _, hout, _⟩ := handleBroadcast_spec hc hu hops
  rw [heq] at h
  cases h
  have hother : ∀ a ∈ c.outstanding, a.userId ≠ (fromEntry entry msg.userId msg.revision).userId := by
    intro a ha
    rw [hsites a ha, userId_fromEntry]
    exact hu.symm
  obtain ⟨_, hchain', hev⟩ := K.laws.evolve_converges hchain hb hf hother
  exact ⟨hrev, hout ▸ hchain', hev⟩

end Slots

/-- What the controller passes on of a broadcast of one operation. -/
theorem remoteOps_handleBroadcast {c c' : OTController α} {effects : List (Effect α)}
    {msg : OperationBroadcastMsg α} {entry : OpEntry α} (hc : c.Consistent) (hu : msg.userId ≠ c.userId)
    (hops : msg.ops = [entry]) (h : c.handleBroadcast msg = some (c', effects)) :
    remoteOps effects = [(evolve xform c.outstanding (fromEntry entry msg.userId msg.revision)).2] := by
  unfold OTController.handleBroadcast at h
  rw [if_neg hu, hops, List.map_singleton, broadcastLoop] at h
  cases hc with
  | synchronized hs hp hb =>
      unfold receiveOperation at h
      unfold outstanding
      rw [hs] at h
      rw [hp, hb]
      cases h
      rfl
  | awaitingAck p hs hp hb =>
      rw [receiveOperation_pending (by rw [hs]; decide) hp] at h
      unfold outstanding
      rw [hp]
      cases h
      rfl
  | awaitingAckWithBuffer p b rest hs hp hb =>
      rw [receiveOperation_pending (by rw [hs]; decide) hp] at h
      unfold outstanding
      rw [hp]
      cases h
      rfl

/-! ## One lemma per event -/

section Steps

variable {Ok : List α → Operation α → Prop} {s s' : System α}
  {t : Star.State (List α) (Operation α) UInt32} {u : UInt32}

/-- Only the log, the users' controllers and what is in flight matter. -/
theorem Carries.mono (h : s.Carries Ok) (hbase : s'.base = s.base) (hlog : s'.log = s.log)
    (husers : ∀ w ∈ s'.users, w ∈ s.users ∧ s'.clients w = s.clients w)
    (hflight : ∀ w ∈ s'.users, ∀ o ∈ s'.inFlight w, o ∈ s.inFlight w) : s'.Carries Ok := by
  have hcontent : s'.contentAt = s.contentAt := by
    funext r
    unfold contentAt
    rw [hbase, hlog]
  refine ⟨by rw [hbase, hlog]; exact h.log, fun w hw => ?_, fun w hw o ho => ?_⟩
  · obtain ⟨hold, hsame⟩ := husers w hw
    rw [hcontent, hsame]
    exact h.outstanding w hold
  · rw [hcontent]
    exact h.flight w (husers w hw).1 o (hflight w hw o ho)

/-- A controller has run a slot: what it has outstanding and what it sends meet the condition. -/
theorem Carries.react (h : s.Carries Ok) {c : OTController α} (effects : List (Effect α))
    (rest : List (ServerMsg α)) (hout : ChainOk apply Ok (s.contentAt c.revision) c.outstanding)
    (hsent : ∀ o ∈ departing u effects, Ok (s.contentAt o.revision) o) :
    ({ s with down := Function.update s.down u rest }.react u c effects).Carries Ok := by
  refine ⟨h.log, fun w hw => ?_, fun w hw o ho => ?_⟩
  · by_cases hwu : w = u
    · subst hwu
      simp only [System.react, Function.update_self]
      exact hout
    · simp only [System.react, Function.update_of_ne hwu]
      exact h.outstanding w hw
  · by_cases hwu : w = u
    · subst hwu
      rw [inFlight_react] at ho
      rcases List.mem_append.mp ho with hold | hnew
      · exact h.flight w hw o hold
      · exact hsent o hnew
    · simp only [inFlight, System.react, Function.update_of_ne hwu] at ho
      exact h.flight w hw o ho

/-- **A local edit.** -/
theorem Carries.edit (K : Kept Ok) (h : s.Carries Ok) (hr : Refines s t)
    (ht : Star.Tracks xform Operation.userId t) (hc : Star.Coherent apply InRange s.base.content t)
    (hfew : s.base.revision.toNat + s.log.length < 2 ^ 32) {ops : List (Operation α)}
    (hops : s.EditsMeet Ok (.edit u ops)) (hs : s.step (.edit u ops) = some s') : s'.Carries Ok := by
  obtain ⟨hu, hwf, rfl⟩ := edit_cases hs
  obtain ⟨hrev, hchain, hsent⟩ := K.localLoop (u := u) (hr.mirrors u hu).consistent (h.outstanding u hu)
    (hr.content_eq ht hc hu hfew) hops hwf
  have hreact := h.react (u := u) (c := ((s.clients u).onLocalOperations ops).1)
    ((s.clients u).onLocalOperations ops).2 (s.down u) (by rw [← hrev] at hchain; exact hchain)
    (fun o ho => by
      rw [departing_onLocalOperations] at ho
      obtain ⟨hbase, hok⟩ := hsent o ho
      rw [hbase]
      exact hok)
  rw [Function.update_eq_self] at hreact
  exact hreact

/-- What an error or another message without a notice passes on. -/
theorem remoteOps_silent {c c' : OTController α} {msg : ServerMsg α} {effects : List (Effect α)}
    (hn : msg.isNotice = false) (h : c.onNetworkMessage msg = some (c', effects)) : remoteOps effects = [] := by
  cases msg with
  | operationAck msg => cases hn
  | operationBroadcast msg => cases hn
  | error msg =>
      cases h
      unfold handleError
      split_ifs <;> rfl
  | _ => cases h; rfl

/-- What an acknowledgement passes on. -/
theorem remoteOps_handleAck {c c' : OTController α} {msg : OperationAckMsg} {effects : List (Effect α)}
    (hc : c.Consistent) (h : c.handleAck msg = some (c', effects)) : remoteOps effects = [] := by
  unfold OTController.handleAck at h
  cases hc with
  | synchronized hs hp hb =>
      rw [hs] at h
      cases h
      rfl
  | awaitingAck p hs hp hb =>
      rw [hs] at h
      cases h
      rfl
  | awaitingAckWithBuffer p b rest hs hp hb =>
      rw [hs, hb] at h
      cases h
      -- the label depends on what is left in the buffer
      cases rest <;> rfl

/-- The content of a revision that the log has read, followed by the next entry. -/
theorem Refines.contentAt_succ (h : Refines s t) {k : ℕ} {e : Operation α} (hk : s.log[k]? = some e)
    (hfew : s.base.revision.toNat + s.log.length < 2 ^ 32) :
    s.contentAt (revisionAt s.base (k + 1)) = apply (s.contentAt (revisionAt s.base k)) e := by
  have hlt := (List.getElem?_eq_some_iff.mp hk).1
  have htlog : t.log[k]? = some e.wire := by
    rw [h.log, List.getElem?_map, hk]
    rfl
  rw [h.contentAt_eq (by omega), h.contentAt_eq (by omega), Star.snap_succ apply _ htlog, apply_wire]

/-- **A delivery** moves the client over one more entry of the log; what it shows of that entry meets the
    condition on the text it finds. -/
theorem Carries.deliver (K : Kept Ok) (h : s.Carries Ok) (hr : Refines s t)
    (ht : Star.Tracks xform Operation.userId t) (hc : Star.Coherent apply InRange s.base.content t)
    (hfew : s.base.revision.toNat + s.log.length < 2 ^ 32) (hadm : s.Admissible (.deliver u))
    {msg : ServerMsg α} {rest : List (ServerMsg α)} {c : OTController α} {effects : List (Effect α)}
    (hu : u ∈ s.users) (hd : s.down u = msg :: rest)
    (hm : (s.clients u).onNetworkMessage msg = some (c, effects)) :
    ({ s with down := Function.update s.down u rest }.react u c effects).Carries Ok ∧
      (remoteOps effects).length ≤ 1 ∧ ChainOk apply Ok (s.clients u).doc.content (remoteOps effects) := by
  have hmir := hr.mirrors u hu
  cases hn : msg.isNotice with
  | false =>
      obtain ⟨effects', heq, hsends⟩ := onNetworkMessage_silent (c := s.clients u) hn
      rw [heq] at hm
      cases hm
      refine ⟨h.react _ _ (h.outstanding u hu) ?_, ?_⟩
      · intro o ho
        unfold departing at ho
        rw [hsends] at ho
        cases ho
      · rw [remoteOps_silent hn heq]
        exact ⟨Nat.zero_le 1, trivial⟩
  | true =>
      have hincoming := hmir.incoming
      rw [hd, List.filter_cons_of_pos hn] at hincoming
      obtain ⟨e, hlog, rfl, -⟩ := noticesFrom_cons hincoming
      have hchain := h.outstanding u hu
      have hnext := hr.contentAt_succ hlog hfew
      rw [hmir.revision] at hchain
      by_cases he : e.userId = u
      · -- the acknowledgement: the oldest outstanding operation is the entry
        have htlog : t.log[(t.replicas u).seen]? = some e.wire := by
          rw [hr.log, List.getElem?_map, hlog]
          rfl
        obtain ⟨qs, _, hqueue, _⟩ := (ht.phase u).head_eq htlog (by rw [Operation.wire_userId]; exact he)
        rw [← hmir.queue] at hqueue
        cases hout : (s.clients u).outstanding with
        | nil =>
            rw [hout] at hqueue
            cases hqueue
        | cons p ps =>
            rw [hout] at hqueue hchain
            injection hqueue with hp hps
            rw [notice, if_pos he, OTController.onNetworkMessage, if_pos hmir.docId.symm] at hm
            have htail : ChainOk apply Ok (s.contentAt (revisionAt s.base ((t.replicas u).seen + 1)))
                (s.clients u).outstanding.tail := by
              rw [hnext, ← apply_wire, ← hp, apply_wire, hout]
              exact hchain.2
            obtain ⟨hrev, hkept, hsent⟩ := K.handleAck (u := u) hmir.consistent hmir.wellFormed htail hm
            refine ⟨h.react _ _ (by rw [hrev]; exact hkept) ?_, ?_⟩
            · intro o ho
              obtain ⟨hbase, hok⟩ := hsent o ho
              rw [hbase, hrev]
              exact hok
            · rw [remoteOps_handleAck hmir.consistent hm]
              exact ⟨Nat.zero_le 1, trivial⟩
      · -- another user's entry, in the form in which it travels
        have hfine := hadm.2
        rw [notice, if_neg he] at hd hm
        rw [OTController.onNetworkMessage, if_pos hmir.docId.symm] at hm
        have hf := hfine _ _ _ hd rfl
        have hne : e.userId ≠ (s.clients u).userId := by rw [hmir.userId]; exact he
        have hwf : e.WellFormed := hr.wellFormed e (List.mem_of_getElem? hlog)
        have hentry : Ok (s.contentAt (revisionAt s.base (t.replicas u).seen)) e := by
          have hlt := (List.getElem?_eq_some_iff.mp hlog).1
          rw [contentAt, toNat_revisionAt (by omega), Nat.add_sub_cancel_left]
          exact h.log.getElem? hlog
        have hsites : ∀ a ∈ (s.clients u).outstanding, a.userId = (s.clients u).userId := by
          intro a ha
          rw [hmir.userId, ← Operation.wire_userId]
          exact ht.sites u _ (hmir.queue ▸ List.mem_map_of_mem ha)
        rw [hmir.revision] at hf
        obtain ⟨hrev, hkept, hshown⟩ := K.handleBroadcast hmir.consistent hne hsites rfl hchain
          (K.same (sameOperation_fromEntry hwf _ _) hentry) hf hm
        refine ⟨h.react _ _ ?_ ?_, ?_⟩
        · rw [hrev, hnext]
          rw [fromEntry_toEntry] at hkept
          rw [← apply_wire]
          exact hkept
        · intro o ho
          obtain ⟨_, _, heq, _, _, _, _, _, _, hsends⟩ := @handleBroadcast_spec _ _ hmir.consistent {
            docId := s.base.id, userId := e.userId, username := s.username e.userId,
            revision := revisionAt s.base ((t.replicas u).seen + 1), ops := [toEntry e] } _ hne rfl
          rw [heq] at hm
          cases hm
          unfold departing at ho
          rw [hsends] at ho
          cases ho
        · rw [remoteOps_handleBroadcast hmir.consistent hne rfl hm, hr.content_eq ht hc hu hfew, hmir.revision]
          exact ⟨Nat.le_refl 1, hshown, trivial⟩

/-- **What the session thread stores** of its oldest command: nothing, or the operation rebased over the log since
    its base. -/
theorem Refines.stored_cases (h : Refines s t) (ht : Star.Tracks xform Operation.userId t)
    {cmd : DocCommand α UInt32} {rest : List (DocCommand α UInt32)} (hq : s.session.commandQueue = cmd :: rest)
    (hfew : s.base.revision.toNat + s.log.length + 1 < 2 ^ 32) :
    stored s.session.doc cmd = [] ∨ ∃ b, b ≤ s.log.length ∧ cmd.operation.revision = revisionAt s.base b ∧
      s.session.doc.InWindow cmd.operation.revision ∧
      s.session.doc.since cmd.operation.revision = s.log.drop b ∧
      stored s.session.doc cmd = [rebase xform cmd.operation (s.log.drop b)] := by
  have hgen := h.genuine cmd (by rw [hq]; exact List.mem_cons_self)
  obtain ⟨b, hsent, hrev, _⟩ := h.head_flight hq
  have hb := (ht.phase cmd.userId).sent_le hsent
  have hseen := ht.seen_le cmd.userId
  rw [h.log, List.length_map] at hseen
  rcases s.session.doc.applyWithOt_cases cmd.operation with ⟨_, _, happ⟩ | ⟨doc, op, happ, _⟩
  · exact .inl (stored_error hgen.type happ)
  · have hrevNat : cmd.operation.revision.toNat = s.base.revision.toNat + b := by
      rw [hrev, toNat_revisionAt (by omega)]
    have hw : s.session.doc.InWindow cmd.operation.revision :=
      Document.inWindow_of_ok h.follows.window (by rw [hrevNat, h.follows.revision]; omega) happ
    have hsince := h.follows.since_eq hrevNat hw.1
    obtain ⟨doc', happ', _⟩ := h.follows.applyWithOt hw (by rw [h.follows.revision]; omega)
    rw [hsince] at happ'
    exact .inr ⟨b, by omega, hrev, hw, hsince, stored_ok hgen.type happ'⟩

/-- An operation in flight is based on a revision that the log has reached. -/
theorem Refines.base_of_flight (h : Refines s t) (ht : Star.Tracks xform Operation.userId t) (hu : u ∈ s.users)
    {o : Operation α} (ho : o ∈ s.inFlight u) : ∃ b, b ≤ s.log.length ∧ o.revision = revisionAt s.base b := by
  have hseen := ht.seen_le u
  rw [h.log, List.length_map] at hseen
  rcases (h.mirrors u hu).flight with hnil | ⟨b, o', hone, hsent, hrev, _⟩
  · rw [hnil] at ho
    cases ho
  · rw [hone, List.mem_singleton] at ho
    subst ho
    exact ⟨b, Nat.le_trans ((ht.phase u).sent_le hsent) hseen, hrev⟩

/-- **A turn of the session thread** appends to the log what meets the condition on the server's content. -/
theorem Carries.process (K : Kept Ok) (h : s.Carries Ok) (hr : Refines s t)
    (ht : Star.Tracks xform Operation.userId t) (hfew : s.base.revision.toNat + s.log.length + 1 < 2 ^ 32)
    (hadm : s.Admissible .process) {cmd : DocCommand α UInt32} {rest : List (DocCommand α UInt32)}
    (hq : s.session.commandQueue = cmd :: rest) :
    ({ s with
        session := ((s.session.setQueue rest).processCommand cmd).1
        log := s.log ++ stored s.session.doc cmd }.push
          ((s.session.setQueue rest).processCommand cmd).2).Carries Ok ∧
      ChainOk apply Ok s.session.doc.content (stored s.session.doc cmd) := by
  have hgen := hr.genuine cmd (by rw [hq]; exact List.mem_cons_self)
  have hstored : ChainOk apply Ok s.session.doc.content (stored s.session.doc cmd) := by
    rcases hr.stored_cases ht hq hfew with hnil | ⟨b, hb, hrev, hw, hsince, hone⟩
    · rw [hnil]
      trivial
    · have hbase : Ok (s.contentAt cmd.operation.revision) cmd.operation :=
        h.flight cmd.userId hgen.user _ (mem_inFlight.mpr (.inl ⟨cmd, by rw [hq]; exact List.mem_cons_self, rfl, rfl⟩))
      have hfine := hadm.2 cmd rest hq hw
      have hat : s.contentAt cmd.operation.revision = acts apply s.base.content (s.log.take b) := by
        rw [contentAt, hrev, toNat_revisionAt (by omega), Nat.add_sub_cancel_left]
      rw [hsince, hat] at hfine
      rw [hat] at hbase
      have hok := K.laws.rebase_ok hbase (h.log.drop b) hfine
      rw [← acts_append, List.take_append_drop, ← hr.follows.content] at hok
      rw [hone]
      exact ⟨hok, trivial⟩
  refine ⟨⟨?_, fun u hu => ?_, fun u hu o ho => ?_⟩, hstored⟩
  · show ChainOk apply Ok s.base.content (s.log ++ stored s.session.doc cmd)
    rw [ChainOk.append, ← hr.follows.content]
    exact ⟨h.log, hstored⟩
  · -- the revision of a client is one that the log had reached before
    have hseen := ht.seen_le u
    rw [hr.log, List.length_map] at hseen
    have hkept := h.outstanding u hu
    rw [(hr.mirrors u hu).revision] at hkept
    show ChainOk apply Ok (acts apply s.base.content ((s.log ++ stored s.session.doc cmd).take
      ((s.clients u).revision.toNat - s.base.revision.toNat))) (s.clients u).outstanding
    rw [(hr.mirrors u hu).revision, contentAt_grows hseen (by omega)]
    exact hkept
  · have hold : o ∈ s.inFlight u := by
      rw [mem_inFlight] at ho ⊢
      refine ho.imp_left ?_
      rintro ⟨cmd', hc, hrest⟩
      refine ⟨cmd', ?_, hrest⟩
      rw [hq]
      refine List.mem_cons_of_mem cmd ?_
      rw [processCommand_operation _ hgen.type] at hc
      simpa only [System.push, handleOperation_fst, setQueue_commandQueue] using hc
    obtain ⟨b, hb, hrev⟩ := hr.base_of_flight ht hu hold
    have hkept := h.flight u hu o hold
    show Ok (acts apply s.base.content ((s.log ++ stored s.session.doc cmd).take
      (o.revision.toNat - s.base.revision.toNat))) o
    rw [hrev, contentAt_grows hb (by omega), ← hrev]
    exact hkept

/-- What a message becomes is not more than what was in flight. -/
theorem Carries.receive (h : s.Carries Ok) (hs : s.step (.receive u) = some s') : s'.Carries Ok := by
  obtain ⟨msg, rest, hup, ⟨error, -, rfl⟩ | ⟨-, rfl⟩⟩ := receive_cases hs
  · refine h.mono rfl rfl (fun w hw => ⟨hw, rfl⟩) ?_
    intro w _ o ho
    rw [mem_inFlight] at ho ⊢
    refine ho.imp_right ?_
    rintro ⟨m, hm, hmem⟩
    refine ⟨m, ?_, hmem⟩
    by_cases hwu : w = u
    · subst hwu
      simp only [System.push, Function.update_self] at hm
      rw [hup]
      exact List.mem_cons_of_mem msg hm
    · simpa only [System.push, Function.update_of_ne hwu] using hm
  · refine h.mono rfl rfl (fun w hw => ⟨hw, rfl⟩) ?_
    intro w _ o ho
    rw [mem_inFlight] at ho ⊢
    rcases ho with ⟨cmd, hc, huser, hop⟩ | ⟨m, hm, hmem⟩
    · rcases List.mem_append.mp hc with hold | hnew
      · exact .inl ⟨cmd, hold, huser, hop⟩
      · -- a new command holds an operation of the message that has left the channel
        obtain ⟨entry, hentry, rfl⟩ := List.mem_map.mp hnew
        cases huser
        refine .inr ⟨msg, by rw [hup]; exact List.mem_cons_self, ?_⟩
        rw [← hop]
        exact List.mem_map_of_mem hentry
    · refine .inr ⟨m, ?_, hmem⟩
      by_cases hwu : w = u
      · subst hwu
        simp only [Function.update_self] at hm
        rw [hup]
        exact List.mem_cons_of_mem msg hm
      · simpa only [Function.update_of_ne hwu] using hm

theorem Carries.share (h : s.Carries Ok) {msg : DocShareRequestMsg} (hs : s.step (.share u msg) = some s') :
    s'.Carries Ok := by
  obtain ⟨error, rfl⟩ | ⟨targetId, rfl⟩ := share_cases hs
  · exact h.mono rfl rfl (fun w hw => ⟨hw, rfl⟩) (fun _ _ _ ho => ho)
  · exact h.mono rfl rfl (fun w hw => ⟨hw, rfl⟩) (fun _ _ _ ho => ho)

/-- **A newcomer** has nothing outstanding and nothing in flight. -/
theorem Carries.join (h : s.Carries Ok) (hr : Refines s t) (hs : s.step (.join u) = some s') :
    s'.Carries Ok := by
  obtain ⟨hu, rfl⟩ := join_cases hs
  refine ⟨h.log, fun w hw => ?_, fun w hw o ho => ?_⟩
  · by_cases hwu : w = u
    · subst hwu
      simp only [System.push, Function.update_self]
      trivial
    · simp only [System.push, Function.update_of_ne hwu]
      exact h.outstanding w ((List.mem_cons.mp hw).resolve_left hwu)
  · change o ∈ s.inFlight w at ho
    by_cases hwu : w = u
    · subst hwu
      rw [hr.inFlight_nil hu] at ho
      cases ho
    · exact h.flight w ((List.mem_cons.mp hw).resolve_left hwu) o ho

theorem Carries.leave (h : s.Carries Ok) (hs : s.step (.leave u) = some s') : s'.Carries Ok := by
  obtain ⟨-, -, rfl⟩ := leave_cases hs
  exact h.mono rfl rfl (fun w hw => ⟨(List.mem_filter.mp hw).1, rfl⟩) (fun _ _ _ ho => ho)

/-- **Every step carries the condition on**, if what the users type meets it. -/
theorem step_carries (K : Kept Ok) {e : Event α} (h : s.Carries Ok) (hr : Refines s t)
    (ht : Star.Tracks xform Operation.userId t) (hc : Star.Coherent apply InRange s.base.content t)
    (hroom : s.HasRoom e) (hfew : s.base.revision.toNat + s.log.length < 2 ^ 32) (hadm : s.Admissible e)
    (hmeet : s.EditsMeet Ok e) (hs : s.step e = some s') : s'.Carries Ok := by
  cases e with
  | edit u ops => exact h.edit K hr ht hc hfew hmeet hs
  | receive u => exact h.receive hs
  | share u msg => exact h.share hs
  | process =>
      obtain ⟨cmd, rest, hq, rfl⟩ := process_cases hs
      exact (h.process K hr ht hroom hadm hq).1
  | deliver u =>
      obtain ⟨hu, msg, rest, c, effects, hd, hm, rfl⟩ := deliver_cases hs
      exact (h.deliver K hr ht hc hfew hadm hu hd hm).1
  | join u => exact h.join hr hs
  | leave u => exact h.leave hs

end Steps

/-! ## Runs -/

section Runs

variable {Ok : List α → Operation α → Prop} {s s' : System α} {t : Star.State (List α) (Operation α) UInt32}
  {e : Event α}

/-- What every sound run keeps: the state refines one of the abstract protocol, which is tracked and coherent, and
    everything in it meets the condition. -/
structure Follows (Ok : List α → Operation α → Prop) (s : System α)
    (t : Star.State (List α) (Operation α) UInt32) : Prop where
  refines  : Refines s t
  tracks   : Star.Tracks xform Operation.userId t
  coherent : Star.Coherent apply InRange s.base.content t
  few      : s.base.revision.toNat + s.log.length < 2 ^ 32
  carries  : s.Carries Ok

/-- What a step has to meet. -/
def Meets (Ok : List α → Operation α → Prop) (s : System α) (e : Event α) : Prop :=
  (s.WithinBounds e ∧ s.Sound e) ∧ s.EditsMeet Ok e

instance (Ok : List α → Operation α → Prop) [∀ d o, Decidable (Ok d o)] (s : System α) (e : Event α) :
    Decidable (s.Meets Ok e) := inferInstanceAs (Decidable (_ ∧ _))

theorem start_follows {doc : Document α} (hw : doc.WindowExact) (users : List UInt32)
    (username : UInt32 → String) (findUserId : String → Option UInt32) (access : AccessControl) :
    Follows Ok (start doc users username findUserId access)
      { log := [], replicas := fun _ => { doc := doc.content } } where
  refines := start_refines hw users username findUserId access
  tracks := Star.Tracks.init
  coherent := Star.Coherent.init
  few := start_few doc
  carries := ⟨trivial, fun _ _ => trivial, fun _ _ _ ho => by cases ho⟩

theorem step_follows (K : Kept Ok) (h : Follows Ok s t) (hok : s.Meets Ok e) (hs : s.step e = some s') :
    ∃ t', Follows Ok s' t' := by
  obtain ⟨hsound, hmeet⟩ := hok
  have hadm := admissible_of hsound
  have hfew : s'.base.revision.toNat + s'.log.length < 2 ^ 32 :=
    run_few h.few (Machine.run_single hs) ((Machine.along_cons hs).mpr ⟨hsound.2.1, trivial⟩)
  obtain ⟨es, t', hsim⟩ := step_refines h.refines h.tracks hs hfew
  have hcoherent := h.coherent.run transform_laws h.tracks hsim.locals (hsim.admits hadm) hsim.run
  rw [← (step_extends hs).base] at hcoherent
  exact ⟨t', hsim.refines, h.tracks.run transform_laws.site_xf hsim.locals hsim.run, hcoherent, hfew,
    step_carries K h.carries h.refines h.tracks h.coherent hsound.2.1 h.few hadm hmeet hs⟩

end Runs

/-! ## Texts -/

section Valid

variable {s s' : System UInt8} {t : Star.State (List UInt8) (Operation UInt8) UInt32} {e : Event UInt8}
  {d : List UInt8} {ops : List (Operation UInt8)}

/-- Whole operations on documents below `2^32` bytes. -/
theorem valid_acts (hd : Utf8.Valid d) (h : ChainOk apply (fun d op => Whole d op ∧ d.length < 2 ^ 31) d ops) :
    Utf8.Valid (acts apply d ops) := by
  induction ops generalizing d with
  | nil => exact hd
  | cons op ops ih =>
      obtain ⟨⟨hwhole, hsize⟩, hrest⟩ := h
      exact ih (valid_apply hd hwhole (by omega)) hrest

/-- For one operation only the document it is applied to matters. -/
theorem valid_acts_single (hd : Utf8.Valid d) (hsize : d.length < 2 ^ 31) (hlen : ops.length ≤ 1)
    (h : ChainOk apply Whole d ops) : Utf8.Valid (acts apply d ops) := by
  refine valid_acts hd ?_
  cases ops with
  | nil => trivial
  | cons op ops =>
      rw [List.length_cons] at hlen
      have hnil : ops = [] := List.length_eq_zero_iff.mp (by omega)
      subst hnil
      exact ⟨⟨h.1, hsize⟩, trivial⟩

/-- The documents that a step edits are below `2^31` bytes. -/
def SmallTexts (s : System UInt8) : Event UInt8 → Prop
  | .edit u ops => ChainOk apply (fun d _ => d.length < 2 ^ 31) (s.clients u).doc.content ops
  | .process    => s.session.doc.content.length < 2 ^ 31
  | .deliver u  => (s.clients u).doc.content.length < 2 ^ 31
  | _           => True

instance (s : System UInt8) : (e : Event UInt8) → Decidable (s.SmallTexts e)
  | .edit _ _ => inferInstanceAs (Decidable (ChainOk _ _ _ _))
  | .process | .deliver _ => inferInstanceAs (Decidable (_ < _))
  | .receive _ | .share _ _ | .join _ | .leave _ => isTrue trivial

/-- The server's document and those of its clients are valid UTF-8. -/
structure Valid (s : System UInt8) : Prop where
  server : Utf8.Valid s.session.doc.content
  client : ∀ u ∈ s.users, Utf8.Valid (s.clients u).doc.content

/-- Two conditions met along a chain. -/
theorem chain_and {P Q : List UInt8 → Operation UInt8 → Prop} (hp : ChainOk apply P d ops)
    (hq : ChainOk apply Q d ops) : ChainOk apply (fun d o => P d o ∧ Q d o) d ops := by
  induction ops generalizing d with
  | nil => trivial
  | cons op ops ih => exact ⟨⟨hp.1, hq.1⟩, ih hp.2 hq.2⟩

/-- A client's slot leaves the server's document and the other clients' alone. -/
theorem Valid.react (h : s.Valid) {u : UInt32} {c : OTController UInt8} (effects : List (Effect UInt8))
    (rest : List (ServerMsg UInt8)) (hc : Utf8.Valid c.doc.content) :
    ({ s with down := Function.update s.down u rest }.react u c effects).Valid := by
  refine ⟨h.server, fun w hw => ?_⟩
  by_cases hwu : w = u
  · subst hwu
    simp only [System.react, Function.update_self]
    exact hc
  · simp only [System.react, Function.update_of_ne hwu]
    exact h.client w hw

theorem content_process {cmd : DocCommand UInt8 UInt32} {rest : List (DocCommand UInt8 UInt32)}
    (htype : cmd.type = .operation) :
    ((s.session.setQueue rest).processCommand cmd).1.doc.content =
      acts apply s.session.doc.content (stored s.session.doc cmd) := by
  rw [processCommand_operation _ htype, handleOperation_fst, setQueue_doc]
  rcases s.session.doc.applyWithOt_cases cmd.operation with ⟨_, _, happ⟩ | ⟨doc, op, happ, _, hcontent, _⟩
  · rw [stored_error htype happ, happ]
    rfl
  · rw [stored_ok htype happ, happ]
    exact hcontent

/-- **Every step keeps the documents valid.** -/
theorem step_valid (h : s.Valid) (hf : Follows Whole s t) (hok : s.Meets Whole e) (hsmall : s.SmallTexts e)
    (hs : s.step e = some s') : s'.Valid := by
  have hadm := admissible_of hok.1
  cases e with
  | edit u ops =>
      obtain ⟨hu, -, rfl⟩ := edit_cases hs
      have hreact := h.react (u := u) (c := ((s.clients u).onLocalOperations ops).1)
        ((s.clients u).onLocalOperations ops).2 (s.down u) (by
          rw [content_onLocalOperations]
          exact valid_acts (h.client u hu) (chain_and hok.2 hsmall))
      rw [Function.update_eq_self] at hreact
      exact hreact
  | receive u =>
      obtain ⟨_, _, -, ⟨_, -, rfl⟩ | ⟨-, rfl⟩⟩ := receive_cases hs
      · exact ⟨h.server, h.client⟩
      · exact ⟨h.server, h.client⟩
  | share u msg =>
      obtain ⟨_, rfl⟩ | ⟨_, rfl⟩ := share_cases hs
      · exact ⟨h.server, h.client⟩
      · exact ⟨h.server, h.client⟩
  | process =>
      obtain ⟨cmd, rest, hq, rfl⟩ := process_cases hs
      obtain ⟨-, hchain⟩ := hf.carries.process whole_kept hf.refines hf.tracks hok.1.2.1 hadm hq
      refine ⟨?_, h.client⟩
      have hgen := hf.refines.genuine cmd (by rw [hq]; exact List.mem_cons_self)
      show Utf8.Valid ((s.session.setQueue rest).processCommand cmd).1.doc.content
      rw [content_process hgen.type]
      exact valid_acts_single h.server hsmall (length_stored_le _ _) hchain
  | deliver u =>
      obtain ⟨hu, msg, rest, c, effects, hd, hm, rfl⟩ := deliver_cases hs
      obtain ⟨-, hlen, hchain⟩ := hf.carries.deliver whole_kept hf.refines hf.tracks hf.coherent hf.few hadm hu hd hm
      refine h.react _ _ ?_
      rw [content_onNetworkMessage hm]
      exact valid_acts_single (h.client u hu) hsmall hlen hchain
  | join u =>
      obtain ⟨-, rfl⟩ := join_cases hs
      refine ⟨h.server, fun w hw => ?_⟩
      by_cases hwu : w = u
      · -- a newcomer gets the server's document
        subst hwu
        simp only [System.push, Function.update_self]
        exact h.server
      · simp only [System.push, Function.update_of_ne hwu]
        exact h.client w ((List.mem_cons.mp hw).resolve_left hwu)
  | leave u =>
      obtain ⟨-, -, rfl⟩ := leave_cases hs
      exact ⟨h.server, fun w hw => h.client w (List.mem_filter.mp hw).1⟩

/-- **The documents stay valid UTF-8**, on the server and in every client, in every run from a valid document in
    which the users edit between code points. Whatever is in flight tears no code point of the content it is
    based on, and whatever the server has stored none of the content it was applied to. -/
theorem documents_valid {doc : Document UInt8} {users : List UInt32} {username : UInt32 → String}
    {findUserId : String → Option UInt32} {access : AccessControl} {es : List (Event UInt8)}
    {s : System UInt8} (hw : doc.WindowExact) (hvalid : Utf8.Valid doc.content)
    (hr : Machine.run step (start doc users username findUserId access) es = some s)
    (hok : Machine.Along step (fun s e => s.Meets Whole e ∧ s.SmallTexts e)
      (start doc users username findUserId access) es) :
    Utf8.Valid s.session.doc.content ∧ (∀ u ∈ s.users, Utf8.Valid (s.clients u).doc.content) ∧
      (∀ u ∈ s.users, ∀ o ∈ s.inFlight u, Whole (s.contentAt o.revision) o) ∧
      ChainOk apply Whole s.base.content s.log := by
  have hinv : s.Valid ∧ ∃ t, Follows Whole s t :=
    Machine.run_invariant (I := fun s => s.Valid ∧ ∃ t, Follows Whole s t)
      (fun _ _ _ ⟨hv, _, hf⟩ ⟨hmeet, hsmall⟩ hs =>
        ⟨step_valid hv hf hmeet hsmall hs, step_follows whole_kept hf hmeet hs⟩)
      ⟨⟨hvalid, fun _ _ => hvalid⟩, _, start_follows hw users username findUserId access⟩ hok hr
  obtain ⟨⟨hserver, hclient⟩, _, hf⟩ := hinv
  exact ⟨hserver, hclient, hf.carries.flight, hf.carries.log⟩

/-- Two users edit `né`. -/
def accented : System UInt8 :=
  start ((Document.create 1 "t").setContent (Utf8.bytes ['n', 'é'])) [1, 2] (fun _ => "") (fun _ => none)
    (twoRights 1)

/-- User 1 appends an emoji while user 2 deletes the `é`, and goes on typing before the acknowledgement. -/
def accentedRun : List (Event UInt8) :=
  [.edit 1 [makeInsert 3 (Utf8.bytes ['😀']) 0 0], .edit 2 [makeDelete 1 2 [] 0 0], .receive 2, .process,
    .edit 1 [makeInsert 7 (Utf8.bytes ['ñ']) 0 0], .receive 1, .process, .deliver 1, .deliver 2]

theorem documents_valid_accented :
    ∃ s, Machine.run step accented accentedRun = some s ∧ Utf8.Valid s.session.doc.content ∧
      (∀ u ∈ s.users, Utf8.Valid (s.clients u).doc.content) ∧
      (∀ u ∈ s.users, ∀ o ∈ s.inFlight u, Whole (s.contentAt o.revision) o) ∧
      ChainOk apply Whole s.base.content s.log :=
  have hrun : (Machine.run step accented accentedRun).isSome := by decide
  ⟨_, (Option.some_get hrun).symm, @documents_valid ((Document.create 1 "t").setContent (Utf8.bytes ['n', 'é']))
    [1, 2] (fun _ => "") (fun _ => none) (twoRights 1) accentedRun _ rfl (by decide)
    (Option.some_get hrun).symm (by decide)⟩

end Valid

end System

end CollabEditor
