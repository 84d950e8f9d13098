import CollabEditor.Client.OTController
import CollabEditor.Core.Document
import CollabEditor.Lib.Star

/-!
# `System.Mirror` — a controller as a replica

`Mirrors` ties one `OTController`, the operations it has under way and the notices still on their way to
it to an abstract replica of `Lib.Star`. The replica holds operations in wire form; the base document
fixes which revision number the beginning of the log has.

## Contents
- **Notices.** `notice`, the message that tells a user of a log entry, and `noticesFrom`.
- **`Mirrors`**, and one lemma per slot: `Mirrors.edits`, `Mirrors.deliver`.
-/

namespace CollabEditor

open Diamond OTController

variable {α : Type}

/-- The revision number after the first `k` entries of the log. -/
def revisionAt (base : Document α) (k : ℕ) : UInt32 := UInt32.ofNat (base.revision.toNat + k)

theorem toNat_revisionAt {base : Document α} {k : ℕ} (h : base.revision.toNat + k < 2 ^ 32) :
    (revisionAt base k).toNat = base.revision.toNat + k := Word.toNat_ofNat h

@[simp] theorem revisionAt_zero (base : Document α) : revisionAt base 0 = base.revision := by
  unfold revisionAt
  rw [Nat.add_zero, UInt32.ofNat_toNat]

/-- How user `u` hears of the log entry `e` at index `k`: its author gets an acknowledgement. -/
def notice (base : Document α) (username : UInt32 → String) (u : UInt32) (k : ℕ) (e : Operation α) :
    ServerMsg α :=
  if e.userId = u then .operationAck { docId := base.id, revision := revisionAt base (k + 1) }
  else .operationBroadcast
    { docId := base.id, userId := e.userId, username := username e.userId,
      revision := revisionAt base (k + 1), ops := [toEntry e] }

/-- The notices of a stretch of the log that begins at index `k`. -/
def noticesFrom (base : Document α) (username : UInt32 → String) (u : UInt32) :
    ℕ → List (Operation α) → List (ServerMsg α)
  | _, []      => []
  | k, e :: es => notice base username u k e :: noticesFrom base username u (k + 1) es

/-- The operations the server reads from a message of user `u`. -/
def received (u : UInt32) (msg : OperationMsg α) : List (Operation α) :=
  msg.ops.map (fromEntry · u msg.revision)

section Notices

variable {base : Document α} {username : UInt32 → String} {u : UInt32}

theorem noticesFrom_append (k : ℕ) (es es' : List (Operation α)) :
    noticesFrom base username u k (es ++ es') =
      noticesFrom base username u k es ++ noticesFrom base username u (k + es.length) es' := by
  induction es generalizing k with
  | nil => rfl
  | cons e es ih =>
      rw [List.cons_append, noticesFrom, ih, noticesFrom, List.cons_append, List.length_cons,
        show k + 1 + es.length = k + (es.length + 1) by omega]

theorem noticesFrom_snoc (k : ℕ) (es : List (Operation α)) (e : Operation α) :
    noticesFrom base username u k (es ++ [e]) =
      noticesFrom base username u k es ++ [notice base username u (k + es.length) e] :=
  noticesFrom_append k es [e]

theorem isNotice_notice (k : ℕ) (e : Operation α) :
    (notice base username u k e).isNotice = true := by
  unfold notice
  split_ifs <;> rfl

theorem throughJson_notice (k : ℕ) (e : Operation α) :
    (notice base username u k e).throughJson = notice base username u k e := by
  unfold notice
  split_ifs
  · rfl
  · simp only [ServerMsg.throughJson, List.map_singleton, toEntry_throughJson]

/-- The notices from the reader's index on determine the next log entry. -/
theorem noticesFrom_cons {log : List (Operation α)} {k : ℕ} {msg : ServerMsg α}
    {rest : List (ServerMsg α)} (h : msg :: rest = noticesFrom base username u k (log.drop k)) :
    ∃ e, log[k]? = some e ∧ msg = notice base username u k e ∧
      rest = noticesFrom base username u (k + 1) (log.drop (k + 1)) := by
  cases hdrop : log.drop k with
  | nil => rw [hdrop] at h; cases h
  | cons e es =>
      have hlt : k < log.length := by
        by_contra hge
        rw [List.drop_of_length_le (Nat.le_of_not_lt hge)] at hdrop
        cases hdrop
      rw [List.drop_eq_getElem_cons hlt] at hdrop
      injection hdrop with he hes
      rw [List.drop_eq_getElem_cons hlt, noticesFrom] at h
      injection h with h1 h2
      exact ⟨log[k], List.getElem?_eq_getElem hlt, h1, h2⟩

end Notices

theorem wire_fromEntry_toEntry (op : Operation α) (r : UInt32) :
    (fromEntry (toEntry op) op.userId r).wire = op.wire := by
  cases h : op.type with
  | insert => simp [Operation.wire, toEntry, fromEntry, h, makeInsert]
  | delete => simp [Operation.wire, toEntry, fromEntry, h, makeDelete]

theorem wellFormed_fromEntry (entry : OpEntry α) (u r : UInt32) :
    (fromEntry entry u r).WellFormed := by
  unfold fromEntry
  split_ifs
  · exact Operation.wellFormed_makeInsert _ _ _ _
  · exact Operation.wellFormed_makeDelete _ _ _ _ _

/-- What the server reads from the message that `sendOp` builds. -/
theorem received_sendOp (c : OTController α) (u : UInt32) (op : Operation α) :
    received u (c.sendOp op).throughJson = [fromEntry (toEntry op) u c.revision] := by
  unfold received sendOp OperationMsg.throughJson
  simp only [List.map_singleton, toEntry_throughJson]

theorem inRange_stamp {c : OTController α} {d : List α} {op : Operation α} :
    InRange d (c.stamp op) ↔ InRange d op := by
  have htype : (c.stamp op).type = op.type := rfl
  cases h : op.type with
  | insert => rw [inRange_insert h, inRange_insert (htype.trans h)]; rfl
  | delete => rw [inRange_delete h, inRange_delete (htype.trans h)]; rfl

/-! ## The relation -/

/-- The operations that the messages among some effects carry to the server. -/
def departing (u : UInt32) (effects : List (Effect α)) : List (Operation α) :=
  ((sends effects).map OperationMsg.throughJson).flatMap (received u)

theorem departing_append (u : UInt32) (es es' : List (Effect α)) :
    departing u (es ++ es') = departing u es ++ departing u es' := by
  unfold departing
  rw [sends_append, List.map_append, List.flatMap_append]

/-- **A controller mirrors a replica**: same content, same outstanding operations up to the wire form, the
    revision of what it has seen; the notices on their way are those of the rest of the log, and at most
    the operation that the replica has sent is on its way to the server. -/
structure Mirrors (base : Document α) (username : UInt32 → String) (u : UInt32)
    (log : List (Operation α)) (c : OTController α) (flight : List (Operation α))
    (incoming : List (ServerMsg α)) (r : Star.Replica (List α) (Operation α)) : Prop where
  consistent  : c.Consistent
  userId      : c.userId = u
  docId       : c.docId = base.id
  content     : c.doc.content = r.doc
  revision    : c.revision = revisionAt base r.seen
  docRevision : c.doc.revision = c.revision
  queue       : c.outstanding.map Operation.wire = r.queue
  wellFormed  : AllWellFormed c.outstanding
  incoming    : incoming = noticesFrom base username u r.seen (log.drop r.seen)
  flight      : flight = [] ∨ ∃ b o, flight = [o] ∧ r.sent = some (b, o.wire) ∧
    o.revision = revisionAt base b ∧ o.WellFormed ∧ o.userId = u

namespace Mirrors

variable {base : Document α} {username : UInt32 → String} {u : UInt32} {log : List (Operation α)}
  {c : OTController α} {flight : List (Operation α)} {incoming : List (ServerMsg α)}
  {r : Star.Replica (List α) (Operation α)}

theorem flight_nil (h : Mirrors base username u log c flight incoming r) (hs : r.sent = none) :
    flight = [] := by
  rcases h.flight with hnil | ⟨b, o, _, hsent, _⟩
  · exact hnil
  · rw [hs] at hsent; cases hsent

/-- What is on its way to the server may be dropped. -/
theorem of_sublist {flight' : List (Operation α)} (h : Mirrors base username u log c flight incoming r)
    (hsub : flight'.Sublist flight) : Mirrors base username u log c flight' incoming r := by
  refine { h with flight := ?_ }
  rcases h.flight with rfl | ⟨b, o, rfl, hrest⟩
  · exact .inl (List.eq_nil_of_sublist_nil hsub)
  · rcases List.sublist_singleton.mp hsub with rfl | rfl
    · exact .inl rfl
    · exact .inr ⟨b, o, rfl, hrest⟩

/-- The sequencer stores an entry: one more notice is on its way. -/
theorem append (h : Mirrors base username u log c flight incoming r) (hle : r.seen ≤ log.length)
    (e : Operation α) : Mirrors base username u (log ++ [e]) c flight
      (incoming ++ [notice base username u log.length e]) r := by
  refine { h with incoming := ?_ }
  rw [List.drop_append_of_le_length hle, noticesFrom_snoc, ← h.incoming, List.length_drop,
    Nat.add_sub_of_le hle]

/-- Nothing is on its way to the server any more. -/
theorem landed (h : Mirrors base username u log c flight incoming r) :
    Mirrors base username u log c [] incoming { r with sent := none } :=
  ⟨h.consistent, h.userId, h.docId, h.content, h.revision, h.docRevision, h.queue, h.wellFormed,
    h.incoming, .inl rfl⟩

/-- **A local operation** that does something. -/
theorem edit (h : Mirrors base username u log c flight incoming r) (hidle : r.queue = [] → r.sent = none)
    {op : Operation α} (hop : op.WellFormed) (hn : op.isNoop = false) :
    Mirrors base username u log (c.onLocalOperation op).1
      (flight ++ departing u (c.onLocalOperation op).2.1) incoming
      (r.edit apply (c.stamp op).wire) := by
  obtain ⟨hcons, hsame, hrev, hdoc, hout, hsends⟩ := onLocalOperation_spec h.consistent hn
  have hstamp : (c.stamp op).WellFormed := hop
  refine ⟨hcons, hsame.userId.trans h.userId, hsame.docId.trans h.docId, ?_, hrev.trans h.revision, ?_,
    ?_, ?_, h.incoming, ?_⟩
  · rw [hdoc]
    simp only [LocalDocument.apply, Star.Replica.edit, apply_wire, h.content]
  · rw [hdoc, hrev]
    exact h.docRevision
  · rw [hout, List.map_append, List.map_singleton, h.queue]
    rfl
  · rw [hout]
    intro o ho
    rcases List.mem_append.mp ho with hold | hnew
    · exact h.wellFormed o hold
    · rw [List.mem_singleton.mp hnew]; exact hstamp
  · -- it is sent at once exactly when nothing was outstanding
    have hempty : r.queue.isEmpty = c.outstanding.isEmpty := by rw [← h.queue, List.isEmpty_map]
    simp only [departing, hsends, Star.Replica.edit, hempty]
    by_cases he : c.outstanding.isEmpty = true
    · rw [if_pos he, if_pos he, List.map_singleton, List.flatMap_singleton, received_sendOp,
        h.flight_nil (hidle (List.isEmpty_iff.mp (hempty ▸ he))), List.nil_append]
      refine .inr ⟨r.seen, _, rfl, ?_, ?_, wellFormed_fromEntry _ _ _, userId_fromEntry _ _ _⟩
      · have hu : (c.stamp op).userId = u := h.userId
        rw [← hu, wire_fromEntry_toEntry]
      · rw [revision_fromEntry, h.revision]
    · rw [if_neg he, if_neg he, List.map_nil, List.flatMap_nil, List.append_nil]
      exact h.flight

/-- **A batch of local operations**: each one that does something is an edit of the replica. -/
theorem edits (h : Mirrors base username u log c flight incoming r) (hidle : r.queue = [] → r.sent = none)
    {ops : List (Operation α)} (hops : AllWellFormed ops) :
    ∃ os, (∀ o ∈ os, o.userId = u) ∧
      (ChainOk apply InRange r.doc ops → ChainOk apply InRange r.doc os) ∧
      Mirrors base username u log (c.localLoop ops).1 (flight ++ departing u (c.localLoop ops).2.1)
        incoming (os.foldl (Star.Replica.edit apply) r) := by
  induction ops generalizing c flight r with
  | nil => exact ⟨[], by simp, id, by simpa [localLoop, departing] using h⟩
  | cons op ops ih =>
      have hop := hops op List.mem_cons_self
      have hrest : AllWellFormed ops := fun o ho => hops o (List.mem_cons_of_mem op ho)
      cases hn : op.isNoop with
      | true =>
          obtain ⟨os, hos, hchain, hm⟩ := ih h hidle hrest
          refine ⟨os, hos, fun hc => hchain ?_, ?_⟩
          · have := hc.2
            rwa [apply_noop hn] at this
          · simp only [localLoop, onLocalOperation_noop hn, List.nil_append]
            exact hm
      | false =>
          have h' := h.edit hidle hop hn
          obtain ⟨os, hos, hchain, hm⟩ := ih h' (fun hq => by simp [Star.Replica.edit] at hq) hrest
          refine ⟨(c.stamp op).wire :: os, ?_, ?_, ?_⟩
          · intro o ho
            rcases List.mem_cons.mp ho with rfl | hmem
            · rw [Operation.wire_userId]; exact h.userId
            · exact hos o hmem
          · intro hc
            have hdoc : (r.edit apply (c.stamp op).wire).doc = apply r.doc op := apply_wire _ _
            rw [hdoc] at hchain
            refine ⟨?_, ?_⟩
            · have hwf : (c.stamp op).WellFormed := hop
              exact (inRange_wire hwf).mpr (inRange_stamp.mpr hc.1)
            · rw [apply_wire]
              exact hchain hc.2
          · simp only [localLoop, departing_append, List.foldl_cons]
            rw [← List.append_assoc]
            exact hm

/-- **The acknowledgement** of the user's own entry. -/
theorem ack {e : Operation α} {rest : List (ServerMsg α)}
    (h : Mirrors base username u log c flight (notice base username u r.seen e :: rest) r)
    (hrest : rest = noticesFrom base username u (r.seen + 1) (log.drop (r.seen + 1)))
    (he : e.userId = u) (hsent : r.sent = none) (hsites : ∀ q ∈ r.queue, q.userId = u) :
    ∃ c' effects, c.onNetworkMessage (notice base username u r.seen e) = some (c', effects) ∧
      Mirrors base username u log c' (flight ++ departing u effects) rest r.ack := by
  obtain ⟨c', effects, heq, hcons, hsame, hrev, hdoc, hout, hsends⟩ := handleAck_spec h.consistent
    { docId := base.id, revision := revisionAt base (r.seen + 1) }
  refine ⟨c', effects, ?_, hcons, hsame.userId.trans h.userId, hsame.docId.trans h.docId, ?_, hrev, ?_,
    ?_, ?_, hrest, ?_⟩
  · rw [notice, if_pos he, onNetworkMessage, if_pos h.docId.symm]
    exact heq
  · rw [hdoc]
    exact h.content
  · rw [hdoc, hrev]
    rfl
  · rw [hout, List.map_tail, h.queue]
    rfl
  · rw [hout]
    exact fun o ho => h.wellFormed o (List.mem_of_mem_tail ho)
  · rw [h.flight_nil hsent, List.nil_append]
    simp only [departing, hsends, Star.Replica.ack, ← h.queue, ← List.map_tail, List.head?_map]
    cases htail : c.outstanding.tail.head? with
    | none => exact .inl rfl
    | some q =>
        have hq : q ∈ c.outstanding := List.mem_of_mem_tail (List.mem_of_mem_head? htail)
        have hu : q.userId = u := by
          rw [← Operation.wire_userId]
          exact hsites _ (h.queue ▸ List.mem_map_of_mem hq)
        simp only [Option.map_some, Option.toList_some, List.map_singleton, List.flatMap_singleton,
          received_sendOp]
        refine .inr ⟨r.seen + 1, _, rfl, ?_, ?_, wellFormed_fromEntry _ _ _, userId_fromEntry _ _ _⟩
        · rw [← hu, wire_fromEntry_toEntry]
        · rw [revision_fromEntry, hrev]

/-- **The broadcast** of another user's entry. -/
theorem broadcast {e : Operation α} {rest : List (ServerMsg α)}
    (h : Mirrors base username u log c flight (notice base username u r.seen e :: rest) r)
    (hrest : rest = noticesFrom base username u (r.seen + 1) (log.drop (r.seen + 1)))
    (he : e.userId ≠ u) :
    ∃ c' effects, c.onNetworkMessage (notice base username u r.seen e) = some (c', effects) ∧
      Mirrors base username u log c' (flight ++ departing u effects) rest
        (r.receive apply xform e.wire) := by
  obtain ⟨c', effects, heq, hcons, hsame, hrev, hdrev, hdoc, hout, hsends⟩ :=
    @handleBroadcast_spec α c h.consistent
      { docId := base.id, userId := e.userId, username := username e.userId,
        revision := revisionAt base (r.seen + 1), ops := [toEntry e] } (toEntry e)
      (by rw [h.userId]; exact he) rfl
  have hwf := wellFormed_fromEntry (toEntry e) e.userId (revisionAt base (r.seen + 1))
  have hwire := wire_fromEntry_toEntry e (revisionAt base (r.seen + 1))
  obtain ⟨hev1, hev2⟩ := wire_evolve hwf h.wellFormed
  rw [hwire, h.queue] at hev1 hev2
  refine ⟨c', effects, ?_, hcons, hsame.userId.trans h.userId, hsame.docId.trans h.docId, ?_, hrev,
    hdrev.trans hrev.symm, ?_, ?_, hrest, ?_⟩
  · rw [notice, if_neg he, onNetworkMessage, if_pos h.docId.symm]
    exact heq
  · rw [hdoc, h.content, ← apply_wire, hev2]
    rfl
  · rw [hout, hev1]
    rfl
  · rw [hout]
    exact (wellFormed_evolve hwf h.wellFormed).1
  · rw [departing, hsends, List.map_nil, List.flatMap_nil, List.append_nil]
    exact h.flight

end Mirrors

end CollabEditor
