import CollabEditor.System.Refinement

/-!
# `System.Acknowledgement` — the acknowledged operation is the stored one

The server rewrites an operation in one loop over its history, the client one broadcast at a time while its
revision moves. When the acknowledgement arrives both have the same operation (`ack_matches_stored`), for
arbitrary positions and lengths, in every run that stays below `2^32` revisions.

The revision is a `uint32_t`. `wrap_mismatches` is a run from a document that has stored `2^32 - 1`
operations: the next one wraps the counter to zero, the operation after it is based on revision `2^32 - 1`,
is neither refused nor transformed, and its author receives an acknowledgement for another operation than
the one it has pending.
-/

namespace CollabEditor

open Diamond OTController DocumentSession

variable {α : Type}

namespace System

/-- Two records of one operation: same type, position and length, and same text for an insertion. -/
structure SameOperation (p e : Operation α) : Prop where
  type     : p.type = e.type
  position : p.position = e.position
  text     : p.type = .insert → p.text = e.text
  length   : p.length = e.length

theorem sameOperation_of_wire {p e : Operation α} (hp : p.WellFormed) (he : e.WellFormed)
    (h : p.wire = e.wire) : SameOperation p e where
  type := by rw [← p.wire_type, h, e.wire_type]
  position := by rw [← p.wire_position, h, e.wire_position]
  text := by
    intro ht
    have hte : e.type = .insert := by rw [← e.wire_type, ← h, p.wire_type, ht]
    rw [Operation.wire_insert ht, Operation.wire_insert hte, makeInsert, makeInsert] at h
    injection h
  length := by rw [← Operation.wire_length hp, h, Operation.wire_length he]

/-- The notices of the log from index `j` on contain that of every later entry. -/
theorem mem_noticesFrom (base : Document α) (username : UInt32 → String) (u : UInt32)
    {log : List (Operation α)} {j k : ℕ} (hjk : j ≤ k) {e : Operation α} (h : log[k]? = some e) :
    notice base username u k e ∈ noticesFrom base username u j (log.drop j) := by
  have hdrop : log.drop j = (log.drop j).take (k - j) ++ e :: log.drop (k + 1) := by
    obtain ⟨hlt, hget⟩ := List.getElem?_eq_some_iff.mp h
    have htail : (log.drop j).drop (k - j) = e :: log.drop (k + 1) := by
      rw [List.drop_drop, Nat.add_sub_of_le hjk, List.drop_eq_getElem_cons hlt, hget]
    rw [← htail, List.take_append_drop]
  rw [hdrop, noticesFrom_append, List.length_take, List.length_drop]
  have hlt := (List.getElem?_eq_some_iff.mp h).1
  rw [show j + min (k - j) (log.length - j) = k by omega, noticesFrom]
  exact List.mem_append_right _ List.mem_cons_self

/-- The acknowledgement `msg` that user `u` is about to read fits: the pending operation is the one stored
    as revision `msg.revision`, in the history as far as it reaches back and in the broadcasts sent to the
    other users. -/
def AckMatches (s : System α) (u : UInt32) (msg : OperationAckMsg) : Prop :=
  ∃ p e, (s.clients u).pendingOp = some p ∧
    s.log[(msg.revision - 1 - s.base.revision).toNat]? = some e ∧ SameOperation p e ∧
    (s.session.doc.oldestRevision < msg.revision →
      s.session.doc.history[(msg.revision - 1 - s.session.doc.oldestRevision).toNat]? = some e) ∧
    ∀ w ∈ s.users, w ≠ u → s.openedAt w ≤ (msg.revision - 1 - s.base.revision).toNat →
      ServerMsg.operationBroadcast
        { docId := s.base.id, userId := u, username := s.username u, revision := msg.revision,
          ops := [toEntry e] } ∈ s.sentDown w

/-- Indices computed with 32-bit words, below the wrap. -/
theorem toNat_index {a b : UInt32} {k : ℕ} (h : a.toNat = b.toNat + k + 1) :
    (a - 1 - b).toNat = k := by
  have h1 : (1 : UInt32).toNat = 1 := rfl
  have hsub : (a - 1).toNat = a.toNat - 1 := Word.toNat_sub (by omega)
  rw [Word.toNat_sub (by omega), hsub]
  omega

/-- An entry of the log that the history still holds is found there. -/
theorem history_getElem? {doc₀ doc : Document α} {log : List (Operation α)} (h : doc₀.Follows log doc)
    {r : UInt32} {k : ℕ} {e : Operation α} (hr : r.toNat = doc₀.revision.toNat + k + 1)
    (hold : doc.oldestRevision < r) (hk : log[k]? = some e) :
    doc.history[(r - 1 - doc.oldestRevision).toNat]? = some e := by
  have hlt := UInt32.lt_iff_toNat_lt.mp hold
  have hbase := h.base
  have hle := h.oldest
  unfold Document.WindowExact at hbase
  have hidx : (r - 1 - doc.oldestRevision).toNat = r.toNat - 1 - doc.oldestRevision.toNat :=
    toNat_index (by omega)
  rw [hidx, h.history, List.getElem?_drop, List.getElem?_append_right (by omega), ← hk]
  congr 1
  omega

/-- **Client and server compute the same operation.** In every run below `2^32` revisions, with arbitrary
    positions and lengths, an acknowledgement that reaches its user finds the pending operation equal to
    the one stored under its revision and broadcast to the others. -/
theorem ack_matches_stored {doc : Document α} (hw : doc.WindowExact) {users : List UInt32}
    {username : UInt32 → String} {findUserId : String → Option UInt32} {access : AccessControl}
    {es : List (Event α)} {s : System α}
    (hr : Machine.run step (start doc users username findUserId access) es = some s)
    (hfew : doc.revision.toNat + s.log.length < 2 ^ 32) {u : UInt32} (hu : u ∈ s.users)
    {msg : OperationAckMsg} {rest : List (ServerMsg α)} (hd : s.down u = .operationAck msg :: rest) :
    s.AckMatches u msg := by
  have hbase : s.base = doc := (run_extends hr).base
  obtain ⟨t, h, ht⟩ := run_tracks (start_refines hw users username findUserId access) Star.Tracks.init hr
    (by rw [hbase]; exact hfew)
  have hm := h.mirrors u hu
  rw [hd, List.filter_cons_of_pos rfl] at hm
  obtain ⟨e, hlog, hmsg, _⟩ := noticesFrom_cons hm.incoming
  have hlt := (List.getElem?_eq_some_iff.mp hlog).1
  -- an acknowledgement tells of the user's own entry
  have he : e.userId = u := by
    by_contra hne
    rw [notice, if_neg hne] at hmsg
    cases hmsg
  rw [notice, if_pos he] at hmsg
  injection hmsg with hmsg
  subst hmsg
  have hrev : (revisionAt s.base ((t.replicas u).seen + 1)).toNat =
      s.base.revision.toNat + (t.replicas u).seen + 1 := by
    rw [toNat_revisionAt (by rw [hbase]; omega)]
    rfl
  -- which is what the oldest outstanding operation has become
  have htlog : t.log[(t.replicas u).seen]? = some e.wire := by
    rw [h.log, List.getElem?_map, hlog]
    rfl
  obtain ⟨later, _, hqueue, _⟩ := (ht.phase u).head_eq htlog (by rw [Operation.wire_userId]; exact he)
  obtain ⟨p, ps, hout, hpe, _⟩ := List.map_eq_cons_iff.mp (hm.queue.trans hqueue)
  have hwfp : p.WellFormed := hm.wellFormed p (by rw [hout]; exact List.mem_cons_self)
  have hwfe : e.WellFormed := h.wellFormed e (List.mem_of_getElem? hlog)
  refine ⟨p, e, ?_, ?_, sameOperation_of_wire hwfp hwfe hpe, ?_, ?_⟩
  · rw [hm.consistent.pendingOp_eq, hout]
    rfl
  · rw [toNat_index hrev]
    exact hlog
  · exact fun hold => history_getElem? h.follows hrev hold hlog
  · intro w hw hne hopened
    rw [toNat_index hrev] at hopened
    have hmem := mem_noticesFrom s.base s.username w hopened hlog
    rw [← h.sentDown w hw] at hmem
    have hsent := List.mem_of_mem_filter hmem
    rw [notice, if_neg (by rw [he]; exact Ne.symm hne), he] at hsent
    exact hsent

/-- Rights of two users to edit one document. -/
def twoRights (docId : UInt32) : AccessControl :=
  (({} : AccessControl).grant docId 1 .owner).grant docId 2 .editor

/-- A document with two editors. -/
def twoEditors (doc : Document Char) : System Char :=
  start doc [1, 2] (fun _ => "") (fun _ => none) (twoRights doc.id)

/-- User 1 inserts `x` after the first byte while the `y` of user 2 is stored before it. -/
def concurrentRun : List (Event Char) :=
  [.edit 1 [makeInsert 1 ['x'] 0 0], .edit 2 [makeInsert 0 ['y'] 0 0], .receive 2, .process,
    .receive 1, .process, .deliver 1]

theorem ack_matches_stored_concurrent :
    ∃ s, Machine.run step (twoEditors ((Document.create 1 "t").setContent "AB".toList)) concurrentRun =
        some s ∧ s.AckMatches 1 { docId := 1, revision := 2 } :=
  ⟨_, rfl, @ack_matches_stored Char ((Document.create 1 "t").setContent "AB".toList) rfl [1, 2]
    (fun _ => "") (fun _ => none) (twoRights 1) concurrentRun _ rfl (by decide) 1 (by decide)
    { docId := 1, revision := 2 } [] rfl⟩

/-! ## The wrap of the revision counter -/

/-- A deletion of nothing, based on revision `i`. -/
def quietOperation (i : ℕ) : Operation Char := makeDelete 0 0 [] 1 (UInt32.ofNat i)

/-- An empty document after `n` operations that change nothing. -/
def agedDocument (n : ℕ) : Document Char :=
  (List.range n).foldl (fun doc i => (doc.applyWithOt (quietOperation i)).1) (Document.create 1 "t")

/-- What is known of the aged document, whatever its history. -/
structure Aged (n : ℕ) (doc : Document Char) : Prop where
  window   : doc.WindowExact
  revision : doc.revision.toNat = n
  length   : doc.history.length = min n 10000
  limit    : doc.historyLimit = 10000
  content  : doc.content = []
  id       : doc.id = 1

theorem agedDocument_aged {n : ℕ} (hn : n < 2 ^ 32) : Aged n (agedDocument n) := by
  induction n with
  | zero => exact ⟨rfl, rfl, rfl, rfl, rfl, rfl⟩
  | succ n ih =>
      have h := ih (by omega)
      have hrev : (quietOperation n).revision.toNat = n := Word.toNat_ofNat (by omega)
      have hwindow := h.window
      unfold Document.WindowExact at hwindow
      have hin : (agedDocument n).InWindow (quietOperation n).revision := by
        refine ⟨?_, ?_⟩
        · have := h.revision
          rw [hrev]
          omega
        · rw [hrev, h.revision]
      obtain ⟨doc, happ, hfol, hlimit, hid, hlength⟩ :=
        (Document.Follows.refl h.window).applyWithOt hin (by rw [h.revision]; omega)
      have hstep : agedDocument (n + 1) = doc := by
        unfold agedDocument
        rw [List.range_succ, List.foldl_append, List.foldl_cons, List.foldl_nil]
        exact congrArg Prod.fst happ
      rw [hstep]
      refine ⟨hfol.window, ?_, ?_, hlimit.trans h.limit, ?_, hid.trans h.id⟩
      · rw [hfol.revision, h.revision]
        rfl
      · have h10000 : (10000 : UInt32).toNat = 10000 := rfl
        rw [hlength, h.length, h.limit, h10000]
        omega
      · -- a deletion from the empty text
        have htype : (rebase xform (quietOperation n) ((agedDocument n).since
            (quietOperation n).revision)).type = .delete := by
          rw [type_rebase]
          rfl
        rw [hfol.content, h.content]
        simp [acts, apply, htype]

theorem exists_aged : ∃ doc, doc = agedDocument 4294967295 ∧ Aged 4294967295 doc :=
  ⟨_, rfl, agedDocument_aged (by norm_num)⟩

/-- A document with the named fields overwritten. -/
def pinned (doc : Document Char) : Document Char :=
  { doc with id := 1, content := [], revision := 4294967295, oldestRevision := 4294957295 }

theorem Aged.eq_pinned {doc : Document Char} (h : Aged 4294967295 doc) : doc = pinned doc := by
  have hwindow := h.window
  unfold Document.WindowExact at hwindow
  rw [h.revision, h.length] at hwindow
  have hold : doc.oldestRevision = 4294957295 := by
    apply UInt32.toNat_inj.mp
    show _ = 4294957295
    omega
  have hrev : doc.revision = 4294967295 := UInt32.toNat_inj.mp h.revision
  have hid := h.id
  have hcontent := h.content
  cases doc
  dsimp only at hid hcontent hrev hold
  rw [hid, hcontent, hrev, hold]
  rfl

/-- The aged document one operation before the wrap, with what is known of it in place; the rest is chosen,
    because `2^32` operations cannot be run. -/
noncomputable def fullDocument : Document Char := pinned exists_aged.choose

theorem agedDocument_eq : agedDocument 4294967295 = fullDocument :=
  exists_aged.choose_spec.1.symm.trans exists_aged.choose_spec.2.eq_pinned

/-- Two concurrent operations on the aged document: user 1 inserts `a`, user 2 deletes at position 5. -/
def wrapRun : List (Event Char) :=
  [.edit 1 [makeInsert 0 ['a'] 0 0], .edit 2 [makeDelete 5 1 [] 0 0], .receive 1, .receive 2, .process,
    .process, .deliver 2]

/-- **Past `2^32` revisions an acknowledgement can be for another operation.** The document has stored
    `2^32 - 1` operations; the acknowledgement of user 2's deletion finds it at position 6 in the client,
    and stored at position 5. -/
theorem wrap_mismatches :
    ∃ s, Machine.run step (twoEditors (agedDocument 4294967295)) wrapRun = some s ∧
      ∃ msg rest, s.down 2 = .operationAck msg :: rest ∧ ¬ s.AckMatches 2 msg := by
  rw [agedDocument_eq]
  refine ⟨_, rfl, ?_⟩
  refine ⟨_, _, rfl, ?_⟩
  rintro ⟨p, e, hp, he, hsame, _⟩
  cases hp
  cases he
  exact absurd hsame.position (by decide)

end System

end CollabEditor
