import CollabEditor.System.Collaboration
import CollabEditor.System.Mirror

/-!
# `System.Refinement` — the system refines the star protocol

Every step of `System` is matched by steps of `Lib.Star` at the operations of the program in wire form: a
batch of local edits by its edits, the processing of an accepted operation by its sequencing, the delivery
of an acknowledgement or broadcast by its delivery, and everything else by nothing. A refused operation is
one that the abstract protocol never sequences.

## Contents
- **The relation.** `Refines`, `start_refines`.
- **One lemma per event**, collected in `step_refines`.
- **Runs.** `run_tracks` holds for arbitrary positions; `run_coherent` needs `Admissible` at each step.
-/

namespace CollabEditor

open Diamond OTController DocumentSession

variable {α : Type}

namespace System

/-- The operations of a user between the controller and the document: queued, or still in the channel. -/
def inFlight (s : System α) (u : UInt32) : List (Operation α) :=
  (s.session.commandQueue.filter (·.userId == u)).map DocCommand.operation ++
    (s.up u).flatMap (received u)

/-- A command of the queue is an operation of a user who has the document open. -/
structure Genuine (s : System α) (cmd : DocCommand α UInt32) : Prop where
  type     : cmd.type = .operation
  user     : cmd.userId ∈ s.users
  username : cmd.username = s.username cmd.userId

/-- **The refinement relation**: the log in wire form is the abstract log, the document follows the log,
    every user with the document open mirrors its replica, and the table of connected users names exactly
    these users. -/
structure Refines (s : System α) (t : Star.State (List α) (Operation α) UInt32) : Prop where
  follows    : s.base.Follows s.log s.session.doc
  docId      : s.session.doc.id = s.base.id
  log        : t.log = s.log.map Operation.wire
  wellFormed : AllWellFormed s.log
  owned      : s.session.Owned id
  registered : ∀ u ∈ s.users, s.session.registered u = some u
  genuine    : ∀ cmd ∈ s.session.commandQueue, s.Genuine cmd
  senders    : ∀ u, s.up u ≠ [] → u ∈ s.users
  mirrors    : ∀ u ∈ s.users, Mirrors s.base s.username u s.log (s.clients u) (s.inFlight u)
    ((s.down u).filter ServerMsg.isNotice) (t.replicas u)
  openedAt   : ∀ u, s.openedAt u ≤ s.log.length
  sentDown   : ∀ u ∈ s.users, (s.sentDown u).filter ServerMsg.isNotice =
    noticesFrom s.base s.username u (s.openedAt u) (s.log.drop (s.openedAt u))

/-- The abstract protocol at the program's operations. -/
abbrev starStep : Star.State (List α) (Operation α) UInt32 → Star.Event (List α) (Operation α) UInt32 →
    Option (Star.State (List α) (Operation α) UInt32) :=
  Star.step apply xform Operation.userId

/-! ## The start -/

theorem lookup_table (users : List UInt32) (username : UInt32 → String) (u : UInt32) :
    (users.foldr (fun u table => table.insert u (connected username u))
      (∅ : AList fun _ : UInt32 => ConnectedUser UInt32)).lookup u =
      if u ∈ users then some (connected username u) else none := by
  induction users with
  | nil => rfl
  | cons v users ih =>
      rw [List.foldr_cons]
      by_cases huv : u = v
      · subst huv
        rw [AList.lookup_insert, if_pos List.mem_cons_self]
      · rw [AList.lookup_insert_ne huv, ih]
        simp only [List.mem_cons, huv, false_or]

theorem start_refines {doc : Document α} (hw : doc.WindowExact) (users : List UInt32)
    (username : UInt32 → String) (findUserId : String → Option UInt32) (access : AccessControl) :
    Refines (start doc users username findUserId access)
      { log := [], replicas := fun _ => { doc := doc.content } } where
  follows := Document.Follows.refl hw
  docId := rfl
  log := rfl
  wellFormed _ h := absurd h List.not_mem_nil
  owned := by
    intro u user hu
    simp only [start, lookup_table] at hu
    split_ifs at hu
    cases hu
    exact ⟨u, rfl, rfl⟩
  registered := by
    intro u hu
    simp only [start, DocumentSession.registered] at hu ⊢
    rw [lookup_table, if_pos hu]
    rfl
  genuine _ h := absurd h List.not_mem_nil
  senders _ h := absurd rfl h
  mirrors u _ :=
    { consistent := .synchronized rfl rfl rfl
      userId := rfl
      docId := rfl
      content := rfl
      revision := (revisionAt_zero doc).symm
      docRevision := rfl
      queue := rfl
      wellFormed := fun _ h => absurd h List.not_mem_nil
      incoming := rfl
      flight := .inl rfl }
  openedAt _ := Nat.le_refl 0
  sentDown _ _ := rfl

/-! ## Messages that are not notices -/

section Steps

variable {s s' : System α} {t : Star.State (List α) (Operation α) UInt32}

/-- Sends that carry no notice are invisible to the relation. -/
theorem filter_silent {sends : List (UInt32 × ServerMsg α)} (h : ∀ p ∈ sends, p.2.isNotice = false)
    (down : List (ServerMsg α)) (u : UInt32) :
    (down ++ (messagesTo sends u).map ServerMsg.throughJson).filter ServerMsg.isNotice =
      down.filter ServerMsg.isNotice := by
  have hnone : ((messagesTo sends u).map ServerMsg.throughJson).filter ServerMsg.isNotice = [] := by
    rw [List.filter_eq_nil_iff]
    intro msg hmsg
    obtain ⟨m, hm, rfl⟩ := List.mem_map.mp hmsg
    rw [isNotice_throughJson, h _ (mem_messagesTo hm)]
    exact Bool.false_ne_true
  rw [List.filter_append, hnone, List.append_nil]

theorem Refines.push (h : Refines s t) {sends : List (UInt32 × ServerMsg α)}
    (hs : ∀ p ∈ sends, p.2.isNotice = false) : Refines (s.push sends) t := by
  refine ⟨h.follows, h.docId, h.log, h.wellFormed, h.owned, h.registered, fun cmd hc => ?_, h.senders,
    fun u hu => ?_, h.openedAt, fun u hu => ?_⟩
  · exact ⟨(h.genuine cmd hc).type, (h.genuine cmd hc).user, (h.genuine cmd hc).username⟩
  · have hm := h.mirrors u hu
    simp only [System.push, filter_silent hs]
    exact hm
  · simp only [System.push, filter_silent hs]
    exact h.sentDown u hu

/-! ## The side conditions -/

/-- A batch of local operations is in range, each on what its predecessors leave. -/
def EditsInRange (s : System α) : Event α → Prop
  | .edit u ops => ChainOk apply InRange (s.clients u).doc.content ops
  | _ => True

/-- `P` holds of every pair that a step transforms, on the document both operations of the pair apply to:
    the server's loop over its history, and the client's loop over what it has outstanding. -/
def Transforms (P : List α → Operation α → Operation α → Prop) (s : System α) : Event α → Prop
  | .process => ∀ cmd rest, s.session.commandQueue = cmd :: rest →
      s.session.doc.InWindow cmd.operation.revision →
      RebaseFine apply xform P (s.contentAt cmd.operation.revision) cmd.operation
        (s.session.doc.since cmd.operation.revision)
  | .deliver u => ∀ msg entry rest, s.down u = .operationBroadcast msg :: rest → msg.ops = [entry] →
      EvolveFine apply xform P (s.contentAt (s.clients u).revision) (s.clients u).outstanding
        (fromEntry entry msg.userId msg.revision)
  | _ => True

/-- What a step needs for the documents to agree. -/
def Admissible (s : System α) (e : Event α) : Prop := s.EditsInRange e ∧ s.Transforms Fine e

/-- The abstract steps that match a step of the system. -/
structure Simulated (s : System α) (e : Event α) (s' : System α)
    (t : Star.State (List α) (Operation α) UInt32) (es : List (Star.Event (List α) (Operation α) UInt32))
    (t' : Star.State (List α) (Operation α) UInt32) : Prop where
  run     : Machine.run starStep t es = some t'
  refines : Refines s' t'
  locals  : ∀ e' ∈ es, Star.Local Operation.userId e'
  admits  : s.Admissible e → Machine.Along starStep
    (Star.Admits apply xform Operation.userId InRange Fine s.base.content) t es

theorem Simulated.stutter {e : Event α} (h : Refines s' t) : Simulated s e s' t [] t :=
  ⟨rfl, h, fun _ he => absurd he List.not_mem_nil, fun _ => trivial⟩

/-! ## `edit`, `receive`, `share` -/

/-- A controller runs a slot, perhaps on a message from its channel: the rest of the system stays. -/
theorem Refines.slot (h : Refines s t) {u : UInt32} (hu : u ∈ s.users) {c : OTController α}
    {effects : List (Effect α)} {rest : List (ServerMsg α)} {r : Star.Replica (List α) (Operation α)}
    (hm : Mirrors s.base s.username u s.log c (s.inFlight u ++ departing u effects)
      (rest.filter ServerMsg.isNotice) r) :
    Refines ({ s with down := Function.update s.down u rest }.react u c effects)
      { t with replicas := Function.update t.replicas u r } := by
  refine ⟨h.follows, h.docId, h.log, h.wellFormed, h.owned, h.registered, fun cmd hc => ?_, ?_, ?_,
    h.openedAt, h.sentDown⟩
  · exact ⟨(h.genuine cmd hc).type, (h.genuine cmd hc).user, (h.genuine cmd hc).username⟩
  · intro w hw
    by_cases huw : w = u
    · rw [huw]; exact hu
    · refine h.senders w ?_
      simpa only [System.react, Function.update_of_ne huw] using hw
  · intro w hw
    by_cases huw : w = u
    · subst huw
      simp only [inFlight, departing, List.append_assoc, ← List.flatMap_append] at hm
      simp only [inFlight, System.react, Function.update_self]
      exact hm
    · have hm' := h.mirrors w hw
      simp only [inFlight] at hm'
      simp only [inFlight, System.react, Function.update_of_ne huw]
      exact hm'

theorem Refines.react (h : Refines s t) {u : UInt32} (hu : u ∈ s.users) {c : OTController α}
    {effects : List (Effect α)} {r : Star.Replica (List α) (Operation α)}
    (hm : Mirrors s.base s.username u s.log c (s.inFlight u ++ departing u effects)
      ((s.down u).filter ServerMsg.isNotice) r) :
    Refines (s.react u c effects) { t with replicas := Function.update t.replicas u r } := by
  have hslot := h.slot hu hm
  rw [Function.update_eq_self] at hslot
  exact hslot

/-- A replica with nothing outstanding has sent nothing. -/
theorem idle_of_tracks (ht : Star.Tracks xform Operation.userId t) (u : UInt32)
    (hq : (t.replicas u).queue = []) : (t.replicas u).sent = none := by
  cases ht.phase u with
  | idle _ hs => exact hs
  | flying _ _ _ _ _ _ hq' => rw [hq'] at hq; cases hq
  | stored _ _ _ _ _ hs => exact hs

theorem departing_onLocalOperations (u : UInt32) (c : OTController α) (ops : List (Operation α)) :
    departing u (c.onLocalOperations ops).2 = departing u (c.localLoop ops).2.1 := by
  unfold departing
  rw [sends_onLocalOperations]

theorem edit_refines (h : Refines s t) (ht : Star.Tracks xform Operation.userId t) {u : UInt32}
    {ops : List (Operation α)} (hs : s.step (.edit u ops) = some s') :
    ∃ es t', Simulated s (.edit u ops) s' t es t' := by
  obtain ⟨hu, hops, rfl⟩ := edit_cases hs
  obtain ⟨os, hlocal, hchain, hm⟩ := (h.mirrors u hu).edits (idle_of_tracks ht u) hops
  rw [← departing_onLocalOperations] at hm
  refine ⟨os.map (.edit u), _, Star.run_edits apply xform Operation.userId t u os, h.react hu hm, ?_, ?_⟩
  · intro e he
    obtain ⟨o, ho, rfl⟩ := List.mem_map.mp he
    exact hlocal o ho
  · intro ha
    refine Star.along_edits (hchain ?_)
    rw [← (h.mirrors u hu).content]
    exact ha.1

/-- The commands made from a message are operations of its sender, and only of its sender. -/
theorem filter_operationCommands (u w : UInt32) (username : String) (msg : OperationMsg α) :
    ((operationCommands u username msg : List (DocCommand α UInt32)).filter (·.userId == w)).map DocCommand.operation =
      if u = w then received u msg else [] := by
  unfold operationCommands received
  rw [List.filter_map, List.map_map]
  by_cases huw : u = w
  · subst huw
    rw [if_pos rfl, List.filter_eq_self.mpr (by simp)]
    rfl
  · rw [if_neg huw, List.filter_eq_nil_iff.mpr (by simp [huw])]
    rfl

/-- The sender's channel loses its head. -/
theorem senders_update (h : Refines s t) {u : UInt32} (hu : u ∈ s.users) {rest : List (OperationMsg α)}
    (w : UInt32) (hw : Function.update s.up u rest w ≠ []) : w ∈ s.users := by
  by_cases huw : w = u
  · rw [huw]; exact hu
  · exact h.senders w (by simpa only [Function.update_of_ne huw] using hw)

theorem receive_refines (h : Refines s t) {u : UInt32} (hs : s.step (.receive u) = some s') :
    ∃ es t', Simulated s (.receive u) s' t es t' := by
  refine ⟨[], t, .stutter ?_⟩
  obtain ⟨msg, rest, hup, ⟨error, _, rfl⟩ | ⟨_, rfl⟩⟩ := receive_cases hs
  · -- the operation is dropped: what is in flight only shrinks
    have hu : u ∈ s.users := h.senders u (by rw [hup]; exact List.cons_ne_nil _ _)
    have h' : Refines { s with up := Function.update s.up u rest } t := by
      refine ⟨h.follows, h.docId, h.log, h.wellFormed, h.owned, h.registered,
        fun cmd hc => ?_, fun w hw => senders_update h hu w hw, fun w hw => ?_, h.openedAt, h.sentDown⟩
      · exact ⟨(h.genuine cmd hc).type, (h.genuine cmd hc).user, (h.genuine cmd hc).username⟩
      · refine (h.mirrors w hw).of_sublist ?_
        by_cases huw : w = u
        · subst huw
          simp only [inFlight, Function.update_self, hup, List.flatMap_cons]
          exact (List.sublist_append_right _ _).append_left _
        · simp only [inFlight, Function.update_of_ne huw]
          exact List.Sublist.refl _
    refine h'.push ?_
    intro p hp
    rw [List.mem_singleton.mp hp]
    rfl
  · -- it moves from the head of the channel to the end of the queue
    have hu : u ∈ s.users := h.senders u (by rw [hup]; exact List.cons_ne_nil _ _)
    refine ⟨h.follows, h.docId, h.log, h.wellFormed, h.owned, h.registered, ?_,
      fun w hw => senders_update h hu w hw, ?_, h.openedAt, h.sentDown⟩
    · intro cmd hc
      rcases List.mem_append.mp hc with hold | hnew
      · exact ⟨(h.genuine cmd hold).type, (h.genuine cmd hold).user, (h.genuine cmd hold).username⟩
      · obtain ⟨entry, _, rfl⟩ := List.mem_map.mp hnew
        exact ⟨rfl, hu, rfl⟩
    · intro w hw
      have hm := h.mirrors w hw
      by_cases huw : u = w
      · subst huw
        simp only [inFlight, hup, List.flatMap_cons] at hm
        simp only [inFlight, Function.update_self, List.filter_append, List.map_append,
          filter_operationCommands, if_true, List.append_assoc]
        exact hm
      · simp only [inFlight] at hm
        simp only [inFlight, Function.update_of_ne (Ne.symm huw), List.filter_append, List.map_append,
          filter_operationCommands, if_neg huw, List.append_nil]
        exact hm

theorem share_refines (h : Refines s t) {u : UInt32} {msg : DocShareRequestMsg}
    (hs : s.step (.share u msg) = some s') : ∃ es t', Simulated s (.share u msg) s' t es t' := by
  refine ⟨[], t, .stutter ?_⟩
  obtain ⟨error, rfl⟩ | ⟨targetId, rfl⟩ := share_cases hs
  · refine h.push ?_
    intro p hp
    rw [List.mem_singleton.mp hp]
    rfl
  · have h' : Refines { s with access := s.access.setRole msg.docId targetId msg.role } t := by
      refine ⟨h.follows, h.docId, h.log, h.wellFormed, h.owned, h.registered, fun cmd hc => ?_,
        h.senders, h.mirrors, h.openedAt, h.sentDown⟩
      exact ⟨(h.genuine cmd hc).type, (h.genuine cmd hc).user, (h.genuine cmd hc).username⟩
    refine h'.push ?_
    intro p hp
    unfold shareReplies at hp
    rcases List.mem_cons.mp hp with rfl | hp
    · rfl
    · split_ifs at hp
      · rw [List.mem_singleton.mp hp]; rfl
      · cases hp

/-! ## `deliver` -/

/-- The prefix of the log that a revision number stands for. -/
theorem Refines.contentAt_eq (h : Refines s t) {k : ℕ} (hk : s.base.revision.toNat + k < 2 ^ 32) :
    s.contentAt (revisionAt s.base k) = Star.snap apply s.base.content t.log k := by
  unfold contentAt Star.snap
  rw [toNat_revisionAt hk, Nat.add_sub_cancel_left, h.log, ← List.map_take, acts_wire]

/-- Any message but an acknowledgement or a broadcast leaves the controller as it is. -/
theorem onNetworkMessage_silent {c : OTController α} {msg : ServerMsg α} (h : msg.isNotice = false) :
    ∃ effects, c.onNetworkMessage msg = some (c, effects) ∧ sends effects = [] := by
  cases msg with
  | operationAck msg => cases h
  | operationBroadcast msg => cases h
  | error msg =>
      refine ⟨_, rfl, ?_⟩
      unfold handleError
      split_ifs <;> rfl
  | _ => exact ⟨[], rfl, rfl⟩

theorem deliver_refines (h : Refines s t) (ht : Star.Tracks xform Operation.userId t) {u : UInt32}
    (hs : s.step (.deliver u) = some s') (hmax : s.base.revision.toNat + s.log.length < 2 ^ 32) :
    ∃ es t', Simulated s (.deliver u) s' t es t' := by
  obtain ⟨hu, msg, rest, c, effects, hd, hc, rfl⟩ := deliver_cases hs
  have hm := h.mirrors u hu
  rw [hd] at hm
  cases hn : msg.isNotice with
  | false =>
      -- an error or another message: nothing moves in the abstract protocol
      obtain ⟨effects', heq, hsends⟩ := onNetworkMessage_silent (c := s.clients u) hn
      rw [heq] at hc
      cases hc
      refine ⟨[], t, .stutter ?_⟩
      have hdep : departing u effects = [] := by unfold departing; rw [hsends]; rfl
      rw [List.filter_cons_of_neg (by rw [hn]; exact Bool.false_ne_true),
        ← List.append_nil (s.inFlight u), ← hdep] at hm
      have hslot := h.slot hu hm
      rw [Function.update_eq_self] at hslot
      exact hslot
  | true =>
      rw [List.filter_cons_of_pos hn] at hm
      obtain ⟨e, hlog, rfl, hrest⟩ := noticesFrom_cons hm.incoming
      have htlog : t.log[(t.replicas u).seen]? = some e.wire := by
        rw [h.log, List.getElem?_map, hlog]
        rfl
      have hlt := (List.getElem?_eq_some_iff.mp hlog).1
      have hrun : Machine.run starStep t [.deliver u] = some { t with
          replicas := Function.update t.replicas u
            (if e.userId = u then (t.replicas u).ack
              else (t.replicas u).receive apply xform e.wire) } := by
        refine Machine.run_single ?_
        simp only [starStep, Star.step, htlog, Operation.wire_userId]
      refine ⟨[.deliver u], _, hrun, ?_, by simp [Star.Local], ?_⟩
      · -- the entry is the user's own, and acknowledges, or another one's
        by_cases he : e.userId = u
        · obtain ⟨_, hsent, _⟩ := (ht.phase u).head_eq htlog (by rw [Operation.wire_userId]; exact he)
          obtain ⟨c', effects', heq, hm'⟩ := hm.ack hrest he hsent (ht.sites u)
          rw [heq] at hc
          cases hc
          rw [if_pos he]
          exact h.slot hu hm'
        · obtain ⟨c', effects', heq, hm'⟩ := hm.broadcast hrest he
          rw [heq] at hc
          cases hc
          rw [if_neg he]
          exact h.slot hu hm'
      · intro ha
        refine ⟨?_, by rw [(Machine.run_cons.mp hrun).choose_spec.1]; trivial⟩
        intro e' he' hne
        rw [htlog] at he'
        cases he'
        rw [Operation.wire_userId] at hne
        -- the head of the channel is the broadcast of this entry
        rw [notice, if_neg hne] at hd
        have hfine := ha.2 _ _ _ hd rfl
        rw [hm.revision, h.contentAt_eq (by omega)] at hfine
        have hwf := wellFormed_fromEntry (toEntry e) e.userId (revisionAt s.base ((t.replicas u).seen + 1))
        have hwire := (evolveFine_wire hwf hm.wellFormed).mpr hfine
        rw [wire_fromEntry_toEntry, hm.queue] at hwire
        exact hwire

/-! ## `process` -/

/-- The oldest command is the only operation its user has in flight. -/
theorem Refines.head_flight (h : Refines s t) {cmd : DocCommand α UInt32}
    {rest : List (DocCommand α UInt32)} (hq : s.session.commandQueue = cmd :: rest) :
    ∃ b, (t.replicas cmd.userId).sent = some (b, cmd.operation.wire) ∧
      cmd.operation.revision = revisionAt s.base b ∧ cmd.operation.WellFormed ∧
      cmd.operation.userId = cmd.userId ∧
      (rest.filter (·.userId == cmd.userId)).map DocCommand.operation ++
        (s.up cmd.userId).flatMap (received cmd.userId) = [] := by
  have hu := (h.genuine cmd (by rw [hq]; exact List.mem_cons_self)).user
  have hflight := (h.mirrors _ hu).flight
  simp only [inFlight, hq, List.filter_cons, beq_self_eq_true, if_true, List.map_cons,
    List.cons_append] at hflight
  rcases hflight with hnil | ⟨b, o, hone, hsent, hrev, hwf, huser⟩
  · cases hnil
  · injection hone with ho hrest
    subst ho
    exact ⟨b, hsent, hrev, hwf, huser, hrest⟩

/-- Other users' operations in flight are untouched by taking a command off the queue. -/
theorem filter_rest {cmd : DocCommand α UInt32} {queue rest : List (DocCommand α UInt32)}
    (hq : queue = cmd :: rest) {u : UInt32} (hu : u ≠ cmd.userId) :
    rest.filter (·.userId == u) = queue.filter (·.userId == u) := by
  rw [hq, List.filter_cons_of_neg (by simpa using Ne.symm hu)]

theorem stored_ok {doc doc' : Document α} {cmd : DocCommand α UInt32} {op : Operation α}
    (htype : cmd.type = .operation) (h : doc.applyWithOt cmd.operation = (doc', .ok op)) :
    stored doc cmd = [op] := by
  unfold stored
  rw [htype, h]

theorem stored_error {doc doc' : Document α} {cmd : DocCommand α UInt32} {error : String}
    (htype : cmd.type = .operation) (h : doc.applyWithOt cmd.operation = (doc', .error error)) :
    stored doc cmd = [] := by
  unfold stored
  rw [htype, h]

/-- **An accepted operation** is sequenced. -/
theorem accepted_refines (h : Refines s t) (ht : Star.Tracks xform Operation.userId t)
    {cmd : DocCommand α UInt32} {rest : List (DocCommand α UInt32)}
    (hq : s.session.commandQueue = cmd :: rest) (hw : s.session.doc.InWindow cmd.operation.revision)
    (hmax : s.base.revision.toNat + s.log.length + 1 < 2 ^ 32) :
    ∃ es t', Simulated s .process ({ s with
      session := ((s.session.setQueue rest).processCommand cmd).1
      log := s.log ++ stored s.session.doc cmd }.push
        ((s.session.setQueue rest).processCommand cmd).2) t es t' := by
  have hgen := h.genuine cmd (by rw [hq]; exact List.mem_cons_self)
  obtain ⟨b, hsent, hrev, hwf, huser, hempty⟩ := h.head_flight hq
  have hbseen := (ht.phase cmd.userId).sent_le hsent
  have hseen : ∀ u, (t.replicas u).seen ≤ s.log.length := by
    intro u
    have := ht.seen_le u
    rwa [h.log, List.length_map] at this
  have hrevNat : cmd.operation.revision.toNat = s.base.revision.toNat + b := by
    have := hseen cmd.userId
    rw [hrev, toNat_revisionAt (by omega)]
  obtain ⟨doc, happ, hfol, _, hid, _⟩ := h.follows.applyWithOt hw (by rw [h.follows.revision]; omega)
  -- the server folds over the entries since the base, which are the log from `b` on
  have hsince : s.session.doc.since cmd.operation.revision = s.log.drop b :=
    h.follows.since_eq hrevNat hw.1
  rw [hsince] at happ hfol
  have hdrop : AllWellFormed (s.log.drop b) := fun o ho => h.wellFormed o (List.mem_of_mem_drop ho)
  -- the abstract log has the wire forms, and the server rebases the operation itself
  have hwire : (rebase xform cmd.operation (s.log.drop b)).wire =
      rebase xform cmd.operation.wire (t.log.drop b) := by
    rw [wire_rebase hwf hdrop, h.log, List.map_drop]
  have hauthor : (rebase xform cmd.operation (s.log.drop b)).userId = cmd.userId := by
    rw [site_rebase xform_userId, huser]
  have hrun : Machine.run starStep t [.sequence cmd.userId] = some
      { log := t.log ++ [rebase xform cmd.operation.wire (t.log.drop b)]
        replicas := Function.update t.replicas cmd.userId { t.replicas cmd.userId with sent := none } } := by
    refine Machine.run_single ?_
    simp only [starStep, Star.step, hsent]
  refine ⟨[.sequence cmd.userId], _, hrun, ?_, by simp [Star.Local], ?_⟩
  · -- every user is sent the notice of the new entry
    have hrevision : doc.revision = revisionAt s.base (s.log.length + 1) := by
      apply UInt32.toNat_inj.mp
      rw [hfol.revision, toNat_revisionAt (by omega), List.length_append]
      rfl
    have hnotice : ∀ u ∈ s.users,
        (messagesTo ((s.session.setQueue rest).handleOperation cmd).2 u).map ServerMsg.throughJson =
        [notice s.base s.username u s.log.length (rebase xform cmd.operation (s.log.drop b))] := by
      intro u hu
      have ho : (s.session.setQueue rest).Owned id := h.owned
      have hr : (s.session.setQueue rest).registered (id u) = some u := h.registered u hu
      rw [messagesTo_handleOperation ho happ, if_pos hr, List.map_singleton, ← throughJson_notice]
      congr 2
      simp only [notice, hauthor, hid, h.docId, hrevision, hgen.username, id_eq, eq_comm]
    have hfilter : ∀ u ∈ s.users, ∀ msgs : List (ServerMsg α),
        (msgs ++ [notice s.base s.username u s.log.length
          (rebase xform cmd.operation (s.log.drop b))]).filter ServerMsg.isNotice =
        msgs.filter ServerMsg.isNotice ++
          [notice s.base s.username u s.log.length (rebase xform cmd.operation (s.log.drop b))] := by
      intro u _ msgs
      rw [List.filter_append, List.filter_cons_of_pos (isNotice_notice _ _), List.filter_nil]
    rw [processCommand_operation _ hgen.type, handleOperation_fst, setQueue_doc, happ,
      stored_ok hgen.type happ]
    refine ⟨hfol, ?_, ?_, ?_, h.owned, h.registered, ?_, h.senders, ?_, ?_, ?_⟩
    · exact hid.trans h.docId
    · show t.log ++ _ = (s.log ++ [_]).map Operation.wire
      rw [List.map_append, List.map_singleton, hwire, h.log]
    · intro o ho
      rcases List.mem_append.mp ho with hold | hnew
      · exact h.wellFormed o hold
      · rw [List.mem_singleton.mp hnew]
        exact wellFormed_rebase hwf _
    · intro cmd' hc
      have hg := h.genuine cmd' (by rw [hq]; exact List.mem_cons_of_mem cmd hc)
      exact ⟨hg.type, hg.user, hg.username⟩
    · -- the sender's flight has landed; the others have one more entry to come
      intro u hu
      have hm := (h.mirrors u hu).append (hseen u) (rebase xform cmd.operation (s.log.drop b))
      simp only [System.push, hnotice u hu, hfilter u hu]
      by_cases huc : u = cmd.userId
      · subst huc
        simp only [inFlight, Function.update_self, setQueue_commandQueue, hempty]
        exact hm.landed
      · simp only [inFlight] at hm
        simp only [inFlight, Function.update_of_ne huc, setQueue_commandQueue, filter_rest hq huc]
        exact hm
    · intro u
      have hopened := h.openedAt u
      show s.openedAt u ≤ (s.log ++ [_]).length
      rw [List.length_append]
      omega
    · intro u hu
      have hopened := h.openedAt u
      simp only [System.push, hnotice u hu, hfilter u hu]
      rw [List.drop_append_of_le_length hopened, noticesFrom_snoc, List.length_drop,
        Nat.add_sub_of_le hopened, h.sentDown u hu]
  · intro ha
    refine ⟨?_, by rw [(Machine.run_cons.mp hrun).choose_spec.1]; trivial⟩
    intro b' o' hb'
    rw [hsent] at hb'
    cases hb'
    -- the condition on this rebase is the one that the step was taken under
    have hfine := ha.2 cmd rest hq hw
    rw [hrev, h.contentAt_eq (by have := hseen cmd.userId; omega), ← hrev, hsince] at hfine
    have hfine' := (rebaseFine_wire hwf hdrop).mpr hfine
    rw [List.map_drop, ← h.log] at hfine'
    exact hfine'

theorem process_refines (h : Refines s t) (ht : Star.Tracks xform Operation.userId t)
    (hs : s.step .process = some s') (hmax : s.base.revision.toNat + s'.log.length < 2 ^ 32) :
    ∃ es t', Simulated s .process s' t es t' := by
  obtain ⟨cmd, rest, hq, rfl⟩ := process_cases hs
  have hgen := h.genuine cmd (by rw [hq]; exact List.mem_cons_self)
  have hmax' : s.base.revision.toNat + (s.log ++ stored s.session.doc cmd).length < 2 ^ 32 := hmax
  rw [List.length_append] at hmax'
  rcases s.session.doc.applyWithOt_cases cmd.operation with ⟨_, _, happ⟩ | ⟨doc, op, happ, _⟩
  · -- too old: an error to the sender, and its operation is gone
    refine ⟨[], t, .stutter ?_⟩
    obtain ⟨_, _, _, _, _, hempty⟩ := h.head_flight hq
    have herror : ((s.session.setQueue rest).handleOperation cmd).2 = _ := handleOperation_error happ
    rw [processCommand_operation _ hgen.type, herror, handleOperation_fst, setQueue_doc, happ,
      stored_error hgen.type happ, List.append_nil]
    have h' : Refines { s with session := s.session.setQueue rest } t := by
      refine ⟨h.follows, h.docId, h.log, h.wellFormed, h.owned, h.registered, ?_, h.senders, ?_,
        h.openedAt, h.sentDown⟩
      · intro cmd' hc
        have hg := h.genuine cmd' (by rw [hq]; exact List.mem_cons_of_mem cmd hc)
        exact ⟨hg.type, hg.user, hg.username⟩
      · intro u hu
        have hm := h.mirrors u hu
        by_cases huc : u = cmd.userId
        · subst huc
          refine hm.of_sublist ?_
          simp only [inFlight, setQueue_commandQueue, hempty]
          exact List.nil_sublist _
        · simp only [inFlight] at hm
          simp only [inFlight, setQueue_commandQueue, filter_rest hq huc]
          exact hm
    refine h'.push ?_
    intro p hp
    unfold sendToUser at hp
    split at hp
    · obtain ⟨i, _, rfl⟩ := Option.map_eq_some_iff.mp (Option.mem_toList.mp hp)
      rfl
    · cases hp
  · rw [stored_ok hgen.type happ, List.length_singleton] at hmax'
    obtain ⟨b, hsent, hrev, _⟩ := h.head_flight hq
    have hb := (ht.phase cmd.userId).sent_le hsent
    have hseen := ht.seen_le cmd.userId
    rw [h.log, List.length_map] at hseen
    refine accepted_refines h ht hq (Document.inWindow_of_ok h.follows.window ?_ happ) (by omega)
    rw [hrev, toNat_revisionAt (by omega), h.follows.revision]
    omega

/-! ## `join` -/

/-- A user without the document has nothing in flight. -/
theorem Refines.inFlight_nil (h : Refines s t) {u : UInt32} (hu : u ∉ s.users) : s.inFlight u = [] := by
  have hup : s.up u = [] := by
    by_contra hne
    exact hu (h.senders u hne)
  have hqueue : s.session.commandQueue.filter (·.userId == u) = [] := by
    rw [List.filter_eq_nil_iff]
    intro cmd hc heq
    exact hu (beq_iff_eq.mp heq ▸ (h.genuine cmd hc).user)
  unfold inFlight
  rw [hqueue, hup]
  rfl

theorem join_refines (h : Refines s t) {u : UInt32} (hs : s.step (.join u) = some s') :
    ∃ es t', Simulated s (.join u) s' t es t' := by
  obtain ⟨hu, rfl⟩ := join_cases hs
  refine ⟨[.join u s.session.doc.content], _, Machine.run_single rfl, ?_, by simp [Star.Local], ?_⟩
  · have hlength : t.log.length = s.log.length := by rw [h.log, List.length_map]
    refine Refines.push ?_ ?_
    · refine ⟨?_, h.docId, h.log, h.wellFormed, ?_, ?_, ?_, ?_, ?_, ?_, ?_⟩
      · exact ⟨h.follows.base, h.follows.content, h.follows.revision, h.follows.window,
          h.follows.oldest, h.follows.history⟩
      · intro v user hv
        dsimp only at hv
        by_cases hvu : v = u
        · subst hvu
          rw [AList.lookup_insert] at hv
          cases hv
          exact ⟨v, rfl, rfl⟩
        · rw [AList.lookup_insert_ne hvu] at hv
          exact h.owned v user hv
      · intro v hv
        unfold DocumentSession.registered
        by_cases hvu : v = u
        · subst hvu
          rw [AList.lookup_insert]
          rfl
        · rw [AList.lookup_insert_ne hvu]
          exact h.registered v ((List.mem_cons.mp hv).resolve_left hvu)
      · intro cmd hc
        have hg := h.genuine cmd hc
        exact ⟨hg.type, List.mem_cons_of_mem u hg.user, hg.username⟩
      · exact fun v hv => List.mem_cons_of_mem u (h.senders v hv)
      · intro v hv
        by_cases hvu : v = u
        · -- the newcomer has read the whole log
          subst hvu
          have hrev : s.session.doc.revision = revisionAt s.base t.log.length := by
            unfold revisionAt
            rw [hlength, ← h.follows.revision, UInt32.ofNat_toNat]
          have hflight := h.inFlight_nil hu
          simp only [inFlight] at hflight
          simp only [inFlight, Function.update_self, hflight]
          exact
            { consistent := .synchronized rfl rfl rfl
              userId := rfl
              docId := h.docId
              content := rfl
              revision := hrev
              docRevision := rfl
              queue := rfl
              wellFormed := fun _ ho => absurd ho List.not_mem_nil
              incoming := by
                rw [List.drop_of_length_le (by rw [hlength])]
                rfl
              flight := .inl rfl }
        · have hm := h.mirrors v ((List.mem_cons.mp hv).resolve_left hvu)
          simp only [inFlight] at hm
          simp only [inFlight, Function.update_of_ne hvu]
          exact hm
      · intro v
        by_cases hvu : v = u
        · subst hvu
          simp only [Function.update_self, Nat.le_refl]
        · simp only [Function.update_of_ne hvu]
          exact h.openedAt v
      · intro v hv
        by_cases hvu : v = u
        · subst hvu
          simp only [Function.update_self, List.drop_length]
          rfl
        · simp only [Function.update_of_ne hvu]
          exact h.sentDown v ((List.mem_cons.mp hv).resolve_left hvu)
    · -- the others are told by `user_joined` messages
      intro p hp
      obtain ⟨e, _, he⟩ := List.mem_filterMap.mp hp
      split_ifs at he
      obtain ⟨i, _, rfl⟩ := Option.map_eq_some_iff.mp he
      rfl
  · intro _
    refine ⟨?_, trivial⟩
    show s.session.doc.content = acts apply s.base.content t.log
    rw [h.follows.content, h.log, acts_wire]

/-! ## `leave` -/

theorem leave_refines (h : Refines s t) {u : UInt32} (hs : s.step (.leave u) = some s') :
    ∃ es t', Simulated s (.leave u) s' t es t' := by
  obtain ⟨hup, hqueue, rfl⟩ := leave_cases hs
  refine ⟨[], t, .stutter (Refines.push ?_ ?_)⟩
  · have hstays : ∀ v ∈ s.users.filter (· ≠ u), v ∈ s.users ∧ v ≠ u := by
      intro v hv
      obtain ⟨hv, hvu⟩ := List.mem_filter.mp hv
      exact ⟨hv, of_decide_eq_true hvu⟩
    refine ⟨?_, h.docId, h.log, h.wellFormed, ?_, ?_, ?_, ?_, ?_, h.openedAt, ?_⟩
    · exact ⟨h.follows.base, h.follows.content, h.follows.revision, h.follows.window,
        h.follows.oldest, h.follows.history⟩
    · intro v user hv
      dsimp only at hv
      by_cases hvu : v = u
      · subst hvu
        rw [AList.lookup_erase] at hv
        cases hv
      · rw [AList.lookup_erase_ne hvu] at hv
        exact h.owned v user hv
    · intro v hv
      unfold DocumentSession.registered
      rw [AList.lookup_erase_ne (hstays v hv).2]
      exact h.registered v (hstays v hv).1
    · intro cmd hc
      have hg := h.genuine cmd hc
      exact ⟨hg.type, List.mem_filter.mpr ⟨hg.user, decide_eq_true (hqueue cmd hc)⟩, hg.username⟩
    · intro v hv
      refine List.mem_filter.mpr ⟨h.senders v hv, decide_eq_true ?_⟩
      rintro rfl
      exact hv hup
    · exact fun v hv => h.mirrors v (hstays v hv).1
    · exact fun v hv => h.sentDown v (hstays v hv).1
  · -- the others are told by `user_left` messages
    intro p hp
    rw [payload_of_mem_broadcast hp]
    rfl

end Steps

/-! ## Runs -/

section Runs

variable {s s' : System α} {e : Event α} {es : List (Event α)}

/-- What no step changes, and the log, which only grows. -/
structure Extends (s s' : System α) : Prop where
  base     : s'.base = s.base
  username : s'.username = s.username
  log      : ∃ tail, s'.log = s.log ++ tail

theorem Extends.refl (s : System α) : Extends s s := ⟨rfl, rfl, [], by simp⟩

theorem Extends.trans {s₁ s₂ s₃ : System α} (h : Extends s₁ s₂) (h' : Extends s₂ s₃) : Extends s₁ s₃ := by
  obtain ⟨tail, hlog⟩ := h.log
  obtain ⟨tail', hlog'⟩ := h'.log
  exact ⟨h'.base.trans h.base, h'.username.trans h.username, tail ++ tail',
    by rw [hlog', hlog, List.append_assoc]⟩

theorem step_extends (h : s.step e = some s') : Extends s s' := by
  cases e with
  | edit u ops =>
      obtain ⟨_, _, rfl⟩ := edit_cases h
      exact ⟨rfl, rfl, [], by simp [System.react]⟩
  | receive u =>
      obtain ⟨msg, rest, _, ⟨error, _, rfl⟩ | ⟨_, rfl⟩⟩ := receive_cases h
      · exact ⟨rfl, rfl, [], by simp [System.push]⟩
      · exact ⟨rfl, rfl, [], by simp⟩
  | share u msg =>
      obtain ⟨error, rfl⟩ | ⟨targetId, rfl⟩ := share_cases h
      · exact ⟨rfl, rfl, [], by simp [System.push]⟩
      · exact ⟨rfl, rfl, [], by simp [System.push]⟩
  | process =>
      obtain ⟨cmd, rest, _, rfl⟩ := process_cases h
      exact ⟨rfl, rfl, _, rfl⟩
  | deliver u =>
      obtain ⟨_, msg, rest, c, effects, _, _, rfl⟩ := deliver_cases h
      exact ⟨rfl, rfl, [], by simp [System.react]⟩
  | join u =>
      obtain ⟨_, rfl⟩ := join_cases h
      exact ⟨rfl, rfl, [], by simp [System.push]⟩
  | leave u =>
      obtain ⟨_, _, rfl⟩ := leave_cases h
      exact ⟨rfl, rfl, [], by simp [System.push]⟩

theorem run_extends (h : Machine.run step s es = some s') : Extends s s' := by
  induction es generalizing s with
  | nil => cases h; exact .refl _
  | cons e es ih =>
      obtain ⟨s₁, h₁, hr⟩ := Machine.run_cons.mp h
      exact (step_extends h₁).trans (ih hr)

/-- Fewer than `2^32` revisions at the end of a run means fewer all along. -/
theorem Extends.few (h : Extends s s') (hfew : s'.base.revision.toNat + s'.log.length < 2 ^ 32) :
    s.base.revision.toNat + s.log.length < 2 ^ 32 := by
  obtain ⟨tail, hlog⟩ := h.log
  rw [h.base, hlog, List.length_append] at hfew
  omega

theorem step_refines {t : Star.State (List α) (Operation α) UInt32} (h : Refines s t)
    (ht : Star.Tracks xform Operation.userId t) (hs : s.step e = some s')
    (hfew : s'.base.revision.toNat + s'.log.length < 2 ^ 32) :
    ∃ es t', Simulated s e s' t es t' := by
  have hext := step_extends hs
  cases e with
  | edit u ops => exact edit_refines h ht hs
  | receive u => exact receive_refines h hs
  | share u msg => exact share_refines h hs
  | process => exact process_refines h ht hs (hext.base ▸ hfew)
  | deliver u => exact deliver_refines h ht hs (hext.few hfew)
  | join u => exact join_refines h hs
  | leave u => exact leave_refines h hs

/-- **Every run is tracked**: the reached state refines a state of the protocol in which what each site
    has outstanding is a partial fold over the log. -/
theorem run_tracks {t : Star.State (List α) (Operation α) UInt32} (h : Refines s t)
    (ht : Star.Tracks xform Operation.userId t) (hr : Machine.run step s es = some s')
    (hfew : s'.base.revision.toNat + s'.log.length < 2 ^ 32) :
    ∃ t', Refines s' t' ∧ Star.Tracks xform Operation.userId t' := by
  induction es generalizing s t with
  | nil => cases hr; exact ⟨t, h, ht⟩
  | cons e es ih =>
      obtain ⟨s₁, h₁, hr'⟩ := Machine.run_cons.mp hr
      obtain ⟨es', t₁, hsim⟩ := step_refines h ht h₁ ((run_extends hr').few hfew)
      exact ih hsim.refines (ht.run xform_userId hsim.locals hsim.run) hr'

/-- **Every admissible run is coherent**: the replicas hold the prefixes of the log that they have read,
    followed by what they have outstanding. -/
theorem run_coherent {t : Star.State (List α) (Operation α) UInt32} (h : Refines s t)
    (ht : Star.Tracks xform Operation.userId t)
    (hc : Star.Coherent apply InRange s.base.content t) (hok : Machine.Along step Admissible s es)
    (hr : Machine.run step s es = some s') (hfew : s'.base.revision.toNat + s'.log.length < 2 ^ 32) :
    ∃ t', Refines s' t' ∧ Star.Tracks xform Operation.userId t' ∧
      Star.Coherent apply InRange s'.base.content t' := by
  induction es generalizing s t with
  | nil => cases hr; exact ⟨t, h, ht, hc⟩
  | cons e es ih =>
      obtain ⟨s₁, h₁, hr'⟩ := Machine.run_cons.mp hr
      obtain ⟨hok₁, hok'⟩ := (Machine.along_cons h₁).mp hok
      obtain ⟨es', t₁, hsim⟩ := step_refines h ht h₁ ((run_extends hr').few hfew)
      have hc₁ := hc.run transform_laws ht hsim.locals (hsim.admits hok₁) hsim.run
      rw [← (step_extends h₁).base] at hc₁
      exact ih hsim.refines (ht.run transform_laws.site_xf hsim.locals hsim.run) hc₁ hok' hr'

end Runs

end System

end CollabEditor
