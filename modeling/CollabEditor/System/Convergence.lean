import CollabEditor.System.Acknowledgement

/-!
# `System.Convergence` — at rest every client holds the server's document

A client with nothing outstanding and nothing on its way to it has the server's content and revision
(`Refines.agrees`), so a quiescent system has converged (`quiescent_converged`), in every run whose
steps are `Sound`: no transform underflows, and the revision counter does not wrap. `underflow_diverges` is
a run in which one transform underflows and that comes to rest with different texts.

## Contents
- **Conditions on a step.** `WithinBounds`, what the users and the sizes must do; `Sound`, what keeps the
  code's arithmetic exact.
- **Agreement.** `Agrees`, `Converged`.
-/

namespace CollabEditor

open Diamond OTController DocumentSession

variable {α : Type}

namespace System

/-! ## Conditions on a step -/

/-- The documents around a transform are below `2^31` bytes. -/
def Small (d : List α) (_ b : Operation α) : Prop := d.length < 2 ^ 31 ∧ (apply d b).length < 2 ^ 31

instance (d : List α) (a b : Operation α) : Decidable (Small d a b) :=
  inferInstanceAs (Decidable (_ ∧ _))

/-- Local edits are in range of the client's document, and all sizes are below `2^31`. -/
def WithinBounds (s : System α) (e : Event α) : Prop := s.EditsInRange e ∧ s.Transforms Small e

/-- The revision counter has room for one more operation. -/
def HasRoom (s : System α) : Event α → Prop
  | .process => s.base.revision.toNat + s.log.length + 1 < 2 ^ 32
  | _ => True

/-- The 32-bit arithmetic of a step is exact: the counter does not wrap, and no transform underflows. -/
def Sound (s : System α) (e : Event α) : Prop :=
  s.HasRoom e ∧ s.Transforms (fun _ a b => ¬ Underflows a b) e

section Decidable

instance (s : System α) : (e : Event α) → Decidable (s.EditsInRange e)
  | .edit _ _ => inferInstanceAs (Decidable (ChainOk _ _ _ _))
  | .receive _ | .share _ _ | .process | .deliver _ | .join _ | .leave _ => isTrue trivial

instance (s : System α) : (e : Event α) → Decidable (s.HasRoom e)
  | .process => inferInstanceAs (Decidable (_ < _))
  | .edit _ _ | .receive _ | .share _ _ | .deliver _ | .join _ | .leave _ => isTrue trivial

instance (P : List α → Operation α → Operation α → Prop) [∀ d a b, Decidable (P d a b)] (s : System α) :
    (e : Event α) → Decidable (s.Transforms P e)
  | .process => match hq : s.session.commandQueue with
    | [] => isTrue fun cmd rest h => by rw [hq] at h; cases h
    | cmd :: rest =>
        decidable_of_iff (s.session.doc.InWindow cmd.operation.revision →
          RebaseFine apply xform P (s.contentAt cmd.operation.revision) cmd.operation
            (s.session.doc.since cmd.operation.revision))
          ⟨fun h cmd' rest' h' => by rw [hq] at h'; cases h'; exact h, fun h => h cmd rest hq⟩
  | .deliver u => match hd : s.down u with
    | .operationBroadcast ⟨docId, userId, username, revision, [entry]⟩ :: rest =>
        decidable_of_iff (EvolveFine apply xform P (s.contentAt (s.clients u).revision)
          (s.clients u).outstanding (fromEntry entry userId revision))
          ⟨fun h msg entry' rest' h' hops => by rw [hd] at h'; cases h'; cases hops; exact h,
            fun h => h _ entry rest hd rfl⟩
    | [] => isTrue fun _ _ _ h => by rw [hd] at h; cases h
    | .operationBroadcast ⟨_, _, _, _, []⟩ :: _ =>
        isTrue fun _ _ _ h hops => by rw [hd] at h; cases h; cases hops
    | .operationBroadcast ⟨_, _, _, _, _ :: _ :: _⟩ :: _ =>
        isTrue fun _ _ _ h hops => by rw [hd] at h; cases h; cases hops
    | .authResponse _ :: _ | .docListResponse _ :: _ | .docCreateResponse _ :: _
    | .operationAck _ :: _ | .error _ :: _ | .docJoinResponse _ :: _ | .docLeaveResponse _ :: _
    | .docDeleteResponse _ :: _ | .docShareResponse _ :: _ | .cursorBroadcast _ :: _
    | .userJoined _ :: _ | .userLeft _ :: _ | .roleChanged _ :: _ | .docDeleted _ :: _ =>
        isTrue fun _ _ _ h => by rw [hd] at h; cases h
  | .edit _ _ | .receive _ | .share _ _ | .join _ | .leave _ => isTrue trivial

instance (s : System α) (e : Event α) : Decidable (s.WithinBounds e) :=
  inferInstanceAs (Decidable (_ ∧ _))

instance (s : System α) (e : Event α) : Decidable (s.Sound e) := inferInstanceAs (Decidable (_ ∧ _))

end Decidable

theorem admissible_of {s : System α} {e : Event α} (h : s.WithinBounds e ∧ s.Sound e) :
    s.Admissible e := by
  obtain ⟨⟨hedit, hsmall⟩, _, hsound⟩ := h
  refine ⟨hedit, ?_⟩
  have hfine : ∀ (d : List α) (a b : Operation α), Small d a b → ¬ Underflows a b → Fine d a b :=
    fun _ _ _ hs hn => ⟨hs.1, hs.2, hn⟩
  cases e with
  | process =>
      intro cmd rest hq hw
      exact (hsmall cmd rest hq hw).imp₂ hfine (hsound cmd rest hq hw)
  | deliver u =>
      intro msg entry rest hd hops
      exact (hsmall msg entry rest hd hops).imp₂ hfine (hsound msg entry rest hd hops)
  | _ => trivial

/-- One turn of the session thread stores at most one operation. -/
theorem length_stored_le (doc : Document α) (cmd : DocCommand α UInt32) :
    (stored doc cmd).length ≤ 1 := by
  unfold stored
  split <;> simp

/-- A run whose steps find room stays below `2^32` revisions. -/
theorem run_few {s s' : System α} {es : List (Event α)}
    (hfew : s.base.revision.toNat + s.log.length < 2 ^ 32) (hr : Machine.run step s es = some s')
    (hroom : Machine.Along step HasRoom s es) : s'.base.revision.toNat + s'.log.length < 2 ^ 32 := by
  induction es generalizing s with
  | nil => cases hr; exact hfew
  | cons e es ih =>
      obtain ⟨s₁, h₁, hr'⟩ := Machine.run_cons.mp hr
      obtain ⟨hroom₁, hroom'⟩ := (Machine.along_cons h₁).mp hroom
      refine ih ?_ hr' hroom'
      cases e with
      | process =>
          obtain ⟨cmd, rest, _, rfl⟩ := process_cases h₁
          have hlen := length_stored_le s.session.doc cmd
          show s.base.revision.toNat + (s.log ++ stored s.session.doc cmd).length < 2 ^ 32
          rw [List.length_append]
          unfold HasRoom at hroom₁
          omega
      | edit u ops =>
          obtain ⟨_, _, rfl⟩ := edit_cases h₁
          exact hfew
      | receive u =>
          obtain ⟨_, _, _, ⟨_, _, rfl⟩ | ⟨_, rfl⟩⟩ := receive_cases h₁
          · exact hfew
          · exact hfew
      | share u msg =>
          obtain ⟨_, rfl⟩ | ⟨_, rfl⟩ := share_cases h₁
          · exact hfew
          · exact hfew
      | deliver u =>
          obtain ⟨_, _, _, _, _, _, _, rfl⟩ := deliver_cases h₁
          exact hfew
      | join u =>
          obtain ⟨_, rfl⟩ := join_cases h₁
          exact hfew
      | leave u =>
          obtain ⟨_, _, rfl⟩ := leave_cases h₁
          exact hfew

/-! ## Agreement -/

/-- A client has the content and the revision of the server. -/
def Agrees (s : System α) (u : UInt32) : Prop :=
  (s.clients u).doc.content = s.session.doc.content ∧
    (s.clients u).doc.revision = s.session.doc.revision ∧ (s.clients u).revision = s.session.doc.revision

instance [DecidableEq α] (s : System α) (u : UInt32) : Decidable (s.Agrees u) :=
  inferInstanceAs (Decidable (_ ∧ _))

/-- If nothing is in flight and every controller is synchronized, every client agrees with the server. -/
def Converged (s : System α) : Prop :=
  s.Quiet → (∀ u ∈ s.users, (s.clients u).state = .synchronized) → ∀ u ∈ s.users, s.Agrees u

instance [DecidableEq α] (s : System α) : Decidable s.Converged :=
  inferInstanceAs (Decidable (_ → _ → _))

/-- The start of a run is within the counter's range. -/
theorem start_few (doc : Document α) : doc.revision.toNat + 0 < 2 ^ 32 := doc.revision.toNat_lt

/-- A client that has read everything sent to it and has nothing outstanding agrees with the server. -/
theorem Refines.agrees {s : System α} {t : Star.State (List α) (Operation α) UInt32} (h : Refines s t)
    (ht : Star.Tracks xform Operation.userId t)
    (hc : Star.Coherent apply InRange s.base.content t) {u : UInt32} (hu : u ∈ s.users)
    (hdown : s.down u = []) (hsync : (s.clients u).state = .synchronized) : s.Agrees u := by
  have hm := h.mirrors u hu
  have hincoming := hm.incoming
  rw [hdown, List.filter_nil] at hincoming
  have hlength : t.log.length = s.log.length := by rw [h.log, List.length_map]
  -- no notice is left, so the whole log has been read
  have hseen : (t.replicas u).seen = t.log.length := by
    have hle := ht.seen_le u
    cases hdrop : s.log.drop (t.replicas u).seen with
    | nil =>
        have := List.drop_eq_nil_iff.mp hdrop
        omega
    | cons e es =>
        rw [hdrop] at hincoming
        cases hincoming
  have hqueue : (t.replicas u).queue = [] := by
    rw [← hm.queue, hm.consistent.outstanding_nil.mpr hsync, List.map_nil]
  have hrevision : (s.clients u).revision = s.session.doc.revision := by
    rw [hm.revision, hseen, hlength, revisionAt, ← h.follows.revision, UInt32.ofNat_toNat]
  refine ⟨?_, hm.docRevision.trans hrevision, hrevision⟩
  rw [hm.content, hc.converged hqueue hseen, h.log, acts_wire, h.follows.content]

section Runs

variable {doc : Document α} {users : List UInt32} {username : UInt32 → String}
  {findUserId : String → Option UInt32} {access : AccessControl} {es : List (Event α)} {s : System α}

/-- Every sound run within bounds is coherent. -/
theorem run_sound (hw : doc.WindowExact)
    (hr : Machine.run step (start doc users username findUserId access) es = some s)
    (hok : Machine.Along step (fun s e => s.WithinBounds e ∧ s.Sound e)
      (start doc users username findUserId access) es) :
    ∃ t, Refines s t ∧ Star.Tracks xform Operation.userId t ∧
      Star.Coherent apply InRange s.base.content t := by
  refine run_coherent (start_refines hw users username findUserId access) Star.Tracks.init
    Star.Coherent.init (hok.mono fun _ _ => admissible_of) hr ?_
  exact run_few (start_few doc) hr (hok.mono fun _ _ h => h.2.1)

/-- **Convergence.** In every run that starts from one consistent snapshot, with any interleaving of local
    edits in range, joins, leaves, processing and deliveries, all sizes below `2^31` and every step sound: whenever
    the system is at rest, every client holds the server's content at the server's revision. -/
theorem quiescent_converged (hw : doc.WindowExact)
    (hr : Machine.run step (start doc users username findUserId access) es = some s)
    (hok : Machine.Along step (fun s e => s.WithinBounds e ∧ s.Sound e)
      (start doc users username findUserId access) es) : s.Converged := by
  obtain ⟨t, h, ht, hc⟩ := run_sound hw hr hok
  intro hquiet hsync u hu
  exact h.agrees ht hc hu (hquiet.2 u hu).2 (hsync u hu)

end Runs

/-- Rights of three users to edit document 1. -/
def threeRights : AccessControl := (twoRights 1).grant 1 3 .editor

/-- A document of two letters with two editors, and a third user who may join them. -/
def threeUsers : System Char :=
  start ((Document.create 1 "t").setContent "AB".toList) [1, 2] (fun _ => "") (fun _ => none) threeRights

/-- User 3 joins while the insertions of users 1 and 2 are under way, and deletes the first letter. -/
def joiningRun : List (Event Char) :=
  [.edit 1 [makeInsert 1 ['x'] 0 0], .edit 2 [makeInsert 0 ['y'] 0 0], .receive 2, .process, .join 3,
    .edit 3 [makeDelete 0 1 [] 0 0], .receive 1, .process, .receive 3, .process,
    .deliver 1, .deliver 1, .deliver 1, .deliver 1, .deliver 2, .deliver 2, .deliver 2, .deliver 2,
    .deliver 3, .deliver 3]

theorem quiescent_converged_joining :
    ∃ s, Machine.run step threeUsers joiningRun = some s ∧ s.Converged :=
  have hrun : (Machine.run step threeUsers joiningRun).isSome := by decide +kernel
  ⟨_, (Option.some_get hrun).symm, @quiescent_converged Char
    ((Document.create 1 "t").setContent "AB".toList) [1, 2] (fun _ => "") (fun _ => none) threeRights
    joiningRun _ rfl (Option.some_get hrun).symm (by decide +kernel)⟩

/-- Three users edit a document of sixteen letters. -/
def threeEditors : System Char :=
  start ((Document.create 1 "t").setContent "ABCDEFGHIJKLMNOP".toList) [1, 2, 3] (fun _ => "")
    (fun _ => none) threeRights

/-- User 1 deletes the `D` that lies inside a deletion of user 2, who goes on deleting from the start; user
    3 inserts `xyz` meanwhile. -/
def underflowRun : List (Event Char) :=
  [.edit 2 [makeDelete 2 4 [] 0 0], .receive 2, .edit 1 [makeDelete 3 1 [] 0 0], .process, .deliver 2,
    .edit 2 [makeDelete 0 3 [] 0 0], .receive 2, .process, .deliver 2,
    .edit 2 [makeDelete 0 1 [] 0 0], .receive 2, .process, .deliver 2,
    .deliver 3, .deliver 3, .deliver 3, .edit 3 [makeInsert 5 "xyz".toList 0 0],
    .receive 1, .process, .receive 3, .process,
    .deliver 1, .deliver 1, .deliver 1, .deliver 1, .deliver 1, .deliver 2, .deliver 2,
    .deliver 3, .deliver 3]

/-- **An underflow makes the documents diverge.** The deletion of user 1 has shrunk to nothing inside the
    first deletion of user 2; against the second one its position wraps, and against the third one its
    length. The server clears the document, user 3 keeps its insertion and the rest. -/
theorem underflow_diverges :
    ∃ s, Machine.run step threeEditors underflowRun = some s ∧
      Machine.Along step WithinBounds threeEditors underflowRun ∧
      (∀ u ∈ s.users, ∀ msg ∈ s.sentDown u, msg.isNotice = true) ∧ ¬ s.Converged := by
  have hrun : (Machine.run step threeEditors underflowRun).isSome := by decide +kernel
  refine ⟨(Machine.run step threeEditors underflowRun).get hrun, (Option.some_get hrun).symm, ?_, ?_, ?_⟩
  · decide +kernel
  · decide +kernel +revert
  · decide +kernel +revert

end System

end CollabEditor
