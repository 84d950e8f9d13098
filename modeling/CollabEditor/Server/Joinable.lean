import CollabEditor.Core.CodePoints
import CollabEditor.Protocol.Dump
import CollabEditor.Server.Admission
import CollabEditor.Server.Refusal

/-!
# `Server.Joinable` — documents that can be joined

A reader who joins a document is sent all of it in one message. The message does not serialize if the content
is not valid UTF-8, and the client refuses its frame if it is above `MAX_PAYLOAD_SIZE`. `handle_operation`
looks after neither: it takes any positions and lengths in bytes, and as many insertions as come.

## Contents
- **The property.** `Joinable`, and `joinable_of` and `valid_of_joinable`.
- **The condition.** `Harmless`, on the submission and the document before it.
- **Runs.** `Healthy`, `healthy_submit`, `stays_joinable`; `unjoinable`, after half of a character is deleted.
-/

namespace CollabEditor

open Diamond Json MessageHandler

/-- A server with one document, which its user may read. -/
def Server.serving (content : List UInt8) : Server where
  env := { sha256Hex := id, salt := fun _ => "", generateColor := fun _ => "" }
  access := AccessControl.grant {} 1 0 .viewer
  manager := { dataDir := { txt := fun _ => some content } }

namespace Recorded

/-! ## The property -/

/-- On any server that has the document, the request of a reader to join it is answered with a response that
    has the content; if the rest of the response takes at most `room` bytes, it serializes, and the client
    accepts its frame. -/
def Joinable (room : ℕ) (t : Recorded UInt8) : Prop :=
  ∀ (s : Server) (i : SessionId) (j : Json) (docId : UInt32), docIdOf j = .ok docId →
    s.access.canRead docId (s.clients i).userId = true → s.storedContent docId = some t.doc.content →
    ∃ s' msg, (handleDocJoin i j).run Server.exec s = (s', .ok ()) ∧ s.Replied s' i [.docJoinResponse msg] ∧
      msg.success = true ∧ msg.content = t.doc.content ∧
      (restSize msg ≤ room → ∃ payload, serialize (.docJoinResponse msg) = .ok payload ∧ Accepted payload)

section Joinable

variable {room : ℕ} {t : Recorded UInt8}

theorem joinable_of (hvalid : Utf8.Valid t.doc.content)
    (hsize : room + escapedSize t.doc.content ≤ maxPayloadSize.toNat) : t.Joinable room := by
  intro s i j docId hid hread hstored
  obtain ⟨doc, session, hopen⟩ := Server.opened_of_storedContent hstored
  obtain ⟨msg, enqueueJoin, hmsg, hcontent, hjoin, hrun⟩ := Server.run_handleDocJoin hid hread hopen
  rw [← Option.some.inj ((Server.storedContent_opened hopen).symm.trans hstored)] at hvalid hsize ⊢
  have hserial : (ServerMsg.docJoinResponse msg).Serializable := fun _ => hcontent ▸ hvalid
  have hself := Server.clients_setCurrentDoc_self (s := s) (i := i) docId docId
  let u := ((s.openDocument docId).setCurrentDoc i docId).sendTo i (.docJoinResponse msg)
  have hhandled : (handleDocJoin i j).run Server.exec s = (u.enqueue session (u.joinCommand i), .ok ()) := by
    rw [hrun, Prog.run_bind, Server.run_sendMsg hserial]
    exact hjoin u
  refine ⟨_, msg, hhandled, ?_, hmsg, hcontent, fun hrest => ?_⟩
  · refine (Server.sent_sendTo _ i (.docJoinResponse msg)).after ?_ ?_
    · rw [hself]
    · rw [hself]
  · refine (accepted_docJoinResponse_iff hmsg).mpr ⟨hcontent ▸ hvalid, ?_⟩
    rw [hcontent]
    omega

theorem valid_of_joinable (h : t.Joinable room) : Utf8.Valid t.doc.content := by
  by_contra hinvalid
  have hid := docIdOf_request "doc_join_request" 1
  have hread : (Server.serving t.doc.content).access.canRead 1 0 = true := by
    show (AccessControl.grant {} 1 0 .viewer).canRead 1 0 = true
    decide +kernel
  have hstored : (Server.serving t.doc.content).storedContent 1 = some t.doc.content := rfl
  obtain ⟨doc, session, hopen⟩ := Server.opened_of_storedContent hstored
  obtain ⟨msg, enqueueJoin, hmsg, hcontent, -, hrun⟩ := Server.run_handleDocJoin (i := 0) hid hread hopen
  obtain ⟨s', -, hok, -⟩ := h (Server.serving t.doc.content) 0 _ 1 hid hread rfl
  have hserial : ¬ (ServerMsg.docJoinResponse msg).Serializable := by
    intro hserial
    rw [Server.storedContent_opened hopen, ← hcontent] at hstored
    exact hinvalid (Option.some.inj hstored ▸ hserial hmsg)
  rw [hrun, Prog.run_bind] at hok
  unfold sendMsg at hok
  rw [if_neg hserial] at hok
  cases hok

end Joinable

/-! ## The condition -/

/-- The submission is too old; or it is based in the window and tears no code point of the content at its base, no
    transform of it underflows, the counter does not wrap, and the content stays within its room with what the
    submission inserts. -/
def Harmless (room : ℕ) (t : Recorded UInt8) (s : Submission UInt8) : Prop :=
  (0 < t.doc.revision ∧ s.revision < t.doc.oldestRevision) ∨
    t.doc.InWindow s.revision ∧ Whole (t.contentAt s.revision) s.operation ∧ t.NoWrap s.operation ∧
      room + escapedSize t.doc.content + escapedSize s.operation.text ≤ maxPayloadSize.toNat

instance (room : ℕ) (t : Recorded UInt8) (s : Submission UInt8) : Decidable (t.Harmless room s) :=
  inferInstanceAs (Decidable (_ ∨ _))

/-! ## Runs -/

/-- The invariant: the record is faithful, no stored operation tears a code point, and the content is valid and
    within its room. -/
structure Healthy (room : ℕ) (doc₀ : Document UInt8) (t : Recorded UInt8) : Prop where
  faithful : Faithful doc₀ t
  whole    : ChainOk apply Whole doc₀.content t.stored
  valid    : Utf8.Valid t.doc.content
  small    : room + escapedSize t.doc.content ≤ maxPayloadSize.toNat

section Runs

variable {room : ℕ} {doc₀ : Document UInt8} {t t' : Recorded UInt8} {s : Submission UInt8}

/-- What a transform leaves of an insertion's text. -/
theorem text_xform (a b : Operation UInt8) : (xform a b).text = a.text ∨ (xform a b).text = [] := by
  simp only [xform, transform, transformInsertInsert, transformInsertDelete, transformDeleteDelete]
  cases a.type <;> cases b.type <;> dsimp only <;> split_ifs <;> simp

theorem escapedSize_rebase_le (op : Operation UInt8) (hs : List (Operation UInt8)) :
    escapedSize (rebase xform op hs).text ≤ escapedSize op.text := by
  induction hs generalizing op with
  | nil => exact Nat.le_refl _
  | cons h hs ih =>
      refine Nat.le_trans (ih (xform op h)) ?_
      rcases text_xform op h with htext | htext
      · rw [htext]
      · rw [htext]
        exact Nat.zero_le _

/-- No operation adds more than its text. -/
theorem escapedSize_apply_le (d : List UInt8) (op : Operation UInt8) :
    escapedSize (apply d op) ≤ escapedSize d + escapedSize op.text := by
  have hsplit : ∀ p, escapedSize (d.take p) + escapedSize (d.drop p) = escapedSize d := by
    intro p
    rw [← escapedSize_append, List.take_append_drop]
  unfold apply
  split_ifs with hn
  · omega
  · cases op.type with
    | insert =>
        simp only [escapedSize_append]
        have := hsplit (min op.position (UInt32.ofNat d.length)).toNat
        omega
    | delete =>
        dsimp only
        generalize (min op.position (UInt32.ofNat d.length)).toNat = p
        generalize (min op.length (UInt32.ofNat (d.length - p))).toNat = n
        have hfront := hsplit p
        have hback : escapedSize ((d.drop p).take n) + escapedSize (d.drop (p + n)) = escapedSize (d.drop p) := by
          rw [← List.drop_drop, ← escapedSize_append, List.take_append_drop]
        rw [escapedSize_append]
        omega

theorem added_le_escapedSize (op : Operation UInt8) : op.added ≤ escapedSize op.text := by
  unfold Operation.added
  cases op.type with
  | insert => exact length_le_escapedSize op.text
  | delete => exact Nat.zero_le _

/-- **One submission** that is harmless keeps the document healthy. -/
theorem healthy_submit (h : Healthy room doc₀ t) (hs : t.Harmless room s) (hstep : t.submit s = some t') :
    Healthy room doc₀ t' := by
  rcases hs with hold | ⟨hw, hwhole, hn, hsize⟩
  · rw [submit_tooOld hold] at hstep
    cases hstep
    exact h
  · have hadded := added_le_escapedSize s.operation
    have hlength := length_le_escapedSize t.doc.content
    have hmax : maxPayloadSize.toNat = 2 ^ 24 := rfl
    have hfaith := step_faithful h.faithful
      (h.faithful.admissible hw hwhole.1 hn (by omega)) hn hstep
    rw [← revision_operation s] at hw hwhole
    obtain ⟨doc', op', heq, hop', hin, hc, hfol⟩ := h.faithful.accepts hw hwhole.1 hn
    -- what is stored is whole on the content that it is applied to
    have hstored : Whole t.doc.content op' := by
      have hr : s.operation.revision.toNat ≤ t.stored.length := h.faithful.revision_eq ▸ hw.2
      have hbase := h.faithful.contentAt_eq hr
      have hchain := h.whole.drop s.operation.revision.toNat
      rw [← hbase] at hchain
      have hok := whole_laws.rebase_ok hwhole hchain (h.faithful.rebaseFine hw hn.1)
      rwa [hbase, ← acts_append, List.take_append_drop, ← h.faithful.follows.content, ← hop'] at hok
    have hadds := escapedSize_apply_le t.doc.content op'
    have htext := escapedSize_rebase_le s.operation (t.stored.drop s.operation.revision.toNat)
    rw [← hop'] at htext
    simp only [submit, step, heq] at hstep
    cases hstep
    refine ⟨hfaith, ?_, ?_, ?_⟩
    · refine h.whole.snoc ?_
      rw [← h.faithful.follows.content]
      exact hstored
    · show Utf8.Valid doc'.content
      rw [hc]
      exact valid_apply h.valid hstored (by omega)
    · show room + escapedSize doc'.content ≤ _
      rw [hc]
      omega

end Runs

/-- **A document stays joinable** in every run of harmless submissions, if it is to start with. -/
theorem stays_joinable {room : ℕ} {id : UInt32} {title : String} {content : List UInt8} {limit : UInt32}
    {subs : List (Submission UInt8)} {t : Recorded UInt8} (hvalid : Utf8.Valid content)
    (hsize : room + escapedSize content ≤ maxPayloadSize.toNat)
    (hr : Machine.run submit (start id title content limit) subs = some t)
    (hok : Machine.Along submit (Harmless room) (start id title content limit) subs) : t.Joinable room := by
  have hlength := length_le_escapedSize content
  have hmax : maxPayloadSize.toNat = 2 ^ 24 := rfl
  have hstart : Healthy room (start id title content limit).doc (start id title content limit) :=
    ⟨start_faithful id title content limit (by omega), trivial, hvalid, hsize⟩
  have hhealthy := Machine.run_invariant (fun _ _ _ => healthy_submit) hstart hok hr
  exact joinable_of hhealthy.valid hhealthy.small

/-- User 1 types a character of two bytes and deletes it, while user 2 types another one before it. -/
def harmlessRun : List (Submission UInt8) :=
  [{ userId := 1, revision := 0, entry := { op := "insert", pos := 0, text := Utf8.encode "é" } },
    { userId := 2, revision := 0, entry := { op := "insert", pos := 0, text := Utf8.encode "ü" } },
    { userId := 1, revision := 1, entry := { op := "delete", pos := 0, len := 2 } }]

theorem stays_joinable_harmlessRun :
    ∃ t, Machine.run submit (start 1 "t" [] 10000) harmlessRun = some t ∧ t.Joinable 200 :=
  ⟨_, rfl, @stays_joinable 200 1 "t" [] 10000 harmlessRun _ (by decide) (by decide) rfl (by decide +kernel)⟩

/-- User 1 types the character and deletes one byte of it. -/
def tearingRun : List (Submission UInt8) :=
  [{ userId := 1, revision := 0, entry := { op := "insert", pos := 0, text := Utf8.encode "é" } },
    { userId := 1, revision := 1, entry := { op := "delete", pos := 0, len := 1 } }]

/-- **Half a character** is left, and no one can join the document any more. -/
theorem unjoinable :
    ∃ t, Machine.run submit (start 1 "t" [] 10000) tearingRun = some t ∧ t.doc.content = [0xA9] ∧
      ∀ room, ¬ t.Joinable room := by
  refine ⟨_, rfl, rfl, fun room h => ?_⟩
  have hvalid := valid_of_joinable h
  revert hvalid
  clear h
  decide +kernel +revert

end Recorded

end CollabEditor
