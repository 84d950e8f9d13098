import CollabEditor.Client.OTController
import CollabEditor.Core.ServerOrder
import CollabEditor.Server.Requests

/-!
# `Server.Batches` — several operations in one message

`handle_operation` stamps all the entries of a message with the message's revision, so that `apply_with_ot`
takes them to be concurrent and transforms each one against the earlier ones of its own message. A client
that receives an array of operations applies them one after another.

The two readings agree if every operation is left as it is by the transform against the earlier ones: it ends at
or before their positions, or they are empty (`leftward_iff`).

## Contents
- **The two ways to send.** `processCommands`, `oneByOne`.
- **What a transform leaves alone.** `Before`, `xform_before`, `xform_eq_self_iff`.
- **The result.** `Leftward`, `leftward_iff`; `batch_agrees`; `batch_disagrees`, two insertions side by side.
-/

namespace CollabEditor

open Diamond

variable {α σ : Type}

/-! ## The two ways to send -/

namespace DocumentSession

/-- The session after a list of commands. -/
def processCommands (s : DocumentSession α σ) (cmds : List (DocCommand α σ)) : DocumentSession α σ :=
  cmds.foldl (fun s cmd => (s.processCommand cmd).1) s

/-- One message for each entry, based on the revision that the acknowledgement of the one before carries. -/
def oneByOne (s : DocumentSession α σ) (docId userId : UInt32) (username : String) :
    List (OpEntry α) → DocumentSession α σ
  | [] => s
  | entry :: entries =>
      let msg : OperationMsg α := { docId := docId, revision := s.doc.revision, ops := [entry] }
      oneByOne (s.processCommands (operationCommands userId username msg)) docId userId username entries

end DocumentSession

/-! ## What a transform leaves alone -/

/-- `op` ends at or before the position of `e`; a deletion also starts before it, unless `e` is a deletion. -/
def Before (op e : Operation α) : Prop :=
  (op.type = .insert → op.position ≤ e.position) ∧
    (op.type = .delete → op.position + op.length ≤ e.position ∧ (op.position < e.position ∨ e.type = .delete))

instance (op e : Operation α) : Decidable (Before op e) :=
  inferInstanceAs (Decidable (_ ∧ _))

/-- The operation lies below `2^31`, as every operation in range of such a document does. -/
structure Operation.Low (op : Operation α) : Prop where
  wellFormed : op.WellFormed
  position   : op.position.toNat < 2 ^ 31
  delete     : op.type = .delete → op.position.toNat + op.length.toNat < 2 ^ 31

theorem InRange.low {d : List α} {op : Operation α} (h : InRange d op) (hd : d.length < 2 ^ 31) :
    op.Low where
  wellFormed := h.1
  position := by
    cases ht : op.type with
    | insert => have := (h.insert ht).1; omega
    | delete => have := h.delete ht; omega
  delete ht := by have := h.delete ht; omega

/-- An empty operation has length zero, whatever its type. -/
theorem Operation.Low.length_noop {e : Operation α} (h : e.Low) (hn : e.isNoop = true) : e.length = 0 := by
  unfold Operation.isNoop at hn
  cases ht : e.type with
  | insert =>
      rw [ht] at hn
      rw [h.wellFormed ht, List.isEmpty_iff.mp hn]
      rfl
  | delete =>
      rw [ht] at hn
      exact eq_of_beq hn

section Clear

variable {op e : Operation α}

/-- An empty operation changes no other one. -/
theorem xform_noop (hop : op.Low) (he : e.Low) (hn : e.isNoop = true) : xform op e = op := by
  have hlen := he.length_noop hn
  cases hto : op.type <;> cases hte : e.type
  · simp only [xform, transform, hto, hte, transformInsertInsert, hlen, UInt32.add_zero]
    split_ifs <;> first | rfl | rw [← hto]
  · -- an insertion is on one side of an empty range
    simp only [xform, transform, hto, hte, transformInsertDelete, hlen, UInt32.add_zero, UInt32.sub_zero]
    split_ifs with h h'
    · rfl
    · rw [← hto]
    · exact absurd ((UInt32.le_total op.position e.position).resolve_left h) h'
  · simp only [xform, transform, hto, hte, transformInsertDelete, hlen, UInt32.add_zero]
    split_ifs with h h'
    · rw [← hto]
    · rfl
    · rw [← hto]
  · have hends := hop.delete hto
    have hover : deleteOverlap op e = 0 := by
      rw [deleteOverlap_eq_zero hends (he.delete hte), Edit.shared, hlen, UInt32.toNat_zero]
      omega
    simp only [xform, transform, hto, hte, transformDeleteDelete, hover, hlen, UInt32.sub_zero, if_true]
    split_ifs <;> first | rfl | rw [← hto]

/-- An operation that ends before another one is left as it is by it. -/
theorem xform_before (hop : op.Low) (he : e.Low) (hsame : op.userId = e.userId) (hb : Before op e) :
    xform op e = op := by
  cases hto : op.type <;> cases hte : e.type
  · have hle := hb.1 hto
    have huser : ¬ e.userId < op.userId := by rw [hsame]; exact UInt32.lt_irrefl _
    simp only [xform, transform, hto, hte, transformInsertInsert]
    rw [if_neg (UInt32.not_lt.mpr hle), if_neg huser]
    split_ifs <;> rfl
  · simp only [xform, transform, hto, hte, transformInsertDelete]
    rw [if_pos (hb.1 hto)]
  · obtain ⟨hle, hlt⟩ := hb.2 hto
    rw [hte] at hlt
    have hlt := hlt.resolve_right (by decide)
    simp only [xform, transform, hto, hte, transformInsertDelete]
    rw [if_neg (UInt32.not_le.mpr hlt), if_pos hle]
  · obtain ⟨hle, -⟩ := hb.2 hto
    have hends := hop.delete hto
    rw [UInt32.le_iff_toNat_le, Word.toNat_add (by omega)] at hle
    have hover : deleteOverlap op e = 0 := by
      rw [deleteOverlap_eq_zero hends (he.delete hte), Edit.shared]
      omega
    have hright : ¬ e.position < op.position := by
      rw [UInt32.lt_iff_toNat_lt]
      omega
    simp only [xform, transform, hto, hte, transformDeleteDelete, hover, if_true]
    rw [if_neg hright]
    split_ifs <;> rfl

/-- An operation that is not empty has a length, unless its text is too long for the counter. -/
theorem Operation.Low.length_ne (h : e.Low) (htext : e.type = .insert → e.text.length < 2 ^ 32)
    (hn : e.isNoop = false) : e.length.toNat ≠ 0 := by
  unfold Operation.isNoop at hn
  cases ht : e.type with
  | insert =>
      rw [ht] at hn
      rw [h.wellFormed ht, Word.toNat_ofNat (htext ht)]
      exact fun h => List.isEmpty_eq_false_iff.mp hn (List.length_eq_zero_iff.mp h)
  | delete =>
      rw [ht] at hn
      exact fun h => absurd (UInt32.toNat_inj.mp h) (ne_of_beq_false hn)

/-- **Exactly these operations are left as they are** by the transform against an operation of their author. -/
theorem xform_eq_self_iff (hop : op.Low) (he : e.Low) (hsame : op.userId = e.userId)
    (htext : e.type = .insert → e.text.length < 2 ^ 32) : xform op e = op ↔ e.isNoop = true ∨ Before op e := by
  constructor
  · intro h
    cases hn : e.isNoop with
    | true => exact .inl rfl
    | false =>
        -- a shift by the length of `e`, or an overlap with it, would show
        have hlen := he.length_ne htext hn
        have hadd : ∀ a : UInt32, a + e.length ≠ a :=
          fun a h => hlen (congrArg UInt32.toNat (Word.eq_zero_of_add h))
        have hsub : ∀ a : UInt32, a - e.length ≠ a :=
          fun a h => hlen (congrArg UInt32.toNat (Word.eq_zero_of_sub h))
        have hposition := congrArg Operation.position h
        have hlength := congrArg Operation.length h
        refine .inr ⟨fun hto => ?_, fun hto => ?_⟩
        · cases hte : e.type with
          | insert =>
              simp only [xform, transform, hto, hte, transformInsertInsert] at hposition
              refine UInt32.not_lt.mp fun hlt => ?_
              rw [if_neg (UInt32.lt_asymm hlt), if_pos hlt] at hposition
              exact hadd _ hposition
          | delete =>
              simp only [xform, transform, hto, hte, transformInsertDelete] at hposition
              by_contra hlt
              rw [if_neg hlt] at hposition
              split_ifs at hposition with hright
              · exact hsub _ hposition
              · exact hlt (UInt32.le_of_eq hposition.symm)
        · cases hte : e.type with
          | insert =>
              simp only [xform, transform, hto, hte, transformInsertDelete] at hposition hlength
              split_ifs at hposition hlength with hleft hright
              · exact absurd hposition (hadd _)
              · exact ⟨hright, .inl (UInt32.not_le.mp hleft)⟩
              · exact absurd hlength (hadd _)
          | delete =>
              have hends := hop.delete hto
              have hover := deleteOverlap_eq_zero hends (he.delete hte)
              have hshared := toNat_deleteOverlap hends (he.delete hte)
              simp only [xform, transform, hto, hte, transformDeleteDelete] at hposition hlength
              refine ⟨?_, .inr rfl⟩
              rw [UInt32.le_iff_toNat_le, Word.toNat_add (by omega)]
              by_cases hzero : deleteOverlap op e = 0
              · rw [if_pos hzero] at hposition
                rw [hover, Edit.shared] at hzero
                split_ifs at hposition with hleft hright
                · rw [UInt32.lt_iff_toNat_lt] at hleft
                  omega
                · exact absurd hposition (hsub _)
                · rw [UInt32.lt_iff_toNat_lt] at hleft hright
                  omega
              · rw [if_neg hzero] at hlength
                rw [Word.eq_zero_of_sub hlength] at hshared
                exact absurd (hover.mpr hshared.symm) hzero
  · rintro (hn | hb)
    · exact xform_noop hop he hn
    · exact xform_before hop he hsame hb

/-- No operation of the list changes `op`. -/
theorem rebase_eq_self {es : List (Operation α)} (h : ∀ e ∈ es, xform op e = op) :
    rebase xform op es = op := by
  induction es with
  | nil => rfl
  | cons e es ih =>
      rw [rebase_cons, h e List.mem_cons_self]
      exact ih fun e' he' => h e' (List.mem_cons_of_mem e he')

end Clear

/-! ## The two readings of a list of operations -/

/-- **Operations based on one revision** that do not change each other are applied as they are. -/
theorem Retains.applyAll {doc₀ doc : Document α} {log ops : List (Operation α)} (h : Retains doc₀ log doc)
    (hrev : ∀ op ∈ ops, op.revision = doc₀.revision) (hmax : doc₀.revision.toNat + (log ++ ops).length < 2 ^ 32)
    (hroom : (log ++ ops).length ≤ doc₀.historyLimit.toNat)
    (hclear : (log ++ ops).Pairwise fun e op => xform op e = op) :
    (doc.applyAll ops).content = acts apply doc.content ops := by
  induction ops generalizing doc log with
  | nil => rfl
  | cons op ops ih =>
      rw [List.append_cons] at hmax hroom hclear
      have hself : rebase xform op log = op := by
        apply rebase_eq_self
        intro e he
        exact (List.pairwise_append.mp (List.pairwise_append.mp hclear).1).2.2 e he op
          (List.mem_singleton.mpr rfl)
      simp only [List.length_append, List.length_singleton] at hmax hroom
      obtain ⟨hcontent, hnext⟩ := h.applyWithOt (hrev op List.mem_cons_self) (by omega)
      rw [hself] at hcontent hnext
      have hlater := ih (hnext (by omega)) (fun op' h' => hrev op' (List.mem_cons_of_mem op h'))
        (by simp only [List.length_append, List.length_singleton]; omega)
        (by simp only [List.length_append, List.length_singleton]; omega) hclear
      show ((doc.applyWithOt op).1.applyAll ops).content = _
      rw [hlater, hcontent]
      rfl

/-- An operation based on the current revision is applied as it is. -/
theorem applyWithOt_current {doc : Document α} (hw : doc.WindowExact) {op : Operation α}
    (hrev : op.revision = doc.revision) (hmax : doc.revision.toNat + 1 < 2 ^ 32) :
    (doc.applyWithOt op).1.content = apply doc.content op ∧ (doc.applyWithOt op).1.WindowExact ∧
      (doc.applyWithOt op).1.revision.toNat = doc.revision.toNat + 1 := by
  have hself := Document.Follows.refl hw
  have hin : doc.InWindow op.revision := by
    rw [hrev]
    unfold Document.WindowExact at hw
    exact ⟨by omega, Nat.le_refl _⟩
  have hsince : doc.since op.revision = [] := by
    rw [hself.since_eq (j := 0) (by rw [hrev]; rfl) hin.1, List.drop_nil]
  obtain ⟨doc', happ, hfollows, -⟩ := hself.applyWithOt hin hmax
  rw [hsince] at happ hfollows
  rw [happ]
  exact ⟨hfollows.content, hfollows.window, hfollows.revision⟩

/-- What an operation does depends neither on its author nor on its base. -/
theorem apply_fromEntry (d : List α) (entry : OpEntry α) (u r u' r' : UInt32) :
    apply d (fromEntry entry u r) = apply d (fromEntry entry u' r') := by
  unfold fromEntry
  split_ifs <;> rfl

namespace DocumentSession

theorem processCommands_doc (s : DocumentSession α σ) {cmds : List (DocCommand α σ)}
    (h : ∀ cmd ∈ cmds, cmd.type = .operation) :
    (s.processCommands cmds).doc = s.doc.applyAll (cmds.map DocCommand.operation) := by
  induction cmds generalizing s with
  | nil => rfl
  | cons cmd cmds ih =>
      have hdoc : (s.processCommand cmd).1.doc = (s.doc.applyWithOt cmd.operation).1 := by
        rw [processCommand_operation s (h cmd List.mem_cons_self)]
        unfold handleOperation
        split
        · next happ => rw [happ]
        · next happ => rw [happ]
      show ((s.processCommand cmd).1.processCommands cmds).doc = _
      rw [ih _ fun cmd' h' => h cmd' (List.mem_cons_of_mem cmd h'), hdoc]
      rfl

theorem processCommands_operations (s : DocumentSession α σ) (u : UInt32) (name : String)
    (msg : OperationMsg α) :
    (s.processCommands (operationCommands u name msg)).doc =
      s.doc.applyAll (msg.ops.map (fromEntry · u msg.revision)) := by
  rw [processCommands_doc]
  · unfold operationCommands
    rw [List.map_map]
    rfl
  · intro cmd hcmd
    obtain ⟨entry, _, rfl⟩ := List.mem_map.mp hcmd
    rfl

/-- **One by one**, the operations of the list are applied as they are. -/
theorem oneByOne_content (s : DocumentSession α σ) (docId u r : UInt32) (name : String)
    {entries : List (OpEntry α)} (hw : s.doc.WindowExact)
    (hmax : s.doc.revision.toNat + entries.length < 2 ^ 32) :
    (s.oneByOne docId u name entries).doc.content =
      acts apply s.doc.content (entries.map (fromEntry · u r)) := by
  induction entries generalizing s with
  | nil => rfl
  | cons entry entries ih =>
      rw [List.length_cons] at hmax
      have hone := processCommands_operations s u name
        { docId := docId, revision := s.doc.revision, ops := [entry] }
      have hrev : (fromEntry entry u s.doc.revision).revision = s.doc.revision := by
        unfold fromEntry
        split_ifs <;> rfl
      obtain ⟨hcontent, hw', hrevision⟩ := applyWithOt_current hw hrev (by omega)
      change _ = (s.doc.applyWithOt (fromEntry entry u s.doc.revision)).1 at hone
      rw [oneByOne, ih _ (by rw [hone]; exact hw') (by rw [hone, hrevision]; omega), hone, hcontent,
        apply_fromEntry _ entry u s.doc.revision u r]
      rfl

end DocumentSession

/-- A synchronized client applies an array of operations one after another. -/
theorem broadcastLoop_synchronized {c : OTController α} (hs : c.state = .synchronized)
    (ops : List (Operation α)) :
    ∃ c' effects, c.broadcastLoop ops = some (c', effects) ∧
      c'.doc.content = acts apply c.doc.content ops := by
  induction ops generalizing c with
  | nil => exact ⟨c, [], rfl, rfl⟩
  | cons op ops ih =>
      have hone : c.receiveOperation op =
          some ({ c with doc := c.doc.apply op }, [.remoteOperationApplied op]) := by
        unfold OTController.receiveOperation
        rw [hs]
      obtain ⟨c', effects, hloop, hcontent⟩ := @ih { c with doc := c.doc.apply op } hs
      rw [OTController.broadcastLoop, hone]
      refine ⟨c', [.remoteOperationApplied op] ++ effects, ?_, hcontent⟩
      show (OTController.broadcastLoop { c with doc := c.doc.apply op } ops).bind _ = _
      rw [hloop]
      rfl

/-! ## The result -/

/-- Operations that one user sends in one message with revision `r`: each one is in range of what the ones
    before make of the document, which stays below `2^31` bytes. -/
def InOneMessage (s : DocumentSession α σ) (u : UInt32) (msg : OperationMsg α) : Prop :=
  ChainOk apply (fun d op => d.length < 2 ^ 31 ∧ InRange d op) s.doc.content
    (msg.ops.map (fromEntry · u msg.revision))

instance (s : DocumentSession α σ) (u : UInt32) (msg : OperationMsg α) : Decidable (InOneMessage s u msg) :=
  inferInstanceAs (Decidable (ChainOk apply _ _ _))

/-- No operation of the message is right of an earlier one, empty operations apart. -/
def Leftward (u : UInt32) (msg : OperationMsg α) : Prop :=
  (msg.ops.map (fromEntry · u msg.revision)).Pairwise fun e op => e.isNoop = true ∨ Before op e

instance (u : UInt32) (msg : OperationMsg α) : Decidable (Leftward u msg) :=
  inferInstanceAs (Decidable (List.Pairwise _ _))

theorem ChainOk.low {d : List α} {ops : List (Operation α)}
    (h : ChainOk apply (fun d op => d.length < 2 ^ 31 ∧ InRange d op) d ops) : ∀ op ∈ ops, op.Low := by
  induction ops generalizing d with
  | nil => intro op hop; cases hop
  | cons op ops ih =>
      intro op' hop'
      rcases List.mem_cons.mp hop' with rfl | hmem
      · exact h.1.2.low h.1.1
      · exact ih h.2 op' hmem

/-- A text that is inserted before a later operation is short. -/
theorem ChainOk.short {d : List α} {ops : List (Operation α)}
    (h : ChainOk apply (fun d op => d.length < 2 ^ 31 ∧ InRange d op) d ops) :
    ops.Pairwise fun e _ => e.type = .insert → e.text.length < 2 ^ 32 := by
  induction ops generalizing d with
  | nil => exact .nil
  | cons e ops ih =>
      refine List.pairwise_cons.mpr ⟨fun op hop hins => ?_, ih h.2⟩
      have hafter : (apply d e).length < 2 ^ 31 := by
        cases ops with
        | nil => cases hop
        | cons next rest => exact h.2.1.1
      have := length_text_lt h.1.2 hins h.1.1 (by omega)
      omega

/-- **The condition is exact**: in these messages the transform against an earlier operation changes none, and in
    no others. -/
theorem leftward_iff {s : DocumentSession α σ} {u : UInt32} {msg : OperationMsg α} (hrange : InOneMessage s u msg) :
    Leftward u msg ↔
      (msg.ops.map (fromEntry · u msg.revision)).Pairwise fun e op => xform op e = op := by
  have huser : ∀ op ∈ msg.ops.map (fromEntry · u msg.revision), op.userId = u := by
    intro op hop
    obtain ⟨entry, _, rfl⟩ := List.mem_map.mp hop
    unfold fromEntry
    split_ifs <;> rfl
  have hlow := ChainOk.low hrange
  have hself : ∀ {e op : Operation α}, e ∈ msg.ops.map (fromEntry · u msg.revision) →
      op ∈ msg.ops.map (fromEntry · u msg.revision) → (e.type = .insert → e.text.length < 2 ^ 32) →
      (xform op e = op ↔ e.isNoop = true ∨ Before op e) := fun he hop =>
    xform_eq_self_iff (hlow _ hop) (hlow _ he) ((huser _ hop).trans (huser _ he).symm)
  constructor
  · exact fun h => (h.and (ChainOk.short hrange)).imp_of_mem fun he hop h => (hself he hop h.2).mpr h.1
  · exact fun h => (h.and (ChainOk.short hrange)).imp_of_mem fun he hop h => (hself he hop h.2).mp h.1

/-- **A message of several operations** that stay left of each other means the same as its operations sent one
    by one, and what a synchronized client makes of the array. -/
theorem batch_agrees {s : DocumentSession α σ} {u : UInt32} {msg : OperationMsg α} (name : String)
    (hw : s.doc.WindowExact) (hrev : msg.revision = s.doc.revision)
    (hlimit : msg.ops.length ≤ s.doc.historyLimit.toNat)
    (hmax : s.doc.revision.toNat + msg.ops.length < 2 ^ 32) (hrange : InOneMessage s u msg)
    (hleft : Leftward u msg) :
    (s.processCommands (operationCommands u name msg)).doc.content =
        (s.oneByOne msg.docId u name msg.ops).doc.content ∧
      ∀ c : OTController α, c.state = .synchronized → c.userId ≠ u → c.doc.content = s.doc.content →
        ∃ c' effects, c.handleBroadcast
            { docId := msg.docId, userId := u, username := name, revision := msg.revision, ops := msg.ops } =
              some (c', effects) ∧
          c'.doc.content = (s.processCommands (operationCommands u name msg)).doc.content := by
  have hrevision : ∀ op ∈ msg.ops.map (fromEntry · u msg.revision), op.revision = s.doc.revision := by
    intro op hop
    obtain ⟨entry, _, rfl⟩ := List.mem_map.mp hop
    rw [← hrev]
    unfold fromEntry
    split_ifs <;> rfl
  have hself : Retains s.doc [] s.doc := ⟨Document.Follows.refl hw, rfl, Nat.zero_le _⟩
  have hbatch : (s.processCommands (operationCommands u name msg)).doc.content =
      acts apply s.doc.content (msg.ops.map (fromEntry · u msg.revision)) := by
    rw [s.processCommands_operations]
    exact hself.applyAll hrevision (by simpa using hmax) (by simpa using hlimit) ((leftward_iff hrange).mp hleft)
  refine ⟨by rw [hbatch, s.oneByOne_content msg.docId u msg.revision name hw hmax], ?_⟩
  intro c hs hu hc
  obtain ⟨c', effects, hloop, hcontent⟩ :=
    broadcastLoop_synchronized hs (msg.ops.map (fromEntry · u msg.revision))
  unfold OTController.handleBroadcast
  rw [if_neg (Ne.symm hu), hloop]
  refine ⟨_, _, rfl, ?_⟩
  rw [hbatch, ← hc, ← hcontent]
  rfl

/-- A new document with the content `ab`. -/
def shortText : DocumentSession Char ℕ :=
  { doc := { Document.create 1 "t" with content := "ab".toList } }

/-- A message with two insertions. -/
def twoInsertions (p q : UInt32) : OperationMsg Char :=
  { docId := 1, revision := 0
    ops := [{ op := "insert", pos := p, text := ['x'] }, { op := "insert", pos := q, text := ['y'] }] }

/-- A deletion of nothing where the first one has been is left as it is. -/
example : Leftward 1 ({ docId := 1, revision := 0, ops :=
    [{ op := "delete", pos := 1, len := 1 }, { op := "delete", pos := 1, len := 0 }] } : OperationMsg Char) := by
  decide

theorem batch_agrees_leftward :
    (shortText.processCommands (operationCommands 1 "a" (twoInsertions 1 1))).doc.content =
        (shortText.oneByOne 1 1 "a" (twoInsertions 1 1).ops).doc.content := by
  have hwindow : shortText.doc.WindowExact := rfl
  have hrange : InOneMessage shortText 1 (twoInsertions 1 1) := by decide
  have hleft : Leftward 1 (twoInsertions 1 1) := by decide
  exact (batch_agrees "a" hwindow (by rfl) (by decide) (by decide) hrange hleft).1

/-- Two letters typed one after the other in front of `ab`: the second one ends up behind the `a`. -/
theorem batch_disagrees :
    InOneMessage shortText 1 (twoInsertions 0 1) ∧
      (shortText.processCommands (operationCommands 1 "a" (twoInsertions 0 1))).doc.content = "xayb".toList ∧
      (shortText.oneByOne 1 1 "a" (twoInsertions 0 1).ops).doc.content = "xyab".toList := by
  decide

end CollabEditor
