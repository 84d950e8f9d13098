import CollabEditor.Core.Window

/-!
# `Core.DeletedRange` — which bytes a deletion removes on the server

A deletion reaches the server with a base revision and is rewritten through every entry stored since.
With the content at each revision and the stored operations (`Recorded`) "the bytes the deletion named" and
"the bytes inserted strictly inside them" can be said; the byte type is arbitrary, and on tagged (pairwise
distinct) bytes the statements are about identities.

* Without an underflow in the transforms, a deletion removes only such bytes
  (`delete_removes_named_bytes`), over any run.
* With one, it can empty the document (`delete_removes_foreign_bytes`): the shrunken deletion's position
  wraps to `2^32 - 1`, the next deletion sees a positive signed overlap with it, and the subtraction of
  that overlap turns its zero length into almost `2^32`.
-/

namespace CollabEditor

open Diamond

variable {α : Type}

namespace Recorded

/-- The operation's base revision is retained, the operation is in range of the content at that
    revision, and the contents stay below `2^31` bytes. -/
def Admissible (t : Recorded α) (op : Operation α) : Prop :=
  t.doc.InWindow op.revision ∧ InRange (t.contentAt op.revision) op ∧
    t.doc.content.length < 2 ^ 31 ∧ (t.doc.applyWithOt op).1.content.length < 2 ^ 31

/-- No transform of the operation underflows, and the revision counter does not wrap. -/
def NoWrap (t : Recorded α) (op : Operation α) : Prop :=
  NeverUnderflows op (t.doc.since op.revision) ∧ t.doc.revision.toNat + 1 < 2 ^ 32

instance (t : Recorded α) (op : Operation α) : Decidable (t.Admissible op) :=
  inferInstanceAs (Decidable (_ ∧ _))

instance (t : Recorded α) (op : Operation α) : Decidable (t.NoWrap op) :=
  inferInstanceAs (Decidable (_ ∧ _))

/-- The bytes a deletion of `[p, p+n)` based on revision `r` is about: those it names, and those inserted
    since between two such bytes. -/
inductive InDeletedRange (t : Recorded α) (r : UInt32) (p n : ℕ) : α → Prop where
  | named {x : α} (h : x ∈ Edit.slice (t.contentAt r) p n) : InDeletedRange t r p n x
  | inside {x y z : α} {k : ℕ} {h : Operation α} {c : List α} (hk : r.toNat ≤ k)
      (hop : t.stored[k]? = some h) (hc : t.contents[k]? = some c) (ht : h.type = .insert)
      (hx : x ∈ h.text) (hy : y ∈ c.take h.position.toNat) (hz : z ∈ c.drop h.position.toNat)
      (iy : InDeletedRange t r p n y) (iz : InDeletedRange t r p n z) : InDeletedRange t r p n x

/-- What applying the operation takes out of the current content is in the range the deletion is about;
    an insertion takes nothing out. -/
def RemovesNamedBytes (t : Recorded α) (op : Operation α) : Prop :=
  ∃ left removed added right, t.doc.content = left ++ removed ++ right ∧
    (t.doc.applyWithOt op).1.content = left ++ added ++ right ∧
    (op.type = .insert → removed = []) ∧
    (op.type = .delete → added = [] ∧ ∀ x ∈ removed,
      InDeletedRange t op.revision op.position.toNat op.length.toNat x)

/-! ## The record is faithful -/

/-- The invariant of a run: the document follows the stored operations from the initial one, each was in
    range where it was applied, and the contents are the ones the record holds. -/
structure Faithful (doc₀ : Document α) (t : Recorded α) : Prop where
  zero     : doc₀.revision = 0
  follows  : doc₀.Follows t.stored t.doc
  contents : ∀ k, k ≤ t.stored.length → t.contents[k]? = some (acts apply doc₀.content (t.stored.take k))
  length   : t.contents.length = t.stored.length + 1
  chain    : ChainOk apply InRange doc₀.content t.stored
  sizes    : ∀ k, k ≤ t.stored.length → (acts apply doc₀.content (t.stored.take k)).length < 2 ^ 31

section Step

variable {doc₀ : Document α} {t : Recorded α} {op : Operation α}

theorem Faithful.kept (h : Faithful doc₀ t) : Kept doc₀ t := ⟨h.zero, h.follows, h.contents, h.length⟩

theorem start_faithful (id : UInt32) (title : String) (content : List α) (limit : UInt32)
    (h : content.length < 2 ^ 31) :
    Faithful (start id title content limit).doc (start id title content limit) := by
  have hk : Kept (start id title content limit).doc (start id title content limit) :=
    Kept.of_document rfl rfl
  refine ⟨hk.zero, hk.follows, hk.contents, hk.length, trivial, ?_⟩
  intro k hk
  obtain rfl : k = 0 := by simpa [start] using hk
  exact h

theorem Faithful.revision_eq (h : Faithful doc₀ t) : t.doc.revision.toNat = t.stored.length :=
  h.kept.revision_eq

theorem Faithful.contentAt_eq (h : Faithful doc₀ t) {r : UInt32} (hr : r.toNat ≤ t.stored.length) :
    t.contentAt r = acts apply doc₀.content (t.stored.take r.toNat) :=
  h.kept.contentAt_eq hr

theorem Faithful.since_eq (h : Faithful doc₀ t) (hw : t.doc.InWindow op.revision) :
    t.doc.since op.revision = t.stored.drop op.revision.toNat :=
  h.kept.since_eq hw

/-- The operations stored since an operation's base can all be transformed against. -/
theorem Faithful.rebaseFine (h : Faithful doc₀ t) (hw : t.doc.InWindow op.revision)
    (hn : NeverUnderflows op (t.doc.since op.revision)) :
    RebaseFine apply xform Fine (t.contentAt op.revision) op (t.stored.drop op.revision.toNat) := by
  have hr : op.revision.toNat ≤ t.stored.length := h.revision_eq ▸ hw.2
  rw [h.since_eq hw] at hn
  refine rebaseFine_of hn fun k hk => ?_
  rw [h.contentAt_eq hr, ← acts_append, ← List.take_add]
  rw [List.length_drop] at hk
  exact h.sizes _ (by omega)

/-- **One step of a run**: an operation in range of the content at its base is accepted and stored, in range
    of the content it is applied to. -/
theorem Faithful.accepts (h : Faithful doc₀ t) (hw : t.doc.InWindow op.revision)
    (hin : InRange (t.contentAt op.revision) op) (hn : t.NoWrap op) :
    ∃ doc' op', t.doc.applyWithOt op = (doc', .ok op') ∧
      op' = rebase xform op (t.stored.drop op.revision.toNat) ∧
      InRange t.doc.content op' ∧ doc'.content = apply t.doc.content op' ∧
      doc₀.Follows (t.stored ++ [op']) doc' := by
  obtain ⟨doc', heq, hfol, _, _, _⟩ := h.follows.applyWithOt hw hn.2
  have hr : op.revision.toNat ≤ t.stored.length := h.revision_eq ▸ hw.2
  have hbase := h.contentAt_eq hr
  have hchain := h.chain.drop op.revision.toNat
  rw [← hbase] at hchain
  have hok := transform_laws.rebase_ok hin hchain (h.rebaseFine hw hn.1)
  rw [hbase, ← acts_append, List.take_append_drop, ← h.follows.content] at hok
  rw [h.since_eq hw] at heq hfol
  refine ⟨doc', _, heq, rfl, hok, ?_, hfol⟩
  rw [hfol.content, acts_snoc, ← h.follows.content]

theorem step_faithful {t' : Recorded α} (h : Faithful doc₀ t) (ha : t.Admissible op)
    (hn : t.NoWrap op) (hs : t.step op = some t') : Faithful doc₀ t' := by
  obtain ⟨doc', op', heq, _, hok, hc, hfol⟩ := h.accepts ha.1 ha.2.1 hn
  have hsize := ha.2.2.2
  rw [heq] at hsize
  simp only [step, heq, Option.some.injEq] at hs
  subst hs
  have hk := h.kept.snoc heq hn.2
  have hall : acts apply doc₀.content (t.stored ++ [op']) = doc'.content := hfol.content.symm
  refine ⟨hk.zero, hk.follows, hk.contents, hk.length, ?_, ?_⟩
  · refine h.chain.snoc ?_
    rw [← h.follows.content]
    exact hok
  · intro k hk
    rw [List.length_append, List.length_singleton] at hk
    rcases Nat.lt_or_ge k (t.stored.length + 1) with hlt | hge
    · rw [List.take_append_of_le_length (by omega)]
      exact h.sizes k (by omega)
    · rw [List.take_of_length_le (by simp; omega), hall]
      exact hsize

end Step

/-- **Runs.** Every run whose operations are admissible and whose transforms do not wrap is recorded
    faithfully. -/
theorem run_faithful {doc₀ : Document α} {t t' : Recorded α} {ops : List (Operation α)}
    (h : Faithful doc₀ t)
    (hok : Machine.Along step (fun t op => t.Admissible op ∧ t.NoWrap op) t ops)
    (hrun : Machine.run step t ops = some t') : Faithful doc₀ t' :=
  Machine.run_invariant (fun _ _ _ hf hg hs => step_faithful hf hg.1 hg.2 hs) h hok hrun

/-! ## What a deletion covers after rebasing -/

theorem xform_delete {d : List α} {op h : Operation α} (ht : op.type = .delete) (ho : InRange d op)
    (hh : InRange d h) (hf : Fine d op h) :
    ∀ x ∈ Edit.slice (apply d h) (xform op h).position.toNat (xform op h).length.toNat,
      x ∈ Edit.slice d op.position.toNat op.length.toNat ∨
        (h.type = .insert ∧ op.position.toNat < h.position.toNat ∧
          h.position.toNat < op.position.toNat + op.length.toNat ∧ x ∈ h.text) := by
  have href := transform_refines hf.1 (Nat.lt_trans hf.2.1 (by decide)) ho hh hf.2.2
  have ht' : (transform op h).1.type = .delete := by rw [transform_type, ht]
  rw [op.toEdit_delete ht, Operation.toEdit_delete ht'] at href
  obtain ⟨p', m', hreb, hmem⟩ := Edit.mem_slice_rebase (p := op.position.toNat) (m := op.length.toNat) hh.2
  rw [hreb] at href
  injection href with hp hm
  intro x hx
  rw [apply_eq_act hh (by have := hf.1; omega), xform, hp, hm] at hx
  rcases hmem x hx with hin | ⟨q, s, v, heq, hpq, hqp, hs⟩
  · exact .inl hin
  · right
    cases hth : h.type with
    | insert =>
        rw [h.toEdit_insert hth] at heq
        injection heq with h1 h2 h3
        subst h1 h2
        exact ⟨rfl, hpq, hqp, hs⟩
    | delete => rw [h.toEdit_delete hth] at heq; cases heq

/-- A predicate that holds of the bytes a deletion names, and passes to texts inserted between two bytes
    that have it, holds of every byte the rebased deletion covers. -/
theorem rebase_covers {P : α → Prop} {hs : List (Operation α)} {d : List α} {op : Operation α}
    (ht : op.type = .delete) (ho : InRange d op) (hch : ChainOk apply InRange d hs)
    (hf : RebaseFine apply xform Fine d op hs)
    (hbase : ∀ x ∈ Edit.slice d op.position.toNat op.length.toNat, P x)
    (hins : ∀ k h, hs[k]? = some h → h.type = .insert →
      (∃ y ∈ (acts apply d (hs.take k)).take h.position.toNat, P y) →
      (∃ z ∈ (acts apply d (hs.take k)).drop h.position.toNat, P z) → ∀ x ∈ h.text, P x) :
    ∀ x ∈ Edit.slice (acts apply d hs) (rebase xform op hs).position.toNat
      (rebase xform op hs).length.toNat, P x := by
  induction hs generalizing d op with
  | nil => exact hbase
  | cons h hs ih =>
      have hclosed := transform_laws.closed ho hch.1 hf.1
      refine ih (by rw [xform, transform_type, ht]) hclosed hch.2 hf.2 ?_ ?_
      · intro x hx
        rcases xform_delete ht ho hch.1 hf.1 x hx with hin | ⟨hth, hlt, hgt, hxt⟩
        · exact hbase x hin
        · -- the insertion point lies strictly inside the range: it has range bytes on both sides
          have hr := ho.delete ht
          have hy : op.position.toNat < d.length := by omega
          have hz : h.position.toNat < d.length := by omega
          refine hins 0 h rfl hth ⟨d[op.position.toNat], ?_, hbase _ ?_⟩ ⟨d[h.position.toNat], ?_, hbase _ ?_⟩ x hxt
          · show _ ∈ d.take _
            exact List.mem_take_iff_getElem.mpr ⟨op.position.toNat, by omega, rfl⟩
          · exact Edit.mem_slice.mpr ⟨_, le_rfl, by omega, List.getElem?_eq_getElem hy⟩
          · show _ ∈ d.drop _
            exact List.mem_drop_iff_getElem.mpr ⟨0, by omega, by simp⟩
          · exact Edit.mem_slice.mpr ⟨_, by omega, by omega, List.getElem?_eq_getElem hz⟩
      · intro k h' hk
        exact hins (k + 1) h' (by simpa using hk)

/-! ## The theorem -/

/-- **A deletion removes only what it names.** In every run of the document over admissible operations
    without a wrap, a further such deletion of `[p, p+n)` based on revision `r` removes from the current
    content only bytes that were in that range at revision `r` or were inserted strictly inside it
    since; and an insertion removes nothing. -/
theorem delete_removes_named_bytes {id : UInt32} {title : String} {content : List α} {limit : UInt32}
    {ops : List (Operation α)} {t : Recorded α} {op : Operation α}
    (hsize : content.length < 2 ^ 31)
    (hok : Machine.Along step (fun t op => t.Admissible op ∧ t.NoWrap op)
      (start id title content limit) ops)
    (hrun : Machine.run step (start id title content limit) ops = some t)
    (ha : t.Admissible op) (hn : t.NoWrap op) : t.RemovesNamedBytes op := by
  have hfaith := run_faithful (start_faithful id title content limit hsize) hok hrun
  obtain ⟨doc', op', heq, hop', hin, hc, _⟩ := hfaith.accepts ha.1 ha.2.1 hn
  have htype : op'.type = op.type := by rw [hop', type_rebase]
  simp only [RemovesNamedBytes, heq, hc, apply_eq_act hin (by have := ha.2.2.1; omega)]
  cases ht : op.type with
  | insert =>
      rw [op'.toEdit_insert (by rw [htype, ht])]
      refine ⟨t.doc.content.take op'.position.toNat, [], op'.text,
        t.doc.content.drop op'.position.toNat, by simp, rfl, fun _ => rfl, by simp⟩
  | delete =>
      rw [op'.toEdit_delete (by rw [htype, ht])]
      obtain ⟨hd, hact⟩ := Edit.act_del_eq (d := t.doc.content) (p := op'.position.toNat)
        (n := op'.length.toNat)
      refine ⟨_, _, [], _, hd, by rw [hact]; simp, by simp, fun _ => ⟨rfl, ?_⟩⟩
      have hr : op.revision.toNat ≤ t.stored.length := hfaith.revision_eq ▸ ha.1.2
      have hbase := hfaith.contentAt_eq hr
      have hchain := hfaith.chain.drop op.revision.toNat
      rw [← hbase] at hchain
      have hcov := rebase_covers (P := InDeletedRange t op.revision op.position.toNat op.length.toNat) ht
        ha.2.1 hchain (hfaith.rebaseFine ha.1 hn.1) (fun x hx => .named hx) ?_
      · rwa [hbase, ← acts_append, List.take_append_drop, ← hfaith.follows.content, ← hop'] at hcov
      · rintro k h hk hth ⟨y, hy, iy⟩ ⟨z, hz, iz⟩ x hx
        rw [List.getElem?_drop] at hk
        rw [hbase, ← acts_append, ← List.take_add] at hy hz
        have hlen : op.revision.toNat + k ≤ t.stored.length :=
          Nat.le_of_lt (List.getElem?_eq_some_iff.mp hk).1
        exact .inside (Nat.le_add_right _ _) hk (hfaith.contents _ hlen) hth hx hy hz iy iz

/-- `HELLO`, where user 2 has inserted `XY` before the `L`s, and user 1's deletion of `ELL` arrives. -/
theorem delete_removes_named_bytes_hello :
    let t : Recorded Char :=
      { doc := { id := 1, title := "t", content := "HEXYLLO".toList, revision := 1,
                 history := [makeInsert 2 "XY".toList 2 0], dirty := true }
        contents := ["HELLO".toList, "HEXYLLO".toList]
        stored := [makeInsert 2 "XY".toList 2 0] }
    t.RemovesNamedBytes (makeDelete 1 3 [] 1 0) :=
  @delete_removes_named_bytes Char 1 "t" "HELLO".toList 10000 [makeInsert 2 "XY".toList 2 0] _ _
    (by decide) (by decide) rfl (by decide) (by decide)

/-! ## The underflow

On `ABCDEFGHIJ`, user 2 deletes `CDEF`, then `ABG`, then `H`; user 1, still at revision 0, deletes `D`.
The deletion of `D` shrinks to length 0 at position 2, is moved to `2 - 3 = 2^32 - 1` by the second entry,
and meets the third one with a signed overlap of 2: its length becomes `0 - 2 = 2^32 - 2`. -/

/-- The three deletions of user 2. -/
def coveringDeletes : List (Operation Char) :=
  [makeDelete 2 4 [] 2 0, makeDelete 0 3 [] 2 1, makeDelete 0 1 [] 2 2]

/-- The deletion of `D` by user 1. -/
def lateDelete : Operation Char := makeDelete 3 1 [] 1 0

/-- The document after the three deletions. -/
def coveredDocument : Recorded Char where
  doc := { id := 1, title := "t", content := "IJ".toList, revision := 3,
           history := coveringDeletes, dirty := true }
  contents := ["ABCDEFGHIJ".toList, "ABGHIJ".toList, "HIJ".toList, "IJ".toList]
  stored := coveringDeletes

theorem coveredDocument_run :
    Machine.run step (start 1 "t" "ABCDEFGHIJ".toList 10000) coveringDeletes = some coveredDocument := by
  rfl

/-- **An underflowing deletion empties the document.** Every operation of the run and the late deletion
    are admissible, and the late deletion of `D` removes the bytes `IJ`. -/
theorem delete_removes_foreign_bytes :
    Machine.Along step (fun t op => t.Admissible op) (start 1 "t" "ABCDEFGHIJ".toList 10000)
        coveringDeletes ∧
      Machine.run step (start 1 "t" "ABCDEFGHIJ".toList 10000) coveringDeletes = some coveredDocument ∧
      coveredDocument.Admissible lateDelete ∧ coveredDocument.doc.content = "IJ".toList ∧
      (coveredDocument.doc.applyWithOt lateDelete).1.content = [] ∧
      ¬ coveredDocument.RemovesNamedBytes lateDelete := by
  refine ⟨by decide, coveredDocument_run, by decide, rfl, by decide, ?_⟩
  rintro ⟨left, removed, added, right, hold, hnew, -, hdel⟩
  have hempty : left ++ added ++ right = [] := by rw [← hnew]; decide
  simp only [List.append_eq_nil_iff] at hempty
  obtain ⟨⟨rfl, -⟩, rfl⟩ := hempty
  have hj : 'J' ∈ removed := by
    have hr : removed = coveredDocument.doc.content := by simpa using hold.symm
    rw [hr]; decide
  cases (hdel rfl).2 _ hj with
  | named h => revert h; decide
  | inside _ hop _ ht _ _ _ _ _ =>
      have hdeletes : ∀ h ∈ coveringDeletes, h.type = .delete := by decide
      rw [hdeletes _ (List.mem_of_getElem? hop)] at ht
      cases ht

end Recorded

end CollabEditor
