import CollabEditor.Core.TransformSpec
import CollabEditor.Lib.EditFollow
import Mathlib.Data.List.Nodup

/-!
# `Client.CursorTranslator` — the cursors of others follow the text

`cursor_translator::translate` is the third place, after `apply` and `transform`, that says what an operation does
to a position. `Follows` is what the three must agree on: the offset stays in the document and in order, the byte
behind the cursor stays behind it, and an insertion made at the cursor would go to the same place.

All offsets have 32 bits. A document that has an offset for each of its ends before and after the operation is
followed (`translate_follows`); at a size of `2^32` the end has none.

## Contents
- **Labels.** `labelled`: the bytes of a document with their offsets, to say which byte is which afterwards.
- **Following.** `Follows`; `translate_toNat`: below `2^32` the code is `Edit.follow`.
- **The model of the cursors.** `RemoteCursor`, `applyRemoteOperation`, and the selections it keeps in order.
-/

namespace CollabEditor

variable {α : Type}

/-- `cursor_translator::translate`. -/
def translate (myPos : UInt32) (op : Operation α) : UInt32 :=
  if op.isNoop then myPos
  else match op.type with
    | .insert =>
        let len := UInt32.ofNat op.text.length
        if op.position ≤ myPos then myPos + len else myPos
    | .delete =>
        let p := op.position
        let stop := p + op.length
        if stop ≤ myPos then myPos - op.length
        else if myPos ≤ p then myPos
        else p

/-! ## Labels -/

/-- The bytes of a document, each with its offset. -/
def labelled (d : List α) : List (α × Option ℕ) := d.zipIdx.map fun (x, i) => (x, some i)

/-- The operation on such a document. What it inserts had no offset there. -/
def Operation.labelled (op : Operation α) : Operation (α × Option ℕ) :=
  { op with text := op.text.map fun x => (x, none) }

/-- The byte that `d` has at offset `p` is the one that `apply d op` has at `i`. -/
def MovesTo (d : List α) (op : Operation α) (p i : ℕ) : Prop :=
  ∃ x, (apply (labelled d) op.labelled)[i]? = some (x, some p)

/-- Cursors are translated as the text is edited. -/
structure Follows (d : List α) (op : Operation α) : Prop where
  inRange  : ∀ p : UInt32, p.toNat ≤ d.length → (translate p op).toNat ≤ (apply d op).length
  monotone : ∀ p q : UInt32, p ≤ q → q.toNat ≤ d.length → translate p op ≤ translate q op
  bytes    : ∀ (p : UInt32) (i : ℕ), MovesTo d op p.toNat i → (translate p op).toNat = i
  ending   : ∀ p : UInt32, p.toNat = d.length → (translate p op).toNat = (apply d op).length
  inserts  : ∀ (p userId revision : UInt32) (text : List α), p.toNat ≤ d.length → text ≠ [] →
    op.userId < userId → (transform (makeInsert p text userId revision) op).1.position = translate p op

section Labels

variable {d : List α} {op : Operation α} {p i : ℕ}

theorem length_labelled (d : List α) : (labelled d).length = d.length := by
  simp [labelled]

theorem getElem?_labelled (d : List α) (p : ℕ) : (labelled d)[p]? = d[p]?.map fun x => (x, some p) := by
  simp [labelled, List.getElem?_zipIdx, Option.map_map, Function.comp_def]

theorem map_fst_labelled (d : List α) : (labelled d).map Prod.fst = d := by
  simp [labelled, Function.comp_def]

theorem nodup_labelled (d : List α) : (labelled d).Nodup := by
  apply List.Nodup.of_map Prod.snd
  have hmap : (labelled d).map Prod.snd = (List.range' 0 d.length).map some := by
    rw [← List.zipIdx_map_snd 0 d, labelled, List.map_map, List.map_map]
    rfl
  rw [hmap]
  exact (List.nodup_range').map (Option.some_injective ℕ)

/-- The labels do not matter to `apply`: without them it leaves what it leaves of `d`. -/
theorem map_fst_apply_labelled (d : List α) (op : Operation α) :
    (apply (labelled d) op.labelled).map Prod.fst = apply d op := by
  have htext : (op.text.map fun x => (x, (none : Option ℕ))).map Prod.fst = op.text := by
    simp [Function.comp_def]
  have hnoop : op.labelled.isNoop = op.isNoop := by
    unfold Operation.isNoop Operation.labelled
    cases op.type <;> simp
  unfold apply
  rw [hnoop, length_labelled]
  split_ifs
  · exact map_fst_labelled d
  · show List.map Prod.fst (match op.type with | .insert => _ | .delete => _) = _
    cases op.type <;>
      simp [Operation.labelled, List.map_take, List.map_drop, map_fst_labelled, Function.comp_def]

theorem inRange_labelled (h : InRange d op) : InRange (labelled d) op.labelled := by
  cases ht : op.type with
  | insert =>
      have hlabelled : op.labelled.type = .insert := ht
      refine (inRange_insert hlabelled).mpr ⟨?_, ?_⟩
      · rw [length_labelled]
        exact (h.insert ht).1
      · show op.length = UInt32.ofNat (op.text.map _).length
        rw [List.length_map]
        exact (h.insert ht).2
  | delete =>
      have hlabelled : op.labelled.type = .delete := ht
      refine (inRange_delete hlabelled).mpr ?_
      rw [length_labelled]
      exact h.delete ht

/-- Labelled bytes of the document are not among those inserted. -/
theorem fresh_labelled (d : List α) (op : Operation α) : op.labelled.toEdit.Fresh (labelled d) := by
  cases ht : op.type with
  | delete =>
      rw [op.labelled.toEdit_delete ht]
      trivial
  | insert =>
      rw [op.labelled.toEdit_insert ht]
      intro y hy hmem
      obtain ⟨x, -, rfl⟩ := List.mem_map.mp hy
      obtain ⟨⟨z, j⟩, -, hz⟩ := List.mem_map.mp hmem
      simp at hz

theorem follow_labelled (op : Operation α) (q : ℕ) : op.labelled.toEdit.follow q = op.toEdit.follow q := by
  cases ht : op.type with
  | insert =>
      rw [op.labelled.toEdit_insert ht, op.toEdit_insert ht]
      simp [Edit.follow, Operation.labelled]
  | delete =>
      rw [op.labelled.toEdit_delete ht, op.toEdit_delete ht]
      rfl

/-- A byte with an offset was there before, at that offset. -/
theorem MovesTo.origin (h : InRange d op) (hd : d.length < 2 ^ 32) (hm : MovesTo d op p i) :
    ∃ x, (labelled d)[p]? = some x ∧ (op.labelled.toEdit.act (labelled d))[i]? = some x := by
  obtain ⟨x, hx⟩ := hm
  rw [apply_eq_act (inRange_labelled h) (by rw [length_labelled]; exact hd)] at hx
  have hmem : (x, some p) ∈ labelled d := by
    have hact := List.mem_of_getElem? hx
    cases ht : op.type with
    | insert =>
        rw [op.labelled.toEdit_insert ht, Edit.act, List.mem_append, List.mem_append] at hact
        rcases hact with (hact | hact) | hact
        · exact List.mem_of_mem_take hact
        · -- what was inserted has none
          obtain ⟨y, -, hy⟩ := List.mem_map.mp hact
          simp at hy
        · exact List.mem_of_mem_drop hact
    | delete =>
        rw [op.labelled.toEdit_delete ht, Edit.act, List.mem_append] at hact
        rcases hact with hact | hact
        · exact List.mem_of_mem_take hact
        · exact List.mem_of_mem_drop hact
  obtain ⟨j, hj⟩ := List.getElem?_of_mem hmem
  -- the label of an entry is its index
  have hjp : j = p := by
    have hlabel := hj
    rw [getElem?_labelled] at hlabel
    obtain ⟨y, -, hy⟩ := Option.map_eq_some_iff.mp hlabel
    simpa using congrArg Prod.snd hy
  rw [hjp] at hj
  exact ⟨_, hj, hx⟩

theorem MovesTo.lt_length (h : InRange d op) (hd : d.length < 2 ^ 32) (hm : MovesTo d op p i) : p < d.length := by
  obtain ⟨x, hp, -⟩ := hm.origin h hd
  have hlt := (List.getElem?_eq_some_iff.mp hp).1
  rwa [length_labelled] at hlt

/-- **A byte that survives** is where its offset went. -/
theorem MovesTo.eq_follow (h : InRange d op) (hd : d.length < 2 ^ 32) (hm : MovesTo d op p i) :
    i = op.toEdit.follow p := by
  obtain ⟨x, hp, hi⟩ := hm.origin h hd
  rw [← follow_labelled op p]
  exact Edit.follow_index (nodup_labelled d) (inRange_labelled h).2 (fresh_labelled d op) hp hi

end Labels

/-! ## Following -/

section Following

variable {d : List α} {op : Operation α} {p q : UInt32}

/-- **The code follows**, where both documents have 32-bit sizes. -/
theorem translate_toNat (h : InRange d op) (hd : d.length < 2 ^ 32) (hr : (apply d op).length < 2 ^ 32)
    (hp : p.toNat ≤ d.length) : (translate p op).toNat = op.toEdit.follow p.toNat := by
  rw [apply_eq_act h hd] at hr
  cases ht : op.type with
  | insert =>
      rw [op.toEdit_insert ht] at hr ⊢
      rw [Edit.length_act_ins (h.insert ht).1] at hr
      simp only [translate, Operation.isNoop, ht, Edit.follow, UInt32.le_iff_toNat_le]
      by_cases hempty : op.text = []
      · simp [hempty]
      · have hsum := Word.toNat_ofNat (n := op.text.length) (by omega)
        rw [if_neg (by simpa using hempty)]
        split_ifs
        · rw [Word.toNat_add (by omega), hsum]
        · rfl
  | delete =>
      have hrange := h.delete ht
      rw [op.toEdit_delete ht]
      simp only [translate, Operation.isNoop, ht, Edit.follow, UInt32.le_iff_toNat_le,
        Word.toNat_add (show op.position.toNat + op.length.toNat < 2 ^ 32 by omega)]
      by_cases hempty : op.length = 0
      · simp [hempty]
        omega
      · rw [if_neg (by simpa using hempty)]
        split_ifs
        · exact Word.toNat_sub (by omega)
        · rfl
        · rfl

theorem translate_noop (hn : op.isNoop = true) : translate p op = p := by
  rw [translate, if_pos hn]

/-- Where `transform` puts an insertion that comes after those of the other one's author. -/
theorem position_transform_of_insert {a : Operation α} (hta : a.type = .insert) (ht : op.type = .insert)
    (hu : op.userId < a.userId) :
    (transform a op).1.position = if op.position ≤ a.position then a.position + op.length else a.position := by
  have hnot : ¬ a.userId < op.userId := UInt32.lt_asymm hu
  rw [transform, hta, ht]
  show (transformInsertInsert a op).1.position = _
  rw [transformInsertInsert]
  by_cases h₁ : op.position < a.position
  · rw [if_neg (UInt32.lt_asymm h₁), if_pos h₁, if_pos (UInt32.le_of_lt h₁)]
  · -- same place: the later author's insertion goes after the other one
    by_cases h₂ : a.position < op.position
    · rw [if_pos h₂, if_neg (UInt32.not_le.mpr h₂)]
    · rw [if_neg h₂, if_neg h₁, if_neg hnot, if_pos hu, if_pos (UInt32.not_lt.mp h₂)]

theorem position_transform_of_delete {a : Operation α} (hta : a.type = .insert) (ht : op.type = .delete) :
    (transform a op).1.position = if a.position ≤ op.position then a.position
      else if op.position + op.length ≤ a.position then a.position - op.length else op.position := by
  rw [transform, hta, ht]
  show (transformInsertDelete a op).1.position = _
  rw [transformInsertDelete]
  split_ifs <;> rfl

/-- `translate` for insertions, with those of nothing. -/
theorem translate_of_insert (h : InRange d op) (ht : op.type = .insert) :
    translate p op = if op.position ≤ p then p + op.length else p := by
  by_cases hn : op.isNoop = true
  · have hempty : op.text = [] := by simpa [Operation.isNoop, ht] using hn
    rw [translate_noop hn, (h.insert ht).2, hempty]
    simp
  · rw [translate, if_neg hn, ht, (h.insert ht).2]

/-- `translate` for deletions, with those of nothing; the tests are made in the order of `transform`. -/
theorem translate_of_delete (h : InRange d op) (hd : d.length < 2 ^ 32) (ht : op.type = .delete) :
    translate p op = if p ≤ op.position then p
      else if op.position + op.length ≤ p then p - op.length else op.position := by
  have hrange := h.delete ht
  have hend := Word.toNat_add (show op.position.toNat + op.length.toNat < 2 ^ 32 by omega)
  by_cases hn : op.isNoop = true
  · have hempty : op.length = 0 := by simpa [Operation.isNoop, ht] using hn
    rw [translate_noop hn, hempty, UInt32.add_zero, UInt32.sub_zero]
    split_ifs with h₁ h₂
    · rfl
    · rfl
    · exact absurd (UInt32.le_of_lt (UInt32.not_le.mp h₁)) h₂
  · have hlen : 0 < op.length.toNat := by
      apply Nat.pos_of_ne_zero
      intro hzero
      apply hn
      have hempty : op.length = 0 := UInt32.toNat_inj.mp hzero
      simp [Operation.isNoop, ht, hempty]
    rw [translate, if_neg hn, ht]
    simp only [UInt32.le_iff_toNat_le, hend]
    split_ifs <;> first | rfl | (exfalso; omega)

/-- **An insertion at the cursor** by a later user is transformed to the place of the cursor. -/
theorem position_transform_insert (h : InRange d op) (hd : d.length < 2 ^ 32) (text : List α)
    {userId : UInt32} (revision : UInt32) (hu : op.userId < userId) :
    (transform (makeInsert p text userId revision) op).1.position = translate p op := by
  cases ht : op.type with
  | insert =>
      rw [translate_of_insert h ht]
      exact position_transform_of_insert rfl ht hu
  | delete =>
      rw [translate_of_delete h hd ht]
      exact position_transform_of_delete rfl ht

/-- **Cursors follow the text**, where both documents have 32-bit sizes. -/
theorem translate_follows (h : InRange d op) (hd : d.length < 2 ^ 32) (hr : (apply d op).length < 2 ^ 32) :
    Follows d op := by
  have hfollow : ∀ p : UInt32, p.toNat ≤ d.length → (translate p op).toNat = op.toEdit.follow p.toNat :=
    fun p hp => translate_toNat h hd hr hp
  constructor
  · intro p hp
    rw [hfollow p hp, apply_eq_act h hd]
    exact Edit.follow_le h.2 hp
  · intro p q hpq hq
    rw [UInt32.le_iff_toNat_le] at hpq ⊢
    rw [hfollow p (Nat.le_trans hpq hq), hfollow q hq]
    exact Edit.follow_mono op.toEdit hpq
  · intro p i hm
    -- the byte was in the document, so its offset is in range
    rw [hfollow p (Nat.le_of_lt (hm.lt_length h hd))]
    exact (hm.eq_follow h hd).symm
  · intro p hp
    rw [hfollow p (Nat.le_of_eq hp), hp, apply_eq_act h hd]
    exact Edit.follow_end h.2
  · intro p userId revision text _ _ hu
    exact position_transform_insert h hd text revision hu

/-- A deletion around one end of a selection, on `HELLO`. -/
theorem translate_follows_hello :
    let op : Operation Char := makeDelete 1 3 [] 1 0
    Follows "HELLO".toList op ∧ translate 2 op = 1 ∧ translate 5 op = 2 :=
  ⟨translate_follows (by decide) (by decide) (by decide), by decide, by decide⟩

/-- One byte is inserted before `2^32 - 1` others: the end of the document, whose offset was the last that there
    is, goes to its start. -/
theorem end_wraps :
    let d : List UInt8 := List.replicate (2 ^ 32 - 1) 0
    let op : Operation UInt8 := makeInsert 0 [0] 1 0
    InRange d op ∧ ¬ Follows d op := by
  intro d op
  have hlen : d.length = 2 ^ 32 - 1 := List.length_replicate
  have hrange : InRange d op := ⟨fun _ => rfl, Nat.zero_le _⟩
  refine ⟨hrange, ?_⟩
  intro hf
  have hend := hf.ending 4294967295 hlen.symm
  rw [apply_eq_act hrange (by omega)] at hend
  have hact : (op.toEdit.act d).length = d.length + 1 := Edit.length_act_ins (Nat.zero_le _)
  rw [hact, hlen] at hend
  exact absurd hend (by decide)

end Following

/-! ## The model of the cursors -/

/-- `RemoteCursor`, without what only the painting reads. -/
structure RemoteCursor where
  userId         : UInt32
  position       : UInt32 := 0
  selectionStart : Option UInt32 := none
  selectionEnd   : Option UInt32 := none

/-- What `applyRemoteOperation` does to one cursor. -/
def RemoteCursor.translate (c : RemoteCursor) (op : Operation α) : RemoteCursor :=
  { c with
    position := CollabEditor.translate c.position op
    selectionStart := c.selectionStart.map (CollabEditor.translate · op)
    selectionEnd := c.selectionEnd.map (CollabEditor.translate · op) }

/-- `RemoteCursorsModel::applyRemoteOperation`. -/
def applyRemoteOperation (op : Operation α) (cursors : List RemoteCursor) : List RemoteCursor :=
  if op.isNoop ∨ cursors.isEmpty then cursors else cursors.map (·.translate op)

/-- The cursor and its selection lie in a document of `n` bytes, and the selection starts before it ends. -/
structure RemoteCursor.Within (n : ℕ) (c : RemoteCursor) : Prop where
  position : c.position.toNat ≤ n
  selected : ∀ b ∈ c.selectionEnd, b.toNat ≤ n ∧ ∀ a ∈ c.selectionStart, a ≤ b
  started  : ∀ a ∈ c.selectionStart, a.toNat ≤ n

section Cursors

variable {d : List α} {op : Operation α} {cursors : List RemoteCursor}

theorem RemoteCursor.Within.translate (hf : Follows d op) {c : RemoteCursor} (hc : c.Within d.length) :
    (c.translate op).Within (apply d op).length := by
  constructor
  · exact hf.inRange c.position hc.position
  · intro b hb
    obtain ⟨b₀, hb₀, rfl⟩ := Option.mem_map.mp hb
    obtain ⟨hle, hordered⟩ := hc.selected b₀ hb₀
    refine ⟨hf.inRange b₀ hle, ?_⟩
    intro a ha
    obtain ⟨a₀, ha₀, rfl⟩ := Option.mem_map.mp ha
    exact hf.monotone a₀ b₀ (hordered a₀ ha₀) hle
  · intro a ha
    obtain ⟨a₀, ha₀, rfl⟩ := Option.mem_map.mp ha
    exact hf.inRange a₀ (hc.started a₀ ha₀)

/-- One operation. -/
theorem applyRemoteOperation_within (hf : Follows d op) (hc : ∀ c ∈ cursors, c.Within d.length) :
    ∀ c ∈ applyRemoteOperation op cursors, c.Within (apply d op).length := by
  intro c hmem
  unfold applyRemoteOperation at hmem
  split_ifs at hmem with hquiet
  · rcases hquiet with hn | hempty
    · rw [apply_noop hn]
      exact hc c hmem
    · rw [List.isEmpty_iff.mp hempty] at hmem
      cases hmem
  · obtain ⟨c₀, hc₀, rfl⟩ := List.mem_map.mp hmem
    exact (hc c₀ hc₀).translate hf

/-- **Selections stay in order and in the document** over any operations that are in range one after the other. -/
theorem applyRemoteOperations_within (ops : List (Operation α))
    (hops : ∀ k (hk : k < ops.length), InRange ((ops.take k).foldl apply d) ops[k])
    (hsize : ∀ k ≤ ops.length, ((ops.take k).foldl apply d).length < 2 ^ 32)
    (hc : ∀ c ∈ cursors, c.Within d.length) :
    ∀ c ∈ ops.foldl (fun cs op => applyRemoteOperation op cs) cursors, c.Within (ops.foldl apply d).length := by
  induction ops generalizing d cursors with
  | nil => exact hc
  | cons op ops ih =>
      have hfirst := hops 0 (Nat.zero_lt_succ _)
      have hf : Follows d op := translate_follows hfirst (hsize 0 (Nat.zero_le _)) (hsize 1 (by simp))
      refine ih (fun k hk => ?_) (fun k hk => ?_) (applyRemoteOperation_within hf hc)
      · exact hops (k + 1) (Nat.succ_lt_succ hk)
      · exact hsize (k + 1) (Nat.succ_le_succ hk)

end Cursors

end CollabEditor
