import CollabEditor.Core.CodePoints

/-!
# `Core.Closure` — when the transformed pair is a pair of ordinary operations again

The history loop of the server and the buffer loop of the client transform what they have transformed before.
`OnBoundaries` is what they rely on: an operation in range, with both ends at the boundaries of code points.
The transform keeps that of a pair, with one exception. `transform_delete_delete` shares nothing between an
empty deletion and another one that contains it, and moves it back by the other's length: to some place before
the other one, or below zero.

## Contents
- **Subtractions.** `transformSubtractions`: every subtraction of positions and lengths that is made.
- **Closure.** `Closed`, `MovesBack`; `transform_closed_iff`.
-/

namespace CollabEditor

variable {α : Type}

/-! ## Subtractions -/

/-- The subtractions of `transform_insert_delete`. -/
def insertDeleteSubtractions (ins del : Operation α) : List (UInt32 × UInt32) :=
  if ins.position ≤ del.position then []
  else if del.position + del.length ≤ ins.position then [(ins.position, del.length)]
  else []

/-- The subtractions of `transform_delete_delete`. -/
def deleteDeleteSubtractions (a b : Operation α) : List (UInt32 × UInt32) :=
  let overlap := deleteOverlap a b
  if overlap = 0 then
    if a.position < b.position then [(b.position, a.length)]
    else if b.position < a.position then [(a.position, b.length)]
    else []
  else [(a.length, overlap.toUInt32), (b.length, overlap.toUInt32)]

/-- What `transform` subtracts from what, in 32 unsigned bits. -/
def transformSubtractions (a b : Operation α) : List (UInt32 × UInt32) :=
  match a.type, b.type with
  | .insert, .insert => []
  | .insert, .delete => insertDeleteSubtractions a b
  | .delete, .insert => insertDeleteSubtractions b a
  | .delete, .delete => deleteDeleteSubtractions a b

/-! ## Closure -/

/-- In range, with both ends at the boundaries of code points, and inserting whole ones. -/
def OnBoundaries (d : List UInt8) (op : Operation UInt8) : Prop :=
  op.WellFormed ∧ op.toEdit.OnCuts Utf8.Valid d

instance (d : List UInt8) (op : Operation UInt8) : Decidable (OnBoundaries d op) :=
  inferInstanceAs (Decidable (_ ∧ _))

/-- The transformed pair is on the boundaries of the documents it applies to, and nothing wrapped below zero. -/
structure Closed (d : List UInt8) (a b : Operation UInt8) : Prop where
  left     : OnBoundaries (apply d b) (transform a b).1
  right    : OnBoundaries (apply d a) (transform a b).2
  noBorrow : ∀ s ∈ transformSubtractions a b, s.2 ≤ s.1

/-- An empty deletion strictly inside another deletion. -/
def StrictlyInside (a b : Operation α) : Prop :=
  a.type = .delete ∧ b.type = .delete ∧ a.length = 0 ∧ b.position < a.position ∧ a.position < b.position + b.length

instance (a b : Operation α) : Decidable (StrictlyInside a b) :=
  inferInstanceAs (Decidable (_ ∧ _))

/-- An empty deletion strictly inside another one has a boundary at the other's length before it. -/
def MovesBack (d : List UInt8) (a b : Operation UInt8) : Prop :=
  StrictlyInside a b → b.length ≤ a.position ∧ Edit.Cut Utf8.Valid d (a.position - b.length).toNat

instance (d : List UInt8) (a b : Operation UInt8) : Decidable (MovesBack d a b) :=
  inferInstanceAs (Decidable (_ → _))

section Closure

variable {d : List UInt8} {a b op : Operation UInt8}

theorem OnBoundaries.inRange (h : OnBoundaries d op) : InRange d op := ⟨h.1, h.2.aligned.inRange⟩

/-- A document below `2^31` bytes stays below `2^32` under an insertion of as much. -/
theorem length_apply_lt (hd : d.length < 2 ^ 31) (ht : op.text.length < 2 ^ 31) (h : InRange d op) :
    (apply d op).length < 2 ^ 32 := by
  rw [apply_eq_act h (by omega)]
  cases htype : op.type with
  | insert =>
      rw [op.toEdit_insert htype, Edit.length_act_ins (h.insert htype).1]
      omega
  | delete =>
      rw [op.toEdit_delete htype, Edit.length_act_del (h.delete htype)]
      omega

/-- In range, the end of a deletion does not wrap. -/
theorem strictlyInside_iff (hd : d.length < 2 ^ 31) (hb : InRange d b) :
    StrictlyInside a b ↔ a.toEdit.Inside b.toEdit := by
  cases hta : a.type with
  | insert =>
      rw [a.toEdit_insert hta]
      exact iff_of_false (fun h => nomatch hta.symm.trans h.1) id
  | delete =>
      cases htb : b.type with
      | insert =>
          rw [a.toEdit_delete hta, b.toEdit_insert htb]
          exact iff_of_false (fun h => nomatch htb.symm.trans h.2.1) id
      | delete =>
          have hpb := hb.delete htb
          have hend := Word.toNat_add (show b.position.toNat + b.length.toNat < 2 ^ 32 by omega)
          have hzero : a.length = 0 ↔ a.length.toNat = 0 := UInt32.toNat_inj.symm
          rw [a.toEdit_delete hta, b.toEdit_delete htb]
          simp only [StrictlyInside, Edit.Inside, hta, htb, true_and, UInt32.lt_iff_toNat_lt, hend, hzero]

/-- What underflows is strictly inside, and less far from the front than the other one is long. -/
theorem underflows_iff (hd : d.length < 2 ^ 31) (ha : InRange d a) (hb : InRange d b) :
    Underflows a b ↔ StrictlyInside a b ∧ ¬ b.length ≤ a.position := by
  constructor
  · intro hu
    have hempty := (transform_underflow hd ha hb hu).1
    obtain ⟨hta, htb, -, hlt, hlen⟩ := hu
    have hpb := hb.delete htb
    have hend := Word.toNat_add (show b.position.toNat + b.length.toNat < 2 ^ 32 by omega)
    refine ⟨⟨hta, htb, ?_, hlt, ?_⟩, ?_⟩
    · simpa [Operation.isNoop, hta] using hempty
    · rw [UInt32.lt_iff_toNat_lt] at hlen ⊢
      omega
    · rw [UInt32.le_iff_toNat_le]
      rw [UInt32.lt_iff_toNat_lt] at hlen
      omega
  · rintro ⟨⟨hta, htb, hzero, hlt, hend⟩, hlen⟩
    have hpa := ha.delete hta
    have hpb := hb.delete htb
    refine ⟨hta, htb, ?_, hlt, ?_⟩
    · rw [deleteOverlap_eq_zero (by omega) (by omega), hzero]
      rw [UInt32.lt_iff_toNat_lt] at hlt
      unfold Edit.shared
      rw [UInt32.toNat_zero]
      omega
    · rw [UInt32.le_iff_toNat_le] at hlen
      rw [UInt32.lt_iff_toNat_lt]
      omega

/-- **Nothing wraps below zero** but in the branch that underflows. -/
theorem noBorrow_iff (hd : d.length < 2 ^ 31) (ha : InRange d a) (hb : InRange d b) :
    (∀ s ∈ transformSubtractions a b, s.2 ≤ s.1) ↔ ¬ Underflows a b ∧ ¬ Underflows b a := by
  have hinsert : ∀ ins del : Operation UInt8, InRange d del → del.type = .delete →
      ∀ s ∈ insertDeleteSubtractions ins del, s.2 ≤ s.1 := by
    intro ins del hdel htype s hs
    have hpd := hdel.delete htype
    have hend := Word.toNat_add (show del.position.toNat + del.length.toNat < 2 ^ 32 by omega)
    unfold insertDeleteSubtractions at hs
    split_ifs at hs with h₁ h₂
    · cases hs
    · rw [List.mem_singleton.mp hs, UInt32.le_iff_toNat_le]
      rw [UInt32.le_iff_toNat_le, hend] at h₂
      show del.length.toNat ≤ ins.position.toNat
      omega
    · cases hs
  unfold transformSubtractions
  cases hta : a.type with
  | insert =>
      have hsides : ¬ Underflows a b ∧ ¬ Underflows b a :=
        ⟨fun h => (nomatch hta.symm.trans h.1), fun h => (nomatch hta.symm.trans h.2.1)⟩
      cases htb : b.type with
      | insert => exact iff_of_true nofun hsides
      | delete => exact iff_of_true (hinsert a b hb htb) hsides
  | delete =>
      cases htb : b.type with
      | insert =>
          exact iff_of_true (hinsert b a ha hta)
            ⟨fun h => (nomatch htb.symm.trans h.2.1), fun h => (nomatch htb.symm.trans h.1)⟩
      | delete =>
          have hpa := ha.delete hta
          have hpb := hb.delete htb
          simp only [Underflows, hta, htb, true_and, deleteOverlap_comm a b, deleteDeleteSubtractions]
          by_cases h₀ : deleteOverlap a b = 0
          · -- they share nothing: the one further right is moved back
            simp only [h₀, if_true, true_and, not_and, UInt32.not_lt]
            by_cases h₁ : a.position < b.position
            · simp [h₁, UInt32.lt_asymm h₁]
            · by_cases h₂ : b.position < a.position
              · simp [h₁, h₂]
              · simp [h₁, h₂]
          · -- what they share is part of both
            have hov := toNat_deleteOverlap (a := a) (b := b) (by omega) (by omega)
            unfold Edit.shared at hov
            refine iff_of_true ?_ ⟨fun h => h₀ h.1, fun h => h₀ h.1⟩
            rw [if_neg h₀]
            intro s hs
            rcases List.mem_cons.mp hs with rfl | hs
            · rw [UInt32.le_iff_toNat_le, hov]
              show _ ≤ a.length.toNat
              omega
            · rw [List.mem_singleton.mp hs, UInt32.le_iff_toNat_le, hov]
              show _ ≤ b.length.toNat
              omega

/-- **One side.** Where nothing underflows, the transformed operation is on boundaries unless it was strictly
    inside and lands off one. -/
theorem onBoundaries_transform_iff (hd : d.length < 2 ^ 31) (hdb : (apply d b).length < 2 ^ 32)
    (ha : OnBoundaries d a) (hb : OnBoundaries d b) (hn : ¬ Underflows a b) :
    OnBoundaries (apply d b) (transform a b).1 ↔ MovesBack d a b := by
  -- `rebase` says it of whole numbers, and nothing wraps where nothing underflows
  have hcuts := Edit.rebase_onCuts_iff pieces_valid ha.2 hb.2 (noUnderflow_toEdit hd ha.inRange hb.inRange hn)
  rw [← strictlyInside_iff hd hb.inRange, ← transform_refines hd hdb ha.inRange hb.inRange hn,
    ← apply_eq_act hb.inRange (by omega)] at hcuts
  have hwf := transform_wellFormed b ha.1
  unfold OnBoundaries
  rw [and_iff_right hwf, hcuts]
  refine forall_congr' fun hin => ?_
  have hle : b.length ≤ a.position :=
    Classical.byContradiction fun h => hn ((underflows_iff hd ha.inRange hb.inRange).mpr ⟨hin, h⟩)
  rw [and_iff_right hle, Word.toNat_sub (UInt32.le_iff_toNat_le.mp hle), a.toEdit_delete hin.1,
    b.toEdit_delete hin.2.1]
  rfl

/-- **The transform is closed** on a pair at the boundaries of code points, if and only if neither is an empty
    deletion strictly inside the other that has no boundary at the other's length before it. -/
theorem transform_closed_iff (hd : d.length < 2 ^ 31) (hta : a.text.length < 2 ^ 31) (htb : b.text.length < 2 ^ 31)
    (ha : OnBoundaries d a) (hb : OnBoundaries d b) : Closed d a b ↔ MovesBack d a b ∧ MovesBack d b a := by
  have hda := length_apply_lt hd hta ha.inRange
  have hdb := length_apply_lt hd htb hb.inRange
  -- an operation with a place to go back to does not underflow
  have hmoves : ∀ {x y : Operation UInt8}, InRange d x → InRange d y → MovesBack d x y → ¬ Underflows x y := by
    intro x y hx hy hm hu
    obtain ⟨hin, hlen⟩ := (underflows_iff hd hx hy).mp hu
    exact hlen (hm hin).1
  constructor
  · rintro ⟨hleft, hright, hborrow⟩
    obtain ⟨hab, hba⟩ := (noBorrow_iff hd ha.inRange hb.inRange).mp hborrow
    rw [transform_swap] at hright
    exact ⟨(onBoundaries_transform_iff hd hdb ha hb hab).mp hleft,
      (onBoundaries_transform_iff hd hda hb ha hba).mp hright⟩
  · rintro ⟨hleft, hright⟩
    have hab := hmoves ha.inRange hb.inRange hleft
    have hba := hmoves hb.inRange ha.inRange hright
    refine ⟨(onBoundaries_transform_iff hd hdb ha hb hab).mpr hleft, ?_,
      (noBorrow_iff hd ha.inRange hb.inRange).mpr ⟨hab, hba⟩⟩
    rw [transform_swap]
    exact (onBoundaries_transform_iff hd hda hb ha hba).mpr hright

/-- A deletion and an insertion inside it, on `abécd`. -/
theorem transform_closed_abecd :
    let d : List UInt8 := [0x61, 0x62, 0xC3, 0xA9, 0x63, 0x64]
    let a : Operation UInt8 := makeDelete 1 4 [] 1 0
    let b : Operation UInt8 := makeInsert 2 [0xC3, 0xA9] 2 0
    Closed d a b :=
  (transform_closed_iff (by decide) (by decide) (by decide) (by decide +kernel) (by decide +kernel)).mpr
    (by decide +kernel)

/-- On `abcdef` an empty deletion is moved below zero; on `abécd` it is moved into the middle of a letter. -/
theorem transform_moves_back_off :
    (let d : List UInt8 := [0x61, 0x62, 0x63, 0x64, 0x65, 0x66]
     let a : Operation UInt8 := makeDelete 3 0 [] 1 0
     let b : Operation UInt8 := makeDelete 1 5 [] 2 0
     Utf8.Valid d ∧ OnBoundaries d a ∧ OnBoundaries d b ∧ (transform a b).1.position = 4294967294 ∧ ¬ Closed d a b) ∧
    (let d : List UInt8 := [0x61, 0x62, 0xC3, 0xA9, 0x63, 0x64]
     let a : Operation UInt8 := makeDelete 5 0 [] 1 0
     let b : Operation UInt8 := makeDelete 4 2 [] 2 0
     Utf8.Valid d ∧ OnBoundaries d a ∧ OnBoundaries d b ∧ (transform a b).1.position = 3 ∧ ¬ Closed d a b) := by
  refine ⟨⟨by decide +kernel, by decide +kernel, by decide +kernel, by decide +kernel, ?_⟩,
    by decide +kernel, by decide +kernel, by decide +kernel, by decide +kernel, ?_⟩
  · intro h
    exact absurd h.left (by decide +kernel)
  · intro h
    exact absurd h.left (by decide +kernel)

end Closure

end CollabEditor
