import Mathlib.Data.List.Basic
import Mathlib.Tactic.Ring
import Mathlib.Tactic.SplitIfs

/-!
# `Lib.Edit` — operational transformation of list edits

Insertions and deletions on a list, with natural-number positions and no size limit, and the operation
`rebase a b`: the edit `a` rewritten so that it applies after the concurrent edit `b`. Concurrent
insertions at one position are ordered by their `site`; an insertion strictly inside a concurrent
deletion is swallowed by it.

## Contents
- **Edits.** `Edit`, `act`, `InRange`, and the pointwise reading `getElem?_act_*`.
- **Closure.** `rebase_inRange`: rebasing keeps an edit in range.
- **Convergence (TP1).** `rebase_converges`: the two orders of two concurrent edits agree.
-/

/-- An edit of a list: insert `text` at `pos` (issued by `site`), or delete `len` elements from `pos`. -/
inductive Edit (α : Type*) where
  | ins (pos : ℕ) (text : List α) (site : ℕ)
  | del (pos len : ℕ)

namespace Edit

variable {α : Type*}

/-- The list after an edit. -/
def act (d : List α) : Edit α → List α
  | ins p t _ => d.take p ++ t ++ d.drop p
  | del p n   => d.take p ++ d.drop (p + n)

/-- The edit names positions the list has. -/
def InRange (d : List α) : Edit α → Prop
  | ins p _ _ => p ≤ d.length
  | del p n   => p + n ≤ d.length

instance (d : List α) : (e : Edit α) → Decidable (InRange d e)
  | ins p _ _ => inferInstanceAs (Decidable (p ≤ d.length))
  | del p n   => inferInstanceAs (Decidable (p + n ≤ d.length))

/-- How many elements two ranges `[p, p+m)` and `[q, q+n)` share. -/
def shared (p m q n : ℕ) : ℕ := min (p + m) (q + n) - max p q

/-- `a` rewritten to apply after `b`. -/
def rebase : Edit α → Edit α → Edit α
  | ins p t u, ins q s v => if p < q ∨ (p = q ∧ u ≤ v) then ins p t u else ins (p + s.length) t u
  | ins p t u, del q n =>
      if p ≤ q then ins p t u else if q + n ≤ p then ins (p - n) t u else ins q [] u
  | del q n, ins p t _ =>
      if p ≤ q then del (q + t.length) n else if q + n ≤ p then del q n else del q (n + t.length)
  | del p m, del q n =>
      if shared p m q n = 0 then (if q < p then del (p - n) m else del p m)
      else del (min p q) (m - shared p m q n)

/-- The rebased deletion still lies to the right of the deletion it was rebased over. It can fail only
    for an empty deletion strictly inside the other one. -/
def NoUnderflow : Edit α → Edit α → Prop
  | del p m, del q n => shared p m q n = 0 → q < p → n ≤ p
  | _, _ => True

/-! ## Pointwise reading -/

theorem length_act_ins {d t : List α} {p u : ℕ} (h : p ≤ d.length) :
    (act d (ins p t u)).length = d.length + t.length := by
  simp [act]; omega

theorem length_act_del {d : List α} {p n : ℕ} (h : p + n ≤ d.length) :
    (act d (del p n)).length = d.length - n := by
  simp [act]; omega

theorem getElem?_act_ins {d t : List α} {p u : ℕ} (h : p ≤ d.length) (i : ℕ) :
    (act d (ins p t u))[i]? =
      if i < p then d[i]? else if i < p + t.length then t[i - p]? else d[i - t.length]? := by
  simp only [act, List.append_assoc, List.getElem?_append, List.getElem?_take, List.getElem?_drop,
    List.length_take, Nat.min_eq_left h]
  split_ifs <;> first | rfl | (exfalso; omega) | (congr 1; omega)

theorem getElem?_act_del {d : List α} {p n : ℕ} (h : p ≤ d.length) (i : ℕ) :
    (act d (del p n))[i]? = if i < p then d[i]? else d[i + n]? := by
  simp only [act, List.getElem?_append, List.getElem?_take, List.getElem?_drop, List.length_take,
    Nat.min_eq_left h]
  split_ifs <;> first | rfl | (congr 1; omega)

@[simp] theorem act_del_zero (d : List α) (p : ℕ) : act d (del p 0) = d := by
  simp [act]

@[simp] theorem act_ins_nil (d : List α) (p u : ℕ) : act d (ins p [] u) = d := by
  simp [act]

/-- The elements of the range `[p, p+n)`. -/
def slice (d : List α) (p n : ℕ) : List α := (d.drop p).take n

theorem mem_slice {d : List α} {p n : ℕ} {x : α} :
    x ∈ slice d p n ↔ ∃ i, p ≤ i ∧ i < p + n ∧ d[i]? = some x := by
  simp only [slice, List.mem_iff_getElem?, List.getElem?_take, List.getElem?_drop]
  constructor
  · rintro ⟨j, hj⟩
    split_ifs at hj with hlt
    exact ⟨p + j, by omega, by omega, hj⟩
  · rintro ⟨i, hpi, hin, hi⟩
    refine ⟨i - p, ?_⟩
    rw [if_pos (by omega), Nat.add_sub_cancel' hpi, hi]

/-- A deletion removes its slice and nothing else. -/
theorem act_del_eq {d : List α} {p n : ℕ} :
    d = d.take p ++ slice d p n ++ d.drop (p + n) ∧ act d (del p n) = d.take p ++ d.drop (p + n) := by
  refine ⟨?_, rfl⟩
  rw [slice, List.append_assoc, ← List.drop_drop, List.take_append_drop, List.take_append_drop]

/-! ## Closure -/

/-- **Rebasing keeps an edit in range**, on the list the other edit leaves. -/
theorem rebase_inRange {d : List α} {a b : Edit α} (ha : InRange d a) (hb : InRange d b)
    (hn : NoUnderflow a b) : InRange (act d b) (rebase a b) := by
  cases a with
  | ins p t u =>
      cases b with
      | ins q s v =>
          simp only [InRange] at ha hb
          simp only [rebase]
          split_ifs <;> simp only [InRange, length_act_ins hb] <;> omega
      | del q n =>
          simp only [InRange] at ha hb
          simp only [rebase]
          split_ifs <;> simp only [InRange, length_act_del hb] <;> omega
  | del p m =>
      cases b with
      | ins q s v =>
          simp only [InRange] at ha hb
          simp only [rebase]
          split_ifs <;> simp only [InRange, length_act_ins hb] <;> omega
      | del q n =>
          simp only [InRange] at ha hb
          simp only [NoUnderflow] at hn
          simp only [rebase]
          split_ifs with h0 hlt
          · have := hn h0 hlt
            simp only [InRange, length_act_del hb]
            simp only [shared] at h0
            omega
          · simp only [InRange, length_act_del hb]
            simp only [shared] at h0
            omega
          · simp only [InRange, length_act_del hb]
            simp only [shared] at h0 ⊢
            omega

/-- **What a rebased deletion covers**: elements of the range it had, or the text of an insertion that
    was made strictly inside that range. -/
theorem mem_slice_rebase {d : List α} {p m : ℕ} {b : Edit α} (hb : InRange d b) :
    ∃ p' m', rebase (del p m) b = del p' m' ∧ ∀ x ∈ slice (act d b) p' m',
      x ∈ slice d p m ∨ ∃ q s v, b = ins q s v ∧ p < q ∧ q < p + m ∧ x ∈ s := by
  cases b with
  | ins q s v =>
      simp only [InRange] at hb
      simp only [rebase]
      split_ifs with h1 h2
      · refine ⟨_, _, rfl, fun x hx => .inl ?_⟩
        obtain ⟨i, hi, hi', hx⟩ := mem_slice.mp hx
        rw [getElem?_act_ins hb, if_neg (by omega), if_neg (by omega)] at hx
        exact mem_slice.mpr ⟨i - s.length, by omega, by omega, hx⟩
      · refine ⟨_, _, rfl, fun x hx => .inl ?_⟩
        obtain ⟨i, hi, hi', hx⟩ := mem_slice.mp hx
        rw [getElem?_act_ins hb, if_pos (by omega)] at hx
        exact mem_slice.mpr ⟨i, hi, hi', hx⟩
      · refine ⟨_, _, rfl, fun x hx => ?_⟩
        obtain ⟨i, hi, hi', hx⟩ := mem_slice.mp hx
        rw [getElem?_act_ins hb] at hx
        split_ifs at hx with h3 h4
        · exact .inl (mem_slice.mpr ⟨i, hi, by omega, hx⟩)
        · exact .inr ⟨q, s, v, rfl, by omega, by omega, List.mem_of_getElem? hx⟩
        · exact .inl (mem_slice.mpr ⟨i - s.length, by omega, by omega, hx⟩)
  | del q n =>
      simp only [InRange] at hb
      simp only [rebase]
      split_ifs with h0 hlt
      · refine ⟨_, _, rfl, fun x hx => .inl ?_⟩
        obtain ⟨i, hi, hi', hx⟩ := mem_slice.mp hx
        rw [getElem?_act_del (by omega)] at hx
        simp only [shared] at h0
        rw [if_neg (by omega)] at hx
        exact mem_slice.mpr ⟨i + n, by omega, by omega, hx⟩
      · refine ⟨_, _, rfl, fun x hx => .inl ?_⟩
        obtain ⟨i, hi, hi', hx⟩ := mem_slice.mp hx
        rw [getElem?_act_del (by omega)] at hx
        simp only [shared] at h0
        split_ifs at hx with h3
        · exact mem_slice.mpr ⟨i, hi, hi', hx⟩
        · exact mem_slice.mpr ⟨i + n, by omega, by omega, hx⟩
      · refine ⟨_, _, rfl, fun x hx => .inl ?_⟩
        obtain ⟨i, hi, hi', hx⟩ := mem_slice.mp hx
        rw [getElem?_act_del (by omega)] at hx
        simp only [shared] at h0 hi'
        split_ifs at hx with h3
        · exact mem_slice.mpr ⟨i, by omega, by omega, hx⟩
        · exact mem_slice.mpr ⟨i + n, by omega, by omega, hx⟩

/-! ## Convergence -/

/-- The two edits are ordered when they insert at one position: they come from different sites. -/
def Apart : Edit α → Edit α → Prop
  | ins _ _ u, ins _ _ v => u ≠ v
  | _, _ => True

/-- Two insertions commute when the right one is moved past the text of the left one. -/
theorem act_ins_ins {d t s : List α} {p q u v : ℕ} (hpq : p ≤ q) (hq : q ≤ d.length) :
    act (act d (ins p t u)) (ins (q + t.length) s v) = act (act d (ins q s v)) (ins p t u) := by
  have hp : p ≤ d.length := by omega
  have hq' : q + t.length ≤ (act d (ins p t u)).length := by rw [length_act_ins hp]; omega
  have hp' : p ≤ (act d (ins q s v)).length := by rw [length_act_ins hq]; omega
  apply List.ext_getElem?
  intro i
  rw [getElem?_act_ins hq', getElem?_act_ins hp', getElem?_act_ins hp, getElem?_act_ins hp,
    getElem?_act_ins hq, getElem?_act_ins hq]
  split_ifs <;> first | rfl | (exfalso; omega) | (congr 1; omega)

/-- An insertion to the left of a deletion moves it to the right. -/
theorem act_ins_del_left {d t : List α} {p q u n : ℕ} (hpq : p ≤ q) (hq : q + n ≤ d.length) :
    act (act d (ins p t u)) (del (q + t.length) n) = act (act d (del q n)) (ins p t u) := by
  have hp : p ≤ d.length := by omega
  have hq' : q + t.length ≤ (act d (ins p t u)).length := by rw [length_act_ins hp]; omega
  have hp' : p ≤ (act d (del q n)).length := by rw [length_act_del hq]; omega
  apply List.ext_getElem?
  intro i
  simp only [getElem?_act_del hq', getElem?_act_ins hp', getElem?_act_ins hp,
    getElem?_act_del (show q ≤ d.length by omega)]
  split_ifs <;> first | rfl | (exfalso; omega) | (congr 1; omega)

/-- An insertion to the right of a deletion is moved to the left by it. -/
theorem act_ins_del_right {d t : List α} {p q u n : ℕ} (hqp : q + n ≤ p) (hp : p ≤ d.length) :
    act (act d (ins p t u)) (del q n) = act (act d (del q n)) (ins (p - n) t u) := by
  have hq' : q ≤ (act d (ins p t u)).length := by rw [length_act_ins hp]; omega
  have hp' : p - n ≤ (act d (del q n)).length := by rw [length_act_del (by omega)]; omega
  apply List.ext_getElem?
  intro i
  simp only [getElem?_act_del hq', getElem?_act_ins hp', getElem?_act_ins hp,
    getElem?_act_del (show q ≤ d.length by omega)]
  split_ifs <;> first | rfl | (exfalso; omega) | (congr 1; omega)

/-- A deletion that grows over an insertion inside it leaves no trace of the insertion. -/
theorem act_ins_del_inside {d t : List α} {p q u n : ℕ} (hqp : q < p) (hpq : p < q + n)
    (hq : q + n ≤ d.length) :
    act (act d (ins p t u)) (del q (n + t.length)) = act d (del q n) := by
  have hp : p ≤ d.length := by omega
  have hq' : q ≤ (act d (ins p t u)).length := by rw [length_act_ins hp]; omega
  apply List.ext_getElem?
  intro i
  simp only [getElem?_act_del hq', getElem?_act_ins hp,
    getElem?_act_del (show q ≤ d.length by omega)]
  split_ifs <;> first | rfl | (exfalso; omega) | (congr 1; omega)

/-- Disjoint deletions commute when the right one is moved past the left one. -/
theorem act_del_del_disjoint {d : List α} {p m q n : ℕ} (hpq : p + m ≤ q) (hq : q + n ≤ d.length) :
    act (act d (del p m)) (del (q - m) n) = act (act d (del q n)) (del p m) := by
  have hq' : q - m ≤ (act d (del p m)).length := by rw [length_act_del (by omega)]; omega
  have hp' : p ≤ (act d (del q n)).length := by rw [length_act_del hq]; omega
  apply List.ext_getElem?
  intro i
  simp only [getElem?_act_del hq', getElem?_act_del hp',
    getElem?_act_del (show p ≤ d.length by omega), getElem?_act_del (show q ≤ d.length by omega)]
  split_ifs <;> first | rfl | (exfalso; omega) | (congr 1; omega)

theorem shared_comm (p m q n : ℕ) : shared p m q n = shared q n p m := by
  simp only [shared]; omega

/-- Deleting a range and then, at the smaller of the two positions, what is left of a range that meets
    it deletes the union of both. -/
theorem act_del_del_union {d : List α} {p m q n : ℕ} (hqm : q ≤ p + m) (hpn : p ≤ q + n)
    (hp : p + m ≤ d.length) :
    act (act d (del p m)) (del (min p q) (n - shared p m q n)) =
      act d (del (min p q) (max (p + m) (q + n) - min p q)) := by
  have h : n - shared p m q n = max (p + m) (q + n) - min p q - m := by
    simp only [shared]; omega
  have hr : min p q ≤ (act d (del p m)).length := by rw [length_act_del hp]; omega
  rw [h]
  apply List.ext_getElem?
  intro i
  simp only [getElem?_act_del hr, getElem?_act_del (show p ≤ d.length by omega),
    getElem?_act_del (show min p q ≤ d.length by omega)]
  split_ifs <;> first | rfl | (exfalso; omega) | (congr 1; omega)

theorem converge_ins_ins {d t s : List α} {p q u v : ℕ} (hp : p ≤ d.length) (hq : q ≤ d.length)
    (huv : u ≠ v) :
    act (act d (ins q s v)) (rebase (ins p t u) (ins q s v)) =
      act (act d (ins p t u)) (rebase (ins q s v) (ins p t u)) := by
  by_cases hlt : p < q ∨ (p = q ∧ u < v)
  · rw [rebase, if_pos (by omega), rebase, if_neg (by omega)]
    exact (act_ins_ins (by omega) hq).symm
  · rw [rebase, if_neg (by omega), rebase, if_pos (by omega)]
    exact act_ins_ins (by omega) hp

theorem converge_ins_del {d t : List α} {p q u n : ℕ} (hp : p ≤ d.length) (hq : q + n ≤ d.length) :
    act (act d (del q n)) (rebase (ins p t u) (del q n)) =
      act (act d (ins p t u)) (rebase (del q n) (ins p t u)) := by
  rcases le_or_gt p q with hpq | hpq
  · rw [rebase, if_pos hpq, rebase, if_pos hpq]
    exact (act_ins_del_left hpq hq).symm
  · rcases le_or_gt (q + n) p with hqp | hqp
    · rw [rebase, if_neg (by omega), if_pos hqp, rebase, if_neg (by omega), if_pos hqp]
      exact (act_ins_del_right hqp hp).symm
    · rw [rebase, if_neg (by omega), if_neg (by omega), rebase, if_neg (by omega),
        if_neg (by omega), act_ins_nil]
      exact (act_ins_del_inside hpq hqp hq).symm

theorem converge_del_del {d : List α} {p m q n : ℕ} (hp : p + m ≤ d.length) (hq : q + n ≤ d.length) :
    act (act d (del q n)) (rebase (del p m) (del q n)) =
      act (act d (del p m)) (rebase (del q n) (del p m)) := by
  have hs := shared_comm p m q n
  simp only [rebase, ← hs]
  by_cases h0 : shared p m q n = 0
  · simp only [if_pos h0]
    -- an empty deletion acts as the identity wherever it is moved
    rcases Nat.eq_zero_or_pos m with rfl | hm
    · split_ifs <;> simp
    rcases Nat.eq_zero_or_pos n with rfl | hn
    · split_ifs <;> simp
    simp only [shared] at h0
    rcases lt_or_ge p q with hpq | hpq
    · rw [if_neg (by omega), if_pos hpq]
      exact (act_del_del_disjoint (by omega) hq).symm
    · rw [if_pos (by omega), if_neg (by omega)]
      exact act_del_del_disjoint (by omega) hp
  · have hmeet : q ≤ p + m ∧ p ≤ q + n := by simp only [shared] at h0; omega
    rw [if_neg h0, if_neg h0, min_comm q p, act_del_del_union hmeet.1 hmeet.2 hp, hs, min_comm p q,
      act_del_del_union hmeet.2 hmeet.1 hq, max_comm]

/-- **Convergence (TP1).** Two concurrent edits, each followed by the other rebased over it, lead to the
    same list. -/
theorem rebase_converges {d : List α} {a b : Edit α} (ha : InRange d a) (hb : InRange d b)
    (hab : Apart a b) :
    act (act d b) (rebase a b) = act (act d a) (rebase b a) := by
  cases a with
  | ins p t u =>
      cases b with
      | ins q s v => exact converge_ins_ins ha hb hab
      | del q n => exact converge_ins_del ha hb
  | del p m =>
      cases b with
      | ins q s v => exact (converge_ins_del hb ha).symm
      | del q n => exact converge_del_del ha hb

end Edit
